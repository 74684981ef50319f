import PositionalSearch.Proofs.Exact.Basic
import PositionalSearch.Proofs.InStep.Proximity
import PositionalSearch.Proofs.Lasting.Nodes
import PositionalSearch.Proofs.Search

/-!
# Proximity nodes are exact

As long as no child of a proximity node has ended, each stands on its head.
Once one has, the alignment is over, and none of them is moved again.
-/

namespace PositionalSearch

open Cursor (Arrives Guided Left Reliable)

variable {σ : Type} [Cursor σ] {fit : σ → Prop} {size : Nat}

namespace Lineup

variable {lineup : Lineup σ size}

/-- All children are fit. -/
def Sound (fit : σ → Prop) (lineup : Lineup σ size) : Prop :=
  Each (fun _ => fit) lineup.cursors

theorem Kept.sound (kept : lineup.Kept (Cursor.Stands fit)) :
    lineup.Sound fit :=
  fun child => (kept child).fit

theorem led_kept (guided : Guided fit) :
    Led (Kept (Cursor.Stands fit)) (Sound fit : Lineup σ size → Prop)
      (fun _ _ => True) where
  moves lineup child move kept onward := by
    have went := guided (kept child) move <| by
      rintro target isTarget _ ⟨rfl⟩
      exact onward target isTarget
    refine meets_move_iff.mpr (went.left.imp_answer fun span? cursor left => ?_)
    cases span? with
    | none => exact kept.sound.set left.fit
    | some span => exact kept.place left.stands
  ends := Kept.sound

end Lineup

/-! ## Children on their way -/

namespace Gathering

variable {gathering : Gathering σ size}

theorem Kept.each (kept : gathering.Kept (Cursor.Stands fit)) :
    Each (fun _ => fit) gathering.cursors :=
  fun child => (kept.placed child).fit

/-- A child that was not placed yet is entered. -/
theorem guided_enter (guided : Guided fit)
    (kept : gathering.Kept (Cursor.Stands fit)) (target? : Option DocId)
    {child : Fin size} (waits : gathering.found[child] = none) :
    (enter target? child).Meets gathering
      (fun span? reached => Each (fun _ => fit) reached.cursors ∧
        ∀ span ∈ span?, reached.Kept (Cursor.Stands fit))
      fun _ _ => True := by
  have stands := kept.placed child
  rw [waits] at stands
  have entered := guided.meets_enter stands target?
  simp only [Attempt.Meets, Attempt.run, enter] at entered ⊢
  cases outcome : (Cursor.enter target? : Attempt Failure σ _)
      gathering.cursors[child] with
  | mk result cursor =>
      rw [outcome] at entered
      cases result with
      | error failure => trivial
      | ok span? =>
          cases span? with
          | none => exact ⟨kept.each.set entered.fit, by rintro _ ⟨⟩⟩
          | some span =>
              exact ⟨kept.each.set entered.fit,
                fun _ _ => kept.entered entered.stands⟩

theorem guided_placeAll (guided : Guided fit)
    (kept : gathering.Kept (Cursor.Stands fit)) (target? : Option DocId)
    (children : List (Fin size)) :
    (placeAll target? children).Meets gathering
      (fun all reached => Each (fun _ => fit) reached.cursors ∧
        (all = true → reached.Kept (Cursor.Stands fit)))
      fun _ _ => True := by
  induction children generalizing gathering with
  | nil => exact ⟨kept.each, fun _ => kept⟩
  | cons child rest ih =>
      simp only [placeAll, Attempt.meets_bind, Attempt.meets_look]
      cases waits : gathering.found[child] with
      | some span => exact ih kept
      | none =>
          simp only [Attempt.meets_bind]
          apply (guided_enter guided kept target? waits).imp_answer
          rintro span? reached ⟨each, keptOn⟩
          cases span? with
          | none => exact ⟨each, nofun⟩
          | some span => exact ih (keptOn span rfl)

end Gathering

namespace Alignment

variable {alignment : Alignment σ size}

/-- The children stand on their heads, until one of them ends. -/
def Exact (fit : σ → Prop) : Alignment σ size → Prop
  | .starting gathering => gathering.Kept (Cursor.Stands fit)
  | .running lineup => lineup.Kept (Cursor.Stands fit)
  | .ended cursors => Each (fun _ => fit) cursors

theorem Exact.each (exact : alignment.Exact fit) :
    Each (fun _ => fit) alignment.cursors := by
  cases alignment with
  | starting gathering => exact Gathering.Kept.each exact
  | running lineup => exact Lineup.Kept.sound exact
  | ended cursors => exact exact

theorem exact_onLineup {α : Type}
    {work : Attempt Failure (Lineup σ size) (Option α)}
    (works : ∀ {lineup : Lineup σ size}, lineup.Kept (Cursor.Stands fit) →
      work.Meets lineup
        (Lineup.Leaves (Lineup.Kept (Cursor.Stands fit)) (Lineup.Sound fit))
        fun _ _ => True)
    (exact : alignment.Exact fit) :
    (onLineup work).Meets alignment (fun _ => Exact fit) fun _ _ => True := by
  cases alignment with
  | starting gathering => trivial
  | ended cursors => exact exact
  | running lineup =>
      apply (meets_onLineup (works exact)).mono
      · rintro value? _ (⟨_, further, rfl, sound⟩ | ⟨_, further, _, rfl, kept⟩)
        · exact sound
        · exact kept
      · exact fun _ _ _ => trivial

theorem exact_start (guided : Guided fit) (exact : alignment.Exact fit)
    (target? : Option DocId) :
    (start target?).Meets alignment (fun _ => Exact fit) fun _ _ => True := by
  have aligns : ∀ {alignment : Alignment σ size}, alignment.Exact fit →
      (onLineup Lineup.align).Meets alignment (fun _ => Exact fit)
        fun _ _ => True :=
    exact_onLineup fun kept => (Lineup.led_kept guided).meets_align kept
  cases alignment with
  | running lineup => exact aligns exact
  | ended cursors => exact aligns exact
  | starting gathering =>
      apply meets_starting
      apply (Gathering.guided_placeAll guided exact target? _).imp_answer
      rintro all placed ⟨each, kept⟩
      exact ⟨fun _ => each, fun _ _ => trivial, fun isAll lineup isLineup =>
        @aligns (.running lineup) ((kept isAll).of_lineup? isLineup)⟩

end Alignment

/-! ## The node -/

namespace Proximity

variable {node : Proximity σ size}

/-- The children stand on their heads, until one of them ends. -/
def Exact (fit : σ → Prop) (node : Proximity σ size) : Prop :=
  node.alignment.Exact fit

theorem exact_aligning {α : Type}
    {work : Attempt Failure (Alignment σ size) α}
    (works : work.Meets node.alignment (fun _ => Alignment.Exact fit)
      fun _ _ => True) :
    (aligning work).Meets node (fun _ => Exact fit) fun _ _ => True := by
  rw [aligning, Attempt.meets_within]
  exact works

theorem exact_resume (guided : Guided fit) (exact : node.Exact fit) :
    resume.Meets node (fun _ => Exact fit) fun _ _ => True := by
  rw [resume, Attempt.meets_bind, Attempt.meets_look]
  split
  · exact exact_aligning (Alignment.exact_start guided exact none)
  · simp only [Attempt.meets_bind, Attempt.meets_ofExcept,
      Attempt.meets_ofOption]
    refine ⟨fun doc _ => ⟨fun pivot _ => ?_, fun _ => trivial⟩,
      fun _ _ => trivial⟩
    exact exact_aligning (Alignment.exact_onLineup
      (fun kept => (Lineup.led_kept guided).meets_resume kept pivot doc) exact)

theorem exact_resumeAt (guided : Guided fit) (exact : node.Exact fit)
    (target : DocId) :
    (resumeAt target).Meets node (fun _ => Exact fit) fun _ _ => True := by
  rw [resumeAt, Attempt.meets_bind, Attempt.meets_look]
  split
  · exact exact_aligning (Alignment.exact_start guided exact (some target))
  · exact exact_aligning (Alignment.exact_onLineup
      (fun kept => (Lineup.led_kept guided).meets_seek kept target) exact)

/-- To collect payloads moves no child. -/
theorem exact_collect (exact : node.Exact fit) :
    collect.Meets node (fun _ => Exact fit) fun _ _ => True := by
  simp only [collect, Attempt.meets_bind, Attempt.meets_update,
    Attempt.meets_look]
  split
  · have collected : (collectFrom node.children).Sustains (fun _ => True)
        (fun _ => True) [] := Attempt.sustains_true _ _
    rw [Attempt.meets_within]
    exact Attempt.Meets.mono collected (fun _ _ _ => exact)
      fun _ _ _ => trivial
  · exact exact

theorem arrives_settle (guided : Guided fit) (exact : node.Exact fit)
    (doc? : Option DocId) : Arrives (Exact fit) (settle doc?) node := by
  have finished : ∀ {node : Proximity σ size}, node.Exact fit →
      Arrives (Exact fit) finish node := fun exact => ⟨exact, rfl⟩
  cases doc? with
  | none => exact finished exact
  | some doc =>
      simp only [Arrives, settle, searchFrom, Attempt.meets_bind,
        Attempt.meets_look]
      apply (exact_aligning (Alignment.exact_onLineup (fun kept =>
        (Lineup.led_kept guided).meets_search
          ⟨fun _ _ => trivial, fun _ _ => trivial⟩ kept _ _ _ doc)
          exact)).imp_answer
      intro found? reached exactOn
      cases found? with
      | none => exact finished exactOn
      | some found =>
          simp only [Attempt.meets_bind, Attempt.meets_update,
            Attempt.meets_pure]
          exact (exact_collect (show Proximity.Exact fit { reached with
            pivot? := some found.pivot } from exactOn)).imp_answer
              fun _ _ exactLast => ⟨exactLast, rfl⟩

theorem reliable (guided : Guided fit) :
    Reliable (Exact fit : Proximity σ size → Prop) := by
  apply planned.reliable
  · intro node exact _
    rw [Arrives, Attempt.meets_bind]
    exact (exact_resume guided exact).imp_answer
      fun doc? _ exactOn => arrives_settle guided exactOn doc?
  · intro node target exact _
    rw [Arrives, Attempt.meets_bind]
    exact (exact_resumeAt guided exact target).imp_answer
      fun doc? _ exactOn => arrives_settle guided exactOn doc?

theorem Exact.closed (exact : node.Exact fit)
    (closes : ∀ cursor : σ, fit cursor → fit (Cursor.close cursor)) :
    Exact fit (close node) := by
  unfold close
  split
  · exact exact
  · exact (Alignment.Exact.each exact).map closes

theorem exact_ofCursors (arrangement : Arrangement) (slop : Nat)
    (collects : Bool) {cursors : Vector σ size}
    (stands : ∀ child : Fin size, Cursor.Stands fit none cursors[child]) :
    Exact fit (ofCursors arrangement slop collects cursors) :=
  have kept : Keeps (Cursor.Stands fit) arrangement slop none
      (ofCursors arrangement slop collects cursors) := keeps_ofCursors stands
  kept.alignment.1

end Proximity

end PositionalSearch
