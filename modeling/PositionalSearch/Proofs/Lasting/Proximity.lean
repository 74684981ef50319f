import PositionalSearch.Proofs.Lasting.Nodes
import PositionalSearch.Proofs.Search

/-!
# What lasts for the children of proximity nodes

A proximity node places, aligns and searches its children by moves of single
children only.  Whatever moves leave standing of each child is left standing
by every move of the node, also by one that stops halfway.
-/

namespace PositionalSearch

open Attempt (Sustains sustains_fail sustains_look_bind sustains_ofExcept
  sustains_ofOption sustains_pure sustains_true sustains_within)
open Cursor (Lasting Concludes concludes_bind concludes_look_bind)

variable {σ : Type} [Cursor σ] {spared : Failure → Prop} {size : Nat}
  {holds : Fin size → σ → Prop}

namespace Lineup

variable {lineup : Lineup σ size}

/-- Each child of the lineup is as it should be. -/
def Held (holds : Fin size → σ → Prop) (lineup : Lineup σ size) : Prop :=
  Each holds lineup.cursors

variable (below : ∀ child, Lasting spared (holds child))
include below

theorem governed_held :
    Governed (Held holds : Lineup σ size → Prop)
      (fun failure reached => spared failure → Held holds reached) := by
  intro lineup child move held _
  have went : (Cursor.go move).Sustains spared (holds child) _ :=
    below child (held child) move
  refine meets_move_iff.mpr (went.mono ?_ ?_)
  · intro span? cursor placed
    cases span? with
    | none => exact held.set placed
    | some span => exact held.set placed
  · exact fun failure cursor placed isSpared => held.set (placed isSpared)

theorem sustains_align (held : Held holds lineup) :
    Lineup.align.Sustains spared (Held holds) lineup :=
  (governed_held below).meets_align held

theorem sustains_seek (held : Held holds lineup) (target : DocId) :
    (Lineup.seek target).Sustains spared (Held holds) lineup :=
  (governed_held below).meets_seek held target

theorem sustains_resume (held : Held holds lineup) (pivot : Fin size)
    (doc : DocId) :
    (Lineup.resume pivot doc).Sustains spared (Held holds) lineup :=
  (governed_held below).meets_resume held pivot doc

theorem sustains_search (held : Held holds lineup) (arrangement : Arrangement)
    (slop : Nat) (last : Option Span) (doc : DocId) :
    (Lineup.search arrangement slop last doc).Sustains spared (Held holds)
      lineup :=
  (governed_held below).meets_search
    ⟨fun _ held _ => held, fun _ placed _ => placed⟩ held arrangement slop
    last doc

end Lineup

/-! ## Children on their way -/

namespace Gathering

variable {gathering : Gathering σ size}

/-- Each child on the way is as it should be. -/
def Held (holds : Fin size → σ → Prop) (gathering : Gathering σ size) :
    Prop :=
  Each holds gathering.cursors

variable (below : ∀ child, Lasting spared (holds child))
include below

theorem sustains_enter (held : Held holds gathering)
    (target? : Option DocId) (child : Fin size) :
    (enter target? child).Sustains spared (Held holds) gathering := by
  have entered := (below child).enter (held child) target?
  simp only [Sustains, Attempt.Meets, Attempt.run, enter] at entered ⊢
  cases outcome : (Cursor.enter target? : Attempt Failure σ _)
      gathering.cursors[child] with
  | mk result cursor =>
      rw [outcome] at entered
      cases result with
      | error failure => exact fun isSpared => held.set (entered isSpared)
      | ok span? =>
          cases span? with
          | none => exact held.set entered
          | some span => exact held.set entered

theorem sustains_placeAll (held : Held holds gathering)
    (target? : Option DocId) (children : List (Fin size)) :
    (placeAll target? children).Sustains spared (Held holds) gathering := by
  induction children generalizing gathering with
  | nil => exact sustains_pure held _
  | cons child rest ih =>
      apply sustains_look_bind
      cases gathering.found[child] with
      | some span => exact ih held
      | none =>
          apply (sustains_enter below held target? child).bind
          intro span? reached heldOn
          cases span? with
          | none => exact sustains_pure heldOn _
          | some span => exact ih heldOn

omit [Cursor σ] below in
/-- Children that are a lineup are the children that were on the way. -/
theorem Held.of_lineup? (held : Held holds gathering)
    {lineup : Lineup σ size} (isLineup : gathering.lineup? = some lineup) :
    lineup.Held holds := by
  unfold lineup? at isLineup
  split at isLineup
  · cases isLineup
    exact held
  · cases isLineup

end Gathering

namespace Alignment

variable {alignment : Alignment σ size}

/-- Each child of the alignment is as it should be, also when it is over. -/
def Held (holds : Fin size → σ → Prop) (alignment : Alignment σ size) :
    Prop :=
  Each holds alignment.cursors

omit [Cursor σ] in
theorem sustains_onLineup {α : Type}
    {work : Attempt Failure (Lineup σ size) (Option α)}
    (sustains : ∀ {lineup : Lineup σ size}, lineup.Held holds →
      work.Sustains spared (Lineup.Held holds) lineup)
    (held : alignment.Held holds) :
    (onLineup work).Sustains spared (Held holds) alignment := by
  cases alignment with
  | starting gathering => exact fun _ => held
  | ended cursors => exact held
  | running lineup =>
      have worked : work.Sustains spared (Lineup.Held holds) lineup :=
        sustains held
      simp only [Sustains, Attempt.Meets, Attempt.run, onLineup] at worked ⊢
      cases outcome : work lineup with
      | mk result reached =>
          rw [outcome] at worked
          cases result with
          | error failure => exact worked
          | ok value? => cases value? <;> exact worked

theorem sustains_start (below : ∀ child, Lasting spared (holds child))
    (held : alignment.Held holds) (target? : Option DocId) :
    (start target?).Sustains spared (Held holds) alignment := by
  have aligns : ∀ {alignment : Alignment σ size}, alignment.Held holds →
      (onLineup Lineup.align).Sustains spared (Held holds) alignment :=
    sustains_onLineup (Lineup.sustains_align below)
  cases alignment with
  | running lineup => exact aligns held
  | ended cursors => exact aligns held
  | starting gathering =>
      apply meets_starting
      apply (Gathering.sustains_placeAll below held target? _).mono
      · intro all placed heldOn
        exact ⟨fun _ => heldOn, fun _ _ _ => heldOn, fun _ lineup isLineup =>
          @aligns (.running lineup) (heldOn.of_lineup? isLineup)⟩
      · exact fun _ _ placed => placed

end Alignment

/-! ## The node -/

namespace Proximity

variable {estimate : Nat} {stood : Standing} {node : Proximity σ size}

/-- The node stands where it should, its estimate unchanged. -/
structure Held (holds : Fin size → σ → Prop) (estimate : Nat)
    (standing : Standing) (node : Proximity σ size) : Prop where
  children : node.alignment.Held holds
  estimate : node.estimate = estimate
  stands : node.standing = standing

omit [Cursor σ] in
theorem sustains_aligning {α : Type}
    {work : Attempt Failure (Alignment σ size) α}
    (held : Held holds estimate stood node)
    (sustains : work.Sustains spared (Alignment.Held holds) node.alignment) :
    (aligning work).Sustains spared (Held holds estimate stood) node :=
  sustains_within sustains fun _ children =>
    ⟨children, held.estimate, held.stands⟩

omit [Cursor σ] in
theorem concludes_finish (held : Held holds estimate stood node) :
    Concludes spared (Held holds estimate) stood finish node :=
  ⟨held.children, held.estimate, rfl⟩

theorem sustains_collect (held : Held holds estimate stood node) :
    collect.Sustains spared (Held holds estimate stood) node := by
  have cleared : (Attempt.update fun node : Proximity σ size =>
      { node with payloads := [] }).Sustains spared
        (Held holds estimate stood) node :=
    ⟨held.children, held.estimate, held.stands⟩
  refine cleared.bind fun _ reached heldOn => ?_
  apply sustains_look_bind
  split
  · exact sustains_within (sustains_true _ _)
      fun _ _ => ⟨heldOn.children, heldOn.estimate, heldOn.stands⟩
  · exact sustains_pure heldOn ()

variable (below : ∀ child, Lasting spared (holds child))
include below

theorem sustains_resume (held : Held holds estimate stood node) :
    resume.Sustains spared (Held holds estimate stood) node := by
  apply sustains_look_bind
  split
  · exact sustains_aligning held
      (Alignment.sustains_start below held.children none)
  · refine (sustains_ofExcept held _).bind fun doc middle heldDoc => ?_
    refine (sustains_ofOption heldDoc _ _).bind fun pivot reached heldOn => ?_
    exact sustains_aligning heldOn (Alignment.sustains_onLineup
      (fun lineup => Lineup.sustains_resume below lineup pivot doc)
      heldOn.children)

theorem sustains_resumeAt (held : Held holds estimate stood node)
    (target : DocId) :
    (resumeAt target).Sustains spared (Held holds estimate stood) node := by
  apply sustains_look_bind
  split
  · exact sustains_aligning held
      (Alignment.sustains_start below held.children (some target))
  · exact sustains_aligning held (Alignment.sustains_onLineup
      (fun lineup => Lineup.sustains_seek below lineup target) held.children)

theorem concludes_settle (held : Held holds estimate stood node)
    (doc? : Option DocId) :
    Concludes spared (Held holds estimate) stood (settle doc?) node := by
  cases doc? with
  | none => exact concludes_finish held
  | some doc =>
      apply concludes_look_bind
      refine concludes_bind (sustains_aligning held
        (Alignment.sustains_onLineup (fun lineup =>
          Lineup.sustains_search below lineup _ _ _ doc) held.children)) ?_
      intro found? reached heldOn
      cases found? with
      | none => exact concludes_finish heldOn
      | some found =>
          have pivoted : (Attempt.update fun node : Proximity σ size =>
              { node with pivot? := some found.pivot }).Sustains spared
                (Held holds estimate stood) reached :=
            ⟨heldOn.children, heldOn.estimate, heldOn.stands⟩
          refine concludes_bind pivoted fun _ middle heldPivot => ?_
          refine concludes_bind (sustains_collect heldPivot) ?_
          intro _ last heldLast
          exact ⟨heldLast.children, heldLast.estimate, rfl⟩

/-- A proximity node concludes with its children as they should be. -/
theorem concludes_go (held : Held holds estimate node.standing node)
    (move : Move) :
    Concludes spared (Held holds estimate) node.standing (Cursor.go move)
      node := by
  refine planned.concludes held ?_ (fun target => ?_) move
  · exact concludes_bind (sustains_resume below held)
      fun doc? _ heldOn => concludes_settle below heldOn doc?
  · exact concludes_bind (sustains_resumeAt below held target)
      fun doc? _ heldOn => concludes_settle below heldOn doc?

end Proximity

end PositionalSearch
