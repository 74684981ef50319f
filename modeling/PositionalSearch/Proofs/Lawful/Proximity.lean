import PositionalSearch.Proofs.Failures.Proximity
import PositionalSearch.Proofs.Lasting.Proximity
import PositionalSearch.Proofs.Lawful.Basic

/-!
# Proximity nodes are lawful

What a move of a proximity node fails with is refused for where the node
stands, or it is a failure of one of its children.  So once these are audited,
their logs show that no move of the node ends in a breach either.
-/

namespace PositionalSearch

open Attempt (Abides Blames blames_look_bind)
open Cursor (Disciplined Lasting Lawful Orderly Trusted lawful_of_disciplined)

variable {ι σ : Type} {size : Nat} [Cursor σ]

namespace Audited

/-- The cursor breaks no rule, and its log shows that it never did. -/
structure Sound (disturb : ι → σ → σ) (audited : Audited σ) : Prop where
  lawful : Lawful disturb audited.cursor
  logged : ∀ failure ∈ audited.failures, failure.Ordinary

variable {disturb : ι → σ → σ}

theorem lasting_sound {spared : Failure → Prop} :
    Lasting spared (Sound disturb) := by
  intro audited sound move
  have moved := (carries_cursor.meets_go_iff move).mp
    (Lawful.guards.moves sound.lawful move)
  refine (moved.and (meets_go audited move)).mono ?_ ?_
  · rintro span? reached ⟨lawful, same⟩
    exact ⟨lawful, same ▸ sound.logged⟩
  · rintro failure reached ⟨⟨ordinary, lawful⟩, logged⟩ _
    refine ⟨lawful, ?_⟩
    rw [logged]
    exact List.forall_mem_cons.mpr ⟨ordinary, sound.logged⟩

end Audited

namespace Proximity

section

variable {disturb : ι → Audited σ → Audited σ}
  {keeps : Option Span → Audited σ → Prop} {arrangement : Arrangement}
  {slop : Nat} {last? : Option Span} {node : Proximity (Audited σ) size}

/-- To resume at a document fails as a child does, also on a stuck node. -/
theorem blames_resumeAt (below : Disciplined disturb keeps)
    (kept : Keeps keeps arrangement slop last? node) (target : DocId) :
    (resumeAt target).Blames logs node := by
  apply blames_look_bind
  have alignment := kept.alignment
  cases which : node.alignment with
  | starting gathering =>
      rw [which] at alignment
      apply blames_aligning
      rw [which]
      exact Alignment.blames_start below alignment.1 (some target)
  | running lineup =>
      apply blames_aligning
      rw [which]
      exact Alignment.blames_onLineup
        ((Lineup.governed_logs lineup.logs).meets_seek rfl target)
  | ended cursors =>
      apply blames_aligning
      rw [which]
      rfl

/-- A move is refused for where the node stands, or fails as a child does. -/
theorem charged_go (below : Disciplined disturb keeps)
    (kept : Keeps keeps arrangement slop last? node) (piloted : Piloted node)
    (move : Move) :
    (Cursor.go move).Meets node (fun _ _ => True)
      fun failure reached => failure.Ordinary ∨
        Charged node failure reached := by
  cases move with
  | next =>
      by_cases stuck : Stuck node
      · exact (Attempt.meets_of_error stuck.next_eq).mpr (.inl nofun)
      · exact (charged_next below kept piloted stuck).imp_failure
          fun _ _ => .inr
  | seek target =>
      refine planned.meets_seek (fun _ => .inl nofun) (fun _ => trivial)
        (fun _ _ _ => .inl nofun) (fun span isOn _ => ?_) fun _ => ?_
      · have isOn : node.standing = .on span := isOn
        have free : ¬ Stuck node := by
          intro stuck
          cases isOn.symm.trans stuck.1
        have goes : node.standing.planNext = .ok true := by
          rw [isOn]
          rfl
        exact (charged_onward below kept piloted goes free).imp_failure
          fun _ _ => .inr
      · exact (charged_settle_bind below
          ((meets_resumeAt below kept target).imp_answer
            fun _ _ resumed => resumed.1)
          (blames_resumeAt below kept target)).imp_failure fun _ _ => .inr

end

variable {disturb : ι → σ → σ} {arrangement : Arrangement} {slop : Nat}
  {last? : Option Span} {node : Proximity (Audited σ) size}

/-- The node knows which child moves on, and no child breaks a rule. -/
structure Sound (disturb : ι → σ → σ) (node : Proximity (Audited σ) size) :
    Prop where
  piloted : Piloted node
  children : Each (fun _ => Audited.Sound disturb) node.alignment.cursors

/-- What a child is charged with is not a breach. -/
theorem ordinary_of_charged {reached : Proximity (Audited σ) size}
    {failure : Failure}
    (children : Each (fun _ => Audited.Sound disturb)
      reached.alignment.cursors)
    (charged : Charged node failure reached) : failure.Ordinary := by
  rcases charged with ⟨child, logged⟩ | ⟨_, cursor, member, refuses⟩
  · refine (children child).logged failure ?_
    have isLog : reached.alignment.cursors[child].failures =
        failure :: node.logs child := logged
    rw [isLog]
    exact List.mem_cons_self
  · obtain ⟨place, inside, rfl⟩ := List.getElem_of_mem member
    have inside : place < size := by simpa [Proximity.children] using inside
    have sound := children ⟨place, inside⟩
    exact Lawful.guards.payloads sound.lawful refuses

theorem abides_go
    (kept : Keeps (Orderly (Audited.disturbed disturb)) arrangement slop last?
      node) (sound : Sound disturb node) (move : Move) :
    (Cursor.go move).Abides (Sound disturb) node := by
  have lasts : (Cursor.go move).Sustains (fun _ => True)
      (fun reached => Each (fun _ => Audited.Sound disturb)
        reached.alignment.cursors) node :=
    (concludes_go (fun _ => Audited.lasting_sound) ⟨sound.children, rfl, rfl⟩
      move).sustains fun _ _ _ concluded => concluded.children
  refine ((lasts.and (piloted_go sound.piloted move)).and
    (charged_go Orderly.disciplined kept sound.piloted move)).mono ?_ ?_
  · rintro _ reached ⟨⟨children, piloted⟩, _⟩
    exact ⟨piloted, children⟩
  · rintro failure reached ⟨⟨children, piloted⟩, refused⟩
    exact ⟨refused.elim id (ordinary_of_charged (children trivial)), piloted,
      children trivial⟩

theorem Sound.disturbed (sound : Sound disturb node) (event : ι) :
    Sound disturb
      (disturbed (Audited.disturbed disturb) event node) := by
  refine ⟨sound.piloted.disturbed event, fun child => ?_⟩
  have same : (Proximity.disturbed (Audited.disturbed disturb) event
      node).alignment.cursors[child] =
        Audited.disturbed disturb event node.alignment.cursors[child] := by
    simp [Proximity.disturbed, Alignment.cursors_mapCursors]
  have sound := sound.children child
  rw [same]
  exact ⟨Lawful.guards.disturbed sound.lawful event, sound.logged⟩

theorem lawful_audited {collects : Bool} {cursors : Vector (Audited σ) size}
    (orderly : ∀ child : Fin size,
      Orderly (Audited.disturbed disturb) none cursors[child])
    (sound : Each (fun _ => Audited.Sound disturb) cursors) :
    Lawful (disturbed (Audited.disturbed disturb))
      (ofCursors arrangement slop collects cursors) :=
  lawful_of_disciplined (disciplined Orderly.disciplined) abides_go
    (fun _ refused => Standing.ordinary_of_requireSpan refused nofun)
    Sound.disturbed (keeps_ofCursors orderly) ⟨⟨nofun, nofun⟩, sound⟩

/-- Auditing its children makes no difference to the node. -/
theorem lawful_ofCursors {collects : Bool} {cursors : Vector σ size}
    (trusted : ∀ child : Fin size, Trusted disturb none cursors[child]) :
    Lawful (disturbed disturb)
      (ofCursors arrangement slop collects cursors) := by
  have erased : cursors = (cursors.map Audited.fresh).map Audited.cursor := by
    simp [Vector.map_map, Function.comp_def, Audited.fresh]
  rw [erased, ofCursors_map Audited.carries_cursor.estimate_eq]
  refine (Proximity.carries Audited.carries_cursor).lawful
    (disturbed_carry fun _ _ => rfl) (lawful_audited (fun child => ?_)
      fun child => ?_)
  · simpa using Audited.orderly_fresh (trusted child).orderly
  · have same : (cursors.map Audited.fresh)[child] =
        Audited.fresh cursors[child] := by simp
    rw [same]
    exact ⟨(trusted child).lawful, by rintro _ ⟨⟩⟩

end Proximity

end PositionalSearch
