import PositionalSearch.Proofs.Exclusions
import PositionalSearch.Proofs.Plain

/-!
# Exclusions follow plain cursors

An exclusion yields the spans of the included child that clash with nothing
that the excluded child yields.
-/

namespace PositionalSearch

open Cursor (Follows FollowsUpon Mirrors Takes)

variable {σ : Type} [Cursor σ]

namespace Without

/-- The visits that an excluded child has pending which follows a plain one. -/
def Barred (pending : Visits) (node : Without σ) : Prop :=
  Pending (fun all cursor => Follows cursor (.fresh all)) FollowsUpon pending
    node

/-- The included child is as far as the node. -/
def Like (node : Without σ) : Plain → Prop
  | .fresh visits => node.standing = .unstarted ∧
      ∃ all pending, Follows node.included (.fresh all) ∧ all.Ordered ∧
        Barred pending node ∧ visits = node.clash.spare pending all
  | .on visit rest => node.standing = .on visit.span ∧
      ∃ all pending, Follows node.included (.on visit all) ∧
        Visits.Ordered (visit :: all) ∧ Barred pending node ∧
        rest = node.clash.spare pending all
  | .ended => node.standing = .exhausted
  | .closed => False

/-- A node settled on a visit has spared visits of its child to come. -/
theorem Settled.takes {all visits : Visits} {node reached : Without σ}
    {span? : Option Span}
    (settled : Settled (fun all cursor => Follows cursor (.fresh all))
      FollowsUpon all visits node span? reached) :
    Takes Like (node.clash.spare all visits) span? reached := by
  obtain ⟨sameClash, stands, settled⟩ := settled
  cases span? with
  | none =>
      rw [settled.1]
      exact ⟨rfl, stands⟩
  | some span =>
      obtain ⟨visit, rest, rfl, ⟨follows, ordered, pending, barred, agree⟩, _,
        spared⟩ := settled
      rw [spared]
      refine ⟨rfl, stands, rest, pending, follows, ordered, barred, ?_⟩
      rw [← sameClash]
      exact (spare_congr fun later member =>
        agree later (List.mem_cons_of_mem _ member)).symm

/-- To leave out what clashes is to take the first span that does not. -/
theorem takes_keep {node : Without σ} {pending all : Visits}
    {span? : Option Span} {child : σ} (takes : Takes Follows all span? child)
    (ordered : all.Ordered) (holds : Barred pending node) :
    (keep span?).Meets { node with included := child }
      (Takes Like (node.clash.spare pending all)) (fun _ _ => False) := by
  obtain ⟨rfl, follows⟩ := takes
  refine (settles_keep Cursor.serves_followsUpon Cursor.seeks_follows
    Cursor.settles_followsUpon { node with included := child }
    ⟨rfl, fun _ => follows⟩ ?_ ordered ⟨pending, holds, fun _ _ => rfl⟩).mono ?_ ?_
  · exact follows.standing_eq.trans (Plain.standing_upon all)
  · exact fun span? reached settled => settled.takes
  · exact fun _ _ failed => failed.1

theorem since_spare (clash : Clash) (pending all : Visits) (target : DocId) :
    (clash.spare pending all).since target =
      clash.spare pending (all.since target) := by
  simp only [Clash.spare, Visits.since, List.filter_filter, Bool.and_comm]

/-- A node that may move spares of its child's visits to come what is left. -/
theorem Like.follows_included {node : Without σ} {plain : Plain}
    (alike : Like node plain)
    (goes : (Cursor.standing plain).planNext = .ok true) :
    ∃ (below : Plain) (pending : Visits), Follows node.included below ∧
      below.held.Ordered ∧ Barred pending node ∧
      Cursor.standing below = Cursor.standing plain ∧
      plain.left = node.clash.spare pending below.left := by
  cases plain with
  | fresh visits =>
      obtain ⟨_, all, pending, follows, ordered, holds, same⟩ := alike
      exact ⟨.fresh all, pending, follows, ordered, holds, rfl, same⟩
  | on visit rest =>
      obtain ⟨_, all, pending, follows, ordered, holds, same⟩ := alike
      exact ⟨.on visit all, pending, follows, ordered, holds, rfl, same⟩
  | ended => cases goes
  | closed => cases goes

theorem mirrors : Mirrors (Like : Without σ → Plain → Prop) := by
  apply planned.mirrors
  · intro node plain alike
    cases plain with
    | fresh visits => exact alike.1
    | on visit rest => exact alike.1
    | ended => exact alike
    | closed => exact alike.elim
  · intro node plain alike
    change (do node.standing.requireSpan; Cursor.payloads node.included) = _
    cases plain with
    | fresh visits =>
        rw [alike.1]
        rfl
    | on visit rest =>
        obtain ⟨stands, all, pending, follows, _⟩ := alike
        rw [stands]
        exact follows.payloads_eq
    | ended =>
        rw [show node.standing = _ from alike]
        rfl
    | closed => exact alike.elim
  · intro node plain alike
    cases plain with
    | fresh visits =>
        obtain ⟨_, all, pending, _, ordered, _, rfl⟩ := alike
        exact ordered.filter _
    | on visit rest =>
        obtain ⟨_, all, pending, _, ordered, _, rfl⟩ := alike
        exact List.Pairwise.sublist (List.filter_sublist.cons_cons visit)
          ordered
    | ended => exact Visits.Ordered.nil
    | closed => exact alike.elim
  · intro node plain alike goes
    obtain ⟨below, pending, follows, ordered, holds, same, left⟩ :=
      alike.follows_included goes
    rw [← same] at goes
    rw [left]
    simp only [including, Attempt.meets_bind, Attempt.meets_within]
    exact (follows.meets_next goes).imp_answer
      fun _ _ takes => takes_keep takes (Plain.ordered_left ordered) holds
  · intro node plain target alike goes
    obtain ⟨below, pending, follows, ordered, holds, same, left⟩ :=
      alike.follows_included (Standing.planNext_of_planSeek goes)
    rw [← same] at goes
    rw [left, since_spare]
    simp only [including, Attempt.meets_bind, Attempt.meets_within]
    exact (follows.meets_seek goes ordered).imp_answer
      fun _ _ takes => takes_keep takes
        ((Plain.ordered_left ordered).since target) holds

theorem follows_ofCursors {clash : Clash} {included excluded : σ}
    {all pending : Visits} (follows : Follows included (.fresh all))
    (barred : Follows excluded (.fresh pending)) (ordered : all.Ordered)
    (pendingOrdered : pending.Ordered) :
    Follows (ofCursors clash included excluded)
      (.fresh (clash.spare pending all)) :=
  ⟨Like, mirrors, rfl, all, pending, follows, ordered,
    ⟨pendingOrdered, barred⟩, rfl⟩

end Without

end PositionalSearch
