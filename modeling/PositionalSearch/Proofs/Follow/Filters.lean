import PositionalSearch.Proofs.Order.Filters
import PositionalSearch.Proofs.Plain

/-!
# Meters and regions follow plain cursors

A meter yields what its child yields, a region what of it lies in the region.
That the child goes to the next document after a span past the region changes
nothing: what it passes lies past the region as well.
-/

namespace PositionalSearch

open Cursor (Follows Mirrors Takes)

variable {σ : Type} [Cursor σ]

/-! ## Meters -/

namespace Metered

theorem follows_ofCursor {name : String} {child : σ} {plain : Plain}
    (follows : Follows child plain) :
    Follows (ofCursor name child) plain := by
  refine ⟨fun node plain => Follows node.child plain, ?_, follows⟩
  constructor
  · exact fun follows => follows.standing_eq
  · exact fun follows => follows.payloads_eq
  · exact fun follows move => meets_go (Follows.mirrors.moves follows move)

end Metered

/-! ## What a move past a clash or a region reaches -/

/-- The child stands on the first of some visits, or none are left. -/
def Reaches (rest : Visits) (span? : Option Span) (child : σ) : Prop :=
  span? = rest.head?.map Visit.span ∧
    (rest ≠ [] → Follows child (.upon rest)) ∧ rest.Ordered

theorem Reaches.of_takes {rest : Visits} {span? : Option Span} {child : σ}
    (takes : Takes Follows rest span? child) (ordered : rest.Ordered) :
    Reaches rest span? child := ⟨takes.1, fun _ => takes.2, ordered⟩

/-! ## Regions -/

namespace Region

/-- The visits that lie in a region. -/
def holding (low high : Position) (anchor : Anchor) (all : Visits) : Visits :=
  all.filter fun visit => low ≤ anchor.position visit.span &&
    anchor.position visit.span ≤ high

/-- What a node holds of some visits. -/
def held (node : Region σ) (all : Visits) : Visits :=
  holding node.low node.high node.anchor all

omit [Cursor σ] in
theorem held_eq (node : Region σ) (all : Visits) :
    node.held all = all.filter fun visit => node.holds visit.span := rfl

omit [Cursor σ] in
theorem held_cons (node : Region σ) (visit : Visit) (all : Visits) :
    node.held (visit :: all) =
      if node.holds visit.span then visit :: node.held all
      else node.held all := by
  simp only [held_eq, List.filter_cons]

omit [Cursor σ] in
/-- What a region holds of the visits from a document on. -/
theorem since_held (node : Region σ) (all : Visits) (target : DocId) :
    (node.held all).since target = node.held (all.since target) := by
  simp only [held_eq, Visits.since, List.filter_filter, Bool.and_comm]

/-- The child is as far as the node. -/
def Like (node : Region σ) : Plain → Prop
  | .fresh visits => node.standing = .unstarted ∧
      ∃ all, Follows node.child (.fresh all) ∧ all.Ordered ∧
        visits = node.held all
  | .on visit rest => node.standing = .on visit.span ∧
      ∃ all, Follows node.child (.on visit all) ∧
        Visits.Ordered (visit :: all) ∧
        rest = node.held all
  | .ended => node.standing = .exhausted
  | .closed => False

omit [Cursor σ] in
/-- After a span past the region its document holds nothing more. -/
theorem holds_eq_false {node : Region σ} {span later : Span}
    (past : node.high < span.start) (before : span < later)
    (same : later.doc = span.doc) : node.holds later = false := by
  have starts := Span.start_le_of_lt before same.symm
  have stops := later.start_le_stop
  simp only [UInt32.lt_iff_toNat_lt, UInt32.le_iff_toNat_le]
    at past starts stops
  simp only [holds, Bool.and_eq_false_iff, decide_eq_false_iff_not,
    UInt32.le_iff_toNat_le]
  right
  cases node.anchor with
  | start =>
      change ¬ later.start.toNat ≤ _
      omega
  | stop =>
      change ¬ later.stop.toNat ≤ _
      omega

theorem takes_settle_none {node : Region σ} :
    (settle none).Meets node (Takes Like []) (fun _ _ => False) := ⟨rfl, rfl⟩

/-- The child moves on to where the region may hold something again. -/
theorem takes_moveOn {node : Region σ} {visit : Visit} {all : Visits}
    (follows : Follows node.child (.on visit all))
    (ordered : Visits.Ordered (visit :: all)) :
    (if node.high < visit.span.start then Cursor.nextDocument visit.span
      else Cursor.nextBeyond visit.span : Attempt Failure σ _).Meets
      node.child
      (fun later? child => ∃ rest,
        Reaches rest (later?.map Subtype.val) child ∧
        node.held rest = node.held all)
      (fun _ _ => False) := by
  split
  · rename_i past
    refine (Cursor.serves_followsUpon.meets_nextDocument follows
      ordered).mono ?_ fun _ _ failed => failed.1
    rintro later? child ⟨same, still⟩
    refine ⟨_, ⟨same, still, ordered.tail.filter _⟩, ?_⟩
    rw [held_eq, held_eq, Visits.beyond, List.filter_filter]
    refine List.filter_congr fun later member => ?_
    by_cases ahead : visit.doc < later.doc
    · simp [ahead]
    · have sameDoc : later.doc = visit.doc :=
        UInt64.le_antisymm (UInt64.not_lt.mp ahead) (ordered.doc_le member)
      simp [holds_eq_false past (ordered.head_lt member) sameDoc]
  · apply (follows.meets_nextBeyond ordered).imp_answer
    exact fun later? child takes =>
      ⟨all, .of_takes takes ordered.tail, rfl⟩

/-- The node settles on the first span that the region holds. -/
theorem takes_settleFrom (node : Region σ) {visit : Visit} {all : Visits}
    (follows : Follows node.child (.on visit all))
    (ordered : Visits.Ordered (visit :: all)) :
    (settleFrom visit.span).Meets node
      (Takes Like (node.held (visit :: all)))
      (fun _ _ => False) := by
  rw [settleFrom, held_cons]
  simp only [Attempt.meets_bind, Attempt.meets_look]
  split
  · exact ⟨rfl, rfl, all, follows, ordered, rfl⟩
  · simp only [moving, Attempt.meets_bind, Attempt.meets_within]
    apply (takes_moveOn follows ordered).imp_answer
    rintro later? child ⟨rest, ⟨isHead, still, restOrdered⟩, same⟩
    rw [← same]
    cases rest with
    | nil =>
        rw [List.head?_nil, Option.map_none, Option.map_eq_none_iff] at isHead
        subst isHead
        exact takes_settle_none
    | cons next others =>
        rw [List.head?_cons, Option.map_some, Option.map_eq_some_iff]
          at isHead
        obtain ⟨⟨_, beyond⟩, rfl, rfl⟩ := isHead
        have := Span.room_lt_room beyond
        exact takes_settleFrom { node with child := child }
          (still (List.cons_ne_nil _ _)) restOrdered
termination_by visit.span.room

/-- To keep to the region is to take the first span that it holds. -/
theorem takes_keep {node : Region σ} {all : Visits} {span? : Option Span}
    {child : σ} (takes : Takes Follows all span? child)
    (ordered : all.Ordered) :
    (keep span?).Meets { node with child := child }
      (Takes Like (node.held all))
      (fun _ _ => False) := by
  obtain ⟨rfl, follows⟩ := takes
  cases all with
  | nil => exact takes_settle_none
  | cons visit rest =>
      simp only [List.head?_cons, Option.map_some, keep, Attempt.meets_bind,
        Attempt.meets_look]
      split
      · rename_i reversed
        have none : node.held (visit :: rest) = [] := by
          refine List.filter_eq_nil_iff.mpr fun later _ => ?_
          simp only [UInt32.lt_iff_toNat_lt] at reversed
          simp only [Bool.and_eq_true, decide_eq_true_eq,
            UInt32.le_iff_toNat_le]
          omega
        rw [none]
        exact takes_settle_none
      · exact takes_settleFrom { node with child := child } follows
          ordered

/-- A node that may move holds of its child's visits to come what is left. -/
theorem Like.follows_child {node : Region σ} {plain : Plain}
    (alike : Like node plain)
    (goes : (Cursor.standing plain).planNext = .ok true) :
    ∃ below : Plain, Follows node.child below ∧ below.held.Ordered ∧
      Cursor.standing below = Cursor.standing plain ∧
      plain.left = node.held below.left := by
  cases plain with
  | fresh visits =>
      obtain ⟨_, all, follows, ordered, same⟩ := alike
      exact ⟨.fresh all, follows, ordered, rfl, same⟩
  | on visit rest =>
      obtain ⟨_, all, follows, ordered, same⟩ := alike
      exact ⟨.on visit all, follows, ordered, rfl, same⟩
  | ended => cases goes
  | closed => cases goes

theorem mirrors : Mirrors (Like : Region σ → Plain → Prop) := by
  apply planned.mirrors
  · intro node plain alike
    cases plain with
    | fresh visits => exact alike.1
    | on visit rest => exact alike.1
    | ended => exact alike
    | closed => exact alike.elim
  · intro node plain alike
    change (do node.standing.requireSpan; Cursor.payloads node.child) = _
    cases plain with
    | fresh visits =>
        rw [alike.1]
        rfl
    | on visit rest =>
        obtain ⟨stands, all, follows, _⟩ := alike
        rw [stands]
        exact follows.payloads_eq
    | ended =>
        rw [show node.standing = _ from alike]
        rfl
    | closed => exact alike.elim
  · intro node plain alike
    cases plain with
    | fresh visits =>
        obtain ⟨_, all, _, ordered, rfl⟩ := alike
        exact ordered.filter _
    | on visit rest =>
        obtain ⟨_, all, _, ordered, rfl⟩ := alike
        exact List.Pairwise.sublist (List.filter_sublist.cons_cons visit) ordered
    | ended => exact Visits.Ordered.nil
    | closed => exact alike.elim
  · intro node plain alike goes
    obtain ⟨below, follows, ordered, same, left⟩ := alike.follows_child goes
    rw [← same] at goes
    rw [left]
    simp only [moving, Attempt.meets_bind, Attempt.meets_within]
    exact (follows.meets_next goes).imp_answer
      fun _ _ takes => takes_keep takes (Plain.ordered_left ordered)
  · intro node plain target alike goes
    obtain ⟨below, follows, ordered, same, left⟩ :=
      alike.follows_child (Standing.planNext_of_planSeek goes)
    rw [← same] at goes
    rw [left, since_held]
    simp only [moving, Attempt.meets_bind, Attempt.meets_within]
    exact (follows.meets_seek goes ordered).imp_answer
      fun _ _ takes => takes_keep takes
        ((Plain.ordered_left ordered).since target)

theorem follows_ofCursor {low high : Position} {anchor : Anchor} {child : σ}
    {all : Visits} (follows : Follows child (.fresh all))
    (ordered : all.Ordered) :
    Follows (ofCursor low high anchor child)
      (.fresh (holding low high anchor all)) :=
  ⟨Like, mirrors, rfl, all, follows, ordered, rfl⟩

end Region

end PositionalSearch
