import Mathlib.Data.Nat.Find
import PositionalSearch.Proofs.Follow.Query
import PositionalSearch.Proofs.Near.AnyOrder

/-!
# Unions, exclusions and regions as operations on sets of spans

What a union answers is the union of what its children yield, in order and each
span once.  An exclusion answers the included spans that are in conflict with no
excluded one, a region those that lie in it.  All three are stated of what the
children answer on their own, without regard to how far they are read or which
spans are passed on the way.
-/

namespace PositionalSearch

/-! ## Conflicts -/

namespace Clash

/--
An included and an excluded span of one document are in conflict where any two
are, or where the excluded one stops after the start of the widened included
one and starts before its stop.  To widen a span does not lead out of the
positions there are.
-/
def Conflicts : Clash → Span → Span → Prop
  | .inDocument, included, excluded => excluded.doc = included.doc
  | .overlap before behind, included, excluded =>
      excluded.doc = included.doc ∧
        max ((included.start.toNat : Int) - before.toNat) 0 <
          excluded.stop.toNat ∧
        (excluded.start.toNat : Int) <
          min (included.stop.toNat + behind.toNat) (2 ^ 32 - 1)

instance (clash : Clash) (included excluded : Span) :
    Decidable (clash.Conflicts included excluded) :=
  match clash with
  | .inDocument => inferInstanceAs (Decidable (_ = _))
  | .overlap _ _ => inferInstanceAs (Decidable (_ ∧ _ ∧ _))

/-- A search finds a clash where there is a conflict. -/
theorem between_iff {clash : Clash} {included excluded : Span} :
    clash.between included excluded ↔ clash.Conflicts included excluded := by
  cases clash with
  | inDocument =>
      simp only [between, Conflicts, Bool.and_true, decide_eq_true_eq]
  | overlap before behind =>
      simp only [between, Conflicts, Bool.and_eq_true, decide_eq_true_eq]
      refine and_congr_right fun _ => and_congr ?_ ?_
      · rw [widenedStart]
        omega
      · rw [widenedStop, UInt32.size]
        omega

/-- What is spared are the spans that are in conflict with no excluded one. -/
theorem map_span_spare (clash : Clash) (excluded included : Visits) :
    (clash.spare excluded included).map Visit.span =
      (included.map Visit.span).filter fun span =>
        ∀ other ∈ excluded.map Visit.span, ¬ clash.Conflicts span other := by
  rw [spare, List.filter_map]
  congr 1
  apply List.filter_congr
  intro visit _
  rw [Bool.eq_iff_iff, Bool.not_eq_true', bars, List.any_eq_false]
  simp only [between_iff, Function.comp_apply, decide_eq_true_eq,
    List.forall_mem_map]

end Clash

/-! ## Merged spans -/

/-- Each span of some lists is in what they are merged to, and no others are. -/
theorem Visits.mem_map_span_mergeAll {lists : List Visits} {span : Span}
    (ordered : ∀ list ∈ lists, Ordered list) :
    span ∈ (mergeAll lists).map Visit.span ↔
      ∃ list ∈ lists, span ∈ list.map Visit.span := by
  constructor
  · intro member
    obtain ⟨visit, merged, rfl⟩ := List.mem_map.mp member
    obtain ⟨place, inside, listed, _⟩ := (mem_mergeAll ordered).mp merged
    exact ⟨lists[place], List.getElem_mem inside, List.mem_map_of_mem listed⟩
  · rintro ⟨list, isList, member⟩
    -- Of several visits with the span that of the first list is merged.
    have listed : ∃ place, ∃ inside : place < lists.length,
        span ∈ lists[place].map Visit.span := by
      obtain ⟨place, inside, rfl⟩ := List.mem_iff_getElem.mp isList
      exact ⟨place, inside, member⟩
    classical
    obtain ⟨inside, isFirst⟩ := Nat.find_spec listed
    obtain ⟨visit, isVisit, rfl⟩ := List.mem_map.mp isFirst
    refine List.mem_map_of_mem ((mem_mergeAll ordered).mpr
      ⟨Nat.find listed, inside, isVisit, ?_⟩)
    intro earlier before other isOther same
    exact Nat.find_min listed before ⟨Nat.lt_trans before inside,
      List.mem_map.mpr ⟨other, isOther, same⟩⟩

namespace Query

variable {children : List Query}

/--
A union answers in ascending order, and each of them once, the spans that some
child yields.
-/
theorem union_drains_sorted
    (faultFree : ∀ child ∈ children, child.FaultFree) :
    ∃ (yields : Fin children.length → List Span) (answered : List Span),
      (∀ child, Walk.drain (children.get child).openTree =
        .ok (yields child)) ∧
      Walk.drain (union children).openTree = .ok answered ∧
      answered.Pairwise (· < ·) ∧
      ∀ span, span ∈ answered ↔ ∃ child, span ∈ yields child := by
  refine ⟨fun child => (children.get child).visits.map Visit.span, _,
    fun child => drain_openTree (faultFree _ (List.get_mem _ _)),
    drain_openTree (.union faultFree),
    List.pairwise_map.mpr (ordered_visits _), fun span => ?_⟩
  rw [visits, Visits.mem_map_span_mergeAll (ordered_allVisits children),
    allVisits_eq_map]
  constructor
  · rintro ⟨list, isList, member⟩
    obtain ⟨child, isChild, rfl⟩ := List.mem_map.mp isList
    obtain ⟨place, rfl⟩ := List.get_of_mem isChild
    exact ⟨place, member⟩
  · rintro ⟨child, member⟩
    exact ⟨_, List.mem_map_of_mem (List.get_mem _ child), member⟩

/-- Two children that share a span, one without spans, and a term. -/
def sharing : List Query :=
  [spread 1 [(0, 2), (3, 5)], .nothing, spread 1 [(0, 2), (0, 3)],
    .term [⟨2, 7, none⟩, ⟨1, 3, none⟩, ⟨2, 7, none⟩]]

theorem faultFree_sharing : ∀ child ∈ sharing, child.FaultFree := by
  intro child member
  simp only [sharing, List.mem_cons, List.not_mem_nil, or_false] at member
  rcases member with rfl | rfl | rfl | rfl
  · exact faultFree_spread _ _
  · exact .nothing
  · exact faultFree_spread _ _
  · exact .term _

/-- The shared span is answered once, before those that start or stop later. -/
theorem sharing_drains_sorted :
    (∀ child ∈ sharing, child.FaultFree) ∧
      Walk.drain (union sharing).openTree =
        .ok [⟨1, 0, 2, by decide⟩, ⟨1, 0, 3, by decide⟩, .ofToken 1 3,
          ⟨1, 3, 5, by decide⟩, .ofToken 2 7] ∧
      ∃ yields : Fin sharing.length → List Span,
        (∀ child, Walk.drain (sharing.get child).openTree =
          .ok (yields child)) ∧
        ∃ child, ⟨1, 0, 3, by decide⟩ ∈ yields child := by
  have drained : Walk.drain (union sharing).openTree =
      .ok [⟨1, 0, 2, by decide⟩, ⟨1, 0, 3, by decide⟩, .ofToken 1 3,
        ⟨1, 3, 5, by decide⟩, .ofToken 2 7] := by
    cbv
  obtain ⟨yields, answered, own, isDrained, _, answers⟩ :=
    union_drains_sorted faultFree_sharing
  rw [drained, Except.ok.injEq] at isDrained
  subst isDrained
  exact ⟨faultFree_sharing, drained, yields, own,
    (answers _).mp (List.mem_cons_of_mem _ List.mem_cons_self)⟩

/--
An exclusion answers, in their order, the included spans that are in conflict
with no excluded span.
-/
theorem without_drains_filtered {included excluded : Query}
    (ofIncluded : included.FaultFree) (ofExcluded : excluded.FaultFree)
    (clash : Clash) :
    ∃ candidates barriers : List Span,
      Walk.drain included.openTree = .ok candidates ∧
      Walk.drain excluded.openTree = .ok barriers ∧
      Walk.drain (without clash included excluded).openTree =
        .ok (candidates.filter fun span =>
          ∀ other ∈ barriers, ¬ clash.Conflicts span other) := by
  refine ⟨_, _, drain_openTree ofIncluded, drain_openTree ofExcluded, ?_⟩
  rw [drain_openTree (.without clash ofIncluded ofExcluded), visits,
    Clash.map_span_spare]

/-- Three spans with gaps between them, the middle one empty. -/
def shaded : Query := spread 1 [(4, 6), (9, 9), (14, 15)]

/-- Of the first two spans the longer one starts before the other. -/
def shades : Query := spread 1 [(0, 3), (1, 2), (11, 13)]

/-- Widened by two positions only the empty span is clear of the others. -/
theorem shaded_drains_filtered :
    shaded.FaultFree ∧ shades.FaultFree ∧
      Walk.drain (without (.overlap 2 2) shaded shades).openTree =
        .ok [⟨1, 9, 9, by decide⟩] ∧
      ∃ candidates barriers : List Span,
        Walk.drain shaded.openTree = .ok candidates ∧
        Walk.drain shades.openTree = .ok barriers ∧
        candidates.filter (fun span => ∀ other ∈ barriers,
          ¬ Clash.Conflicts (.overlap 2 2) span other) =
            [⟨1, 9, 9, by decide⟩] := by
  have drained : Walk.drain (without (.overlap 2 2) shaded shades).openTree =
      .ok [⟨1, 9, 9, by decide⟩] := by
    cbv
  have ofShaded : shaded.FaultFree := faultFree_spread _ _
  have ofShades : shades.FaultFree := faultFree_spread _ _
  obtain ⟨candidates, barriers, isShaded, isShades, filtered⟩ :=
    without_drains_filtered ofShaded ofShades (.overlap 2 2)
  rw [drained, Except.ok.injEq] at filtered
  exact ⟨ofShaded, ofShades, drained, candidates, barriers, isShaded, isShades,
    filtered.symm⟩

end Query

end PositionalSearch
