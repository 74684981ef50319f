import Mathlib.Algebra.BigOperators.Fin
import Mathlib.Algebra.BigOperators.Group.Finset.Piecewise
import PositionalSearch.Proofs.Follow.Query

/-!
# How many spans a query yields

Every node yields no more spans than its children allow: a merge or a search in
any order no more than all of them, a filter no more than what it filters, and
a search in order no more than the first of its children, for it answers at
most one match for each span of that child.  The estimate of a search in order
is that of its cheapest child, so it is a bound only where the first child is
the cheapest.
-/

namespace PositionalSearch

/-! ## Estimates of several cursors -/

namespace Estimate

/-- The least estimate is the first one, if the others are no less. -/
theorem least_cons_of_le {first : Nat} {rest : List Nat}
    (leads : ∀ other ∈ rest, first ≤ other) : least (first :: rest) = first := by
  have isLeast : (first :: rest).min? = some first := by
    rw [List.min?_eq_some_iff]
    constructor
    · exact List.mem_cons_self
    · intro other member
      rcases List.mem_cons.mp member with rfl | later
      · exact Nat.le_refl _
      · exact leads other later
  rw [least, isLeast]
  rfl

/-- A total that stays below the ceiling bounds what each estimate bounds. -/
theorem sum_le_total {counts estimates : List Nat}
    (bounds : List.Forall₂ (· ≤ ·) counts estimates)
    (small : counts.sum ≤ ceiling) : counts.sum ≤ total estimates := by
  suffices general : ∀ before after : Nat, before ≤ after →
      before + counts.sum ≤ ceiling → before + counts.sum ≤
        estimates.foldl (fun sum estimate => min (sum + estimate) ceiling)
          after by
    have fromZero := general 0 0 (Nat.le_refl 0) (by omega)
    rw [Nat.zero_add] at fromZero
    exact fromZero
  clear small
  induction bounds with
  | nil => exact fun before after atMost _ => atMost
  | @cons count estimate counts estimates atMost _ ih =>
      intro before after notLess small
      rw [List.sum_cons] at small ⊢
      have next := ih (before + count) (min (after + estimate) ceiling)
        (by omega) (by omega)
      rw [List.foldl_cons, ← Nat.add_assoc]
      exact next

end Estimate

/-! ## Matches -/

namespace Visits

/-- Each visit is in one document. -/
theorem sum_length_inside_le (docs : Finset DocId) (visits : Visits) :
    ∑ doc ∈ docs, (visits.inside doc).length ≤ visits.length := by
  induction visits with
  | nil => simp [inside]
  | cons visit rest ih =>
      have each : ∀ doc, (inside doc (visit :: rest)).length =
          (inside doc rest).length + if visit.doc = doc then 1 else 0 := by
        intro doc
        by_cases inDoc : visit.doc = doc
        · rw [inside_cons_of_eq inDoc, if_pos inDoc, List.length_cons]
        · rw [inside_cons_of_ne inDoc, if_neg inDoc, Nat.add_zero]
      simp only [each, Finset.sum_add_distrib, Finset.sum_ite_eq,
        List.length_cons]
      split <;> omega

end Visits

namespace Nearness

variable {size : Nat} {rule : Nearness} {filled : 0 < size} {doc : DocId}
  {last? : Option Span} {left : Fin size → Visits}

/-- There are no more matches than something falls that each of them costs. -/
theorem length_slide_le (measure : (Fin size → Visits) → Nat)
    (falls : ∀ (left : Fin size → Visits) (lined : Lined size),
      rule.lineUp? filled left = some lined →
        measure (pass (rule.pivot filled lined) lined.left) < measure left) :
    (rule.slide filled doc last? left).length ≤ measure left := by
  fun_induction slide rule filled doc last? left with
  | case1 => exact Nat.zero_le _
  | case2 last? left lined found shorter misses ih =>
      exact Nat.le_trans ih (Nat.le_of_lt (falls left lined found))
  | case3 last? left lined found shorter span hits ih =>
      rw [List.length_cons]
      exact Nat.lt_of_le_of_lt ih (falls left lined found)

theorem length_allMatches_eq (filled : 0 < size) :
    (rule.allMatches left).length =
      ∑ doc ∈ (documents (left ⟨0, filled⟩)).toFinset,
        (rule.slide filled doc none (within doc left)).length := by
  rw [allMatches, dif_pos filled, List.length_flatMap]
  exact (List.sum_toFinset _ (List.nodup_dedup _)).symm

/-- In order there is at most one match for each span of the first child. -/
theorem length_allMatches_le_first (inOrder : rule.arrangement = .inOrder)
    (filled : 0 < size) :
    (rule.allMatches left).length ≤ (left ⟨0, filled⟩).length := by
  rw [length_allMatches_eq filled]
  apply Nat.le_trans (Finset.sum_le_sum fun doc _ =>
    length_slide_le (fun left => (left ⟨0, filled⟩).length) ?_)
  · exact Visits.sum_length_inside_le _ _
  · intro left lined found
    have shorter := (suffix_of_lineUp? found ⟨0, filled⟩).length_le
    obtain ⟨rest, isLeft⟩ := List.head?_eq_some_iff.mp
      (lined.head?_left ⟨0, filled⟩)
    simp only [pivot, inOrder, pass_self, List.length_tail]
    rw [isLeft, List.length_cons] at shorter ⊢
    omega

/-- In any order there are no more matches than spans in all. -/
theorem length_allMatches_le_extent :
    (rule.allMatches left).length ≤ extent left := by
  by_cases filled : 0 < size
  · rw [length_allMatches_eq filled]
    apply Nat.le_trans (Finset.sum_le_sum fun doc _ =>
      length_slide_le extent fun left lined found => extent_pass_lt found _)
    unfold extent
    rw [Finset.sum_comm]
    exact Finset.sum_le_sum fun child _ => Visits.sum_length_inside_le _ _
  · rw [allMatches, dif_neg filled]
    exact Nat.zero_le _

end Nearness

namespace Visits

theorem length_file_le (added : Visit) (visits : Visits) :
    (file added visits).length ≤ visits.length + 1 := by
  induction visits with
  | nil => exact Nat.le_refl _
  | cons first rest ih =>
      unfold file
      split
      · exact Nat.le_refl _
      · split
        · simpa using ih
        · exact Nat.le_succ _

theorem length_merge_le (first second : Visits) :
    (merge first second).length ≤ first.length + second.length := by
  unfold merge
  induction second generalizing first with
  | nil => exact Nat.le_refl _
  | cons added rest ih =>
      have filed := length_file_le added first
      have merged := ih (file added first)
      rw [List.foldl_cons, List.length_cons]
      omega

/-- A merge has no more visits than the lists that it merges. -/
theorem length_mergeAll_le (lists : List Visits) :
    (mergeAll lists).length ≤ (lists.map List.length).sum := by
  induction lists with
  | nil => exact Nat.le_refl _
  | cons first rest ih =>
      have merged := length_merge_le first (mergeAll rest)
      rw [mergeAll, List.map_cons, List.sum_cons]
      omega

end Visits

/-- A term yields no more spans than it has occurrences. -/
theorem Occurrence.length_visits_le (occurrences : List Occurrence) :
    (visits occurrences).length ≤ (collate occurrences).length := by
  have shorter := (map_span_visits_sublist occurrences).length_le
  rw [List.length_map, List.length_map] at shorter
  exact shorter

/-! ## Queries -/

namespace Query

mutual

/-- A bound on the number of spans: in order it is that of the first child. -/
def bound : Query → Nat
  | .nothing => 0
  | .listed listing => listing.size
  | .term occurrences => (Occurrence.collate occurrences).length
  | .scripted _ _ occurrences => (Occurrence.collate occurrences).length
  | .probe _ listing _ => listing.size
  | .proximity .inOrder _ _ children => (bounds children).headD 0
  | .proximity .anyOrder _ _ children => (bounds children).sum
  | .union children => (bounds children).sum
  | .without _ included _ => included.bound
  | .region _ _ _ child => child.bound
  | .metered _ child => child.bound

/-- The bounds of several queries. -/
def bounds : List Query → List Nat
  | [] => []
  | first :: rest => first.bound :: bounds rest

end

mutual

/-- The number of spans that all leaves hold. -/
def leafTotal : Query → Nat
  | .nothing => 0
  | .listed listing => listing.size
  | .term occurrences => (Occurrence.collate occurrences).length
  | .scripted _ _ occurrences => (Occurrence.collate occurrences).length
  | .probe _ listing _ => listing.size
  | .proximity _ _ _ children => sumLeafTotals children
  | .union children => sumLeafTotals children
  | .without _ included excluded => included.leafTotal + excluded.leafTotal
  | .region _ _ _ child => child.leafTotal
  | .metered _ child => child.leafTotal

/-- The number of spans that all leaves of several queries hold. -/
def sumLeafTotals : List Query → Nat
  | [] => 0
  | first :: rest => first.leafTotal + sumLeafTotals rest

end

mutual

/-- What a query announces when it is opened. -/
def estimate : Query → Nat
  | .nothing => 0
  | .listed listing => listing.size
  | .term occurrences => (Occurrence.collate occurrences).length
  | .scripted _ script occurrences =>
      match script.cost? with
      | some announced => announced.toNat
      | none => (Occurrence.collate occurrences).length
  | .probe _ listing _ => listing.size
  | .proximity .inOrder _ _ children => Estimate.least (estimates children)
  | .proximity .anyOrder _ _ children => Estimate.total (estimates children)
  | .union children => Estimate.total (estimates children)
  | .without _ included _ => included.estimate
  | .region _ _ _ child => child.estimate
  | .metered _ child => child.estimate

/-- What several queries announce. -/
def estimates : List Query → List Nat
  | [] => []
  | first :: rest => first.estimate :: estimates rest

end

theorem bounds_eq_map (children : List Query) :
    bounds children = children.map bound := by
  induction children with
  | nil => rfl
  | cons first rest ih => rw [bounds, ih, List.map_cons]

theorem estimates_eq_map (children : List Query) :
    estimates children = children.map estimate := by
  induction children with
  | nil => rfl
  | cons first rest ih => rw [estimates, ih, List.map_cons]

/-- Opened children announce what their descriptions say, if each does. -/
theorem map_estimate_pmap_openAt {levels : Nat} {children : List Query}
    (fits : ∀ child ∈ children, child.height ≤ levels)
    (announces : ∀ child, (member : child ∈ children) →
      Cursor.estimate (openAt levels child (fits child member)) =
        child.estimate) :
    (children.pmap (openAt levels) fits).map Cursor.estimate =
      estimates children := by
  rw [List.map_pmap, estimates_eq_map]
  induction children with
  | nil => rfl
  | cons first rest ih =>
      rw [List.pmap_cons, List.map_cons, announces first List.mem_cons_self,
        ih (fun child member => fits child (List.mem_cons_of_mem _ member))
          fun child member => announces child (List.mem_cons_of_mem _ member)]

/-- An opened query announces what its description says, at any level. -/
theorem estimate_openAt (levels : Nat) (query : Query)
    (fits : query.height ≤ levels) :
    Cursor.estimate (openAt levels query fits) = query.estimate := by
  induction levels generalizing query with
  | zero => exact absurd query.height_pos (Nat.not_lt.mpr fits)
  | succ levels ih =>
      cases query with
      | nothing => rfl
      | listed listing => rfl
      | term occurrences => rfl
      | scripted name script occurrences => rfl
      | probe name listing fault? => rfl
      | proximity arrangement slop collects children =>
          have below := fun child (member : child ∈ children) =>
            Nat.le_trans (height_le_greatestHeight member)
              (Nat.le_of_succ_le_succ fits)
          have announced := map_estimate_pmap_openAt below
            fun child member => ih child (below child member)
          cases arrangement with
          | inOrder => exact congrArg Estimate.least announced
          | anyOrder => exact congrArg Estimate.total announced
      | union children =>
          have below := fun child (member : child ∈ children) =>
            Nat.le_trans (height_le_greatestHeight member)
              (Nat.le_of_succ_le_succ fits)
          have announced := map_estimate_pmap_openAt below
            fun child member => ih child (below child member)
          exact congrArg Estimate.total announced
      | without clash included excluded => exact ih included _
      | region low high anchor child => exact ih child _
      | metered name child => exact ih child _

mutual

/-- A query yields no more spans than its bound. -/
theorem length_visits_le_bound : (query : Query) →
    query.visits.length ≤ query.bound
  | .nothing => Nat.le_refl _
  | .listed listing => by
      simp [visits, bound, Listing.visits, Listing.visitsFrom, Listing.size]
  | .term occurrences => Occurrence.length_visits_le occurrences
  | .scripted _ _ occurrences => Occurrence.length_visits_le occurrences
  | .probe _ listing _ => by
      simp [visits, bound, Listing.visits, Listing.visitsFrom, Listing.size]
  | .proximity .inOrder slop collects children => by
      rw [visits, bound]
      cases children with
      | nil => exact Nat.le_refl 0
      | cons first rest =>
          have filled : 0 < (allVisits (first :: rest)).length :=
            Nat.succ_pos _
          exact Nat.le_trans (Nearness.length_allMatches_le_first rfl filled)
            (length_visits_le_bound first)
  | .proximity .anyOrder slop collects children => by
      rw [visits, bound]
      apply Nat.le_trans Nearness.length_allMatches_le_extent
      unfold Nearness.extent
      simp only [List.get_eq_getElem, Fin.sum_univ_fun_getElem]
      exact length_allVisits_le_bounds children
  | .union children => by
      rw [visits, bound]
      exact Nat.le_trans (Visits.length_mergeAll_le _)
        (length_allVisits_le_bounds children)
  | .without _ included _ => by
      rw [visits, bound]
      exact Nat.le_trans (List.length_filter_le _ _)
        (length_visits_le_bound included)
  | .region _ _ _ child => by
      rw [visits, bound]
      exact Nat.le_trans (List.length_filter_le _ _)
        (length_visits_le_bound child)
  | .metered _ child => by
      rw [visits, bound]
      exact length_visits_le_bound child

theorem length_allVisits_le_bounds : (children : List Query) →
    ((allVisits children).map List.length).sum ≤ (bounds children).sum
  | [] => Nat.le_refl _
  | first :: rest => by
      rw [allVisits, bounds, List.map_cons, List.sum_cons, List.sum_cons]
      exact Nat.add_le_add (length_visits_le_bound first)
        (length_allVisits_le_bounds rest)

end

mutual

/-- The bound of a query is part of what its leaves hold. -/
theorem bound_le_leafTotal : (query : Query) → query.bound ≤ query.leafTotal
  | .nothing => Nat.le_refl _
  | .listed _ => Nat.le_refl _
  | .term _ => Nat.le_refl _
  | .scripted _ _ _ => Nat.le_refl _
  | .probe _ _ _ => Nat.le_refl _
  | .proximity .inOrder _ _ [] => Nat.le_refl _
  | .proximity .inOrder _ _ (first :: _) =>
      Nat.le_trans (bound_le_leafTotal first) (Nat.le_add_right _ _)
  | .proximity .anyOrder _ _ children => by
      rw [bound, leafTotal]
      exact sum_bounds_le_sumLeafTotals children
  | .union children => by
      rw [bound, leafTotal]
      exact sum_bounds_le_sumLeafTotals children
  | .without _ included _ => by
      rw [bound, leafTotal]
      exact Nat.le_trans (bound_le_leafTotal included) (Nat.le_add_right _ _)
  | .region _ _ _ child => by
      rw [bound, leafTotal]
      exact bound_le_leafTotal child
  | .metered _ child => by
      rw [bound, leafTotal]
      exact bound_le_leafTotal child

theorem sum_bounds_le_sumLeafTotals : (children : List Query) →
    (bounds children).sum ≤ sumLeafTotals children
  | [] => Nat.le_refl _
  | first :: rest => by
      rw [bounds, sumLeafTotals, List.sum_cons]
      exact Nat.add_le_add (bound_le_leafTotal first)
        (sum_bounds_le_sumLeafTotals rest)

end

/--
In order the first child announces no more than the others, and no script
announces a cost of its own.
-/
inductive LedByCheapest : Query → Prop
  | nothing : LedByCheapest .nothing
  | listed (listing : Listing) : LedByCheapest (.listed listing)
  | term (occurrences : List Occurrence) : LedByCheapest (.term occurrences)
  | scripted (name : String) {script : Script} (occurrences : List Occurrence)
      (announcesNothing : script.cost? = none) :
      LedByCheapest (.scripted name script occurrences)
  | probe (name : String) (listing : Listing) (fault? : Option ProbeFault) :
      LedByCheapest (.probe name listing fault?)
  | inOrder (slop : Nat) (collects : Bool) {first : Query}
      {rest : List Query} (ofFirst : LedByCheapest first)
      (leads : ∀ child ∈ rest, first.estimate ≤ child.estimate) :
      LedByCheapest (.proximity .inOrder slop collects (first :: rest))
  | noneInOrder (slop : Nat) (collects : Bool) :
      LedByCheapest (.proximity .inOrder slop collects [])
  | anyOrder (slop : Nat) (collects : Bool) {children : List Query}
      (below : ∀ child ∈ children, LedByCheapest child) :
      LedByCheapest (.proximity .anyOrder slop collects children)
  | union {children : List Query}
      (below : ∀ child ∈ children, LedByCheapest child) :
      LedByCheapest (.union children)
  | without (clash : Clash) {included : Query} (excluded : Query)
      (ofIncluded : LedByCheapest included) :
      LedByCheapest (.without clash included excluded)
  | region (low high : Position) (anchor : Anchor) {child : Query}
      (below : LedByCheapest child) :
      LedByCheapest (.region low high anchor child)
  | metered (name : String) {child : Query} (below : LedByCheapest child) :
      LedByCheapest (.metered name child)

/-- What is announced together bounds what is bounded together. -/
theorem sum_bounds_le_total {children : List Query}
    (each : ∀ child ∈ children, child.bound ≤ Estimate.ceiling →
      child.bound ≤ child.estimate)
    (small : (bounds children).sum ≤ Estimate.ceiling) :
    (bounds children).sum ≤ Estimate.total (estimates children) := by
  apply Estimate.sum_le_total _ small
  rw [bounds_eq_map] at small ⊢
  rw [estimates_eq_map, List.forall₂_map_left_iff, List.forall₂_map_right_iff,
    List.forall₂_same]
  intro child member
  apply each child member
  exact Nat.le_trans (List.le_sum_of_mem (List.mem_map_of_mem member)) small

/-- Where the first child is the cheapest, the estimate is a bound. -/
theorem LedByCheapest.bound_le_estimate {query : Query}
    (led : query.LedByCheapest) (small : query.bound ≤ Estimate.ceiling) :
    query.bound ≤ query.estimate := by
  induction led with
  | nothing => exact Nat.le_refl _
  | listed listing => exact Nat.le_refl _
  | term occurrences => exact Nat.le_refl _
  | scripted name occurrences announcesNothing =>
      rw [bound, estimate, announcesNothing]
  | probe name listing fault? => exact Nat.le_refl _
  | inOrder slop collects ofFirst leads ih =>
      rw [bound, bounds, List.headD_cons] at small ⊢
      rw [estimate, estimates, Estimate.least_cons_of_le]
      · exact ih small
      · rw [estimates_eq_map, List.forall_mem_map]
        exact leads
  | noneInOrder slop collects => exact Nat.le_refl _
  | anyOrder slop collects below ih =>
      rw [bound] at small ⊢
      rw [estimate]
      exact sum_bounds_le_total ih small
  | union below ih =>
      rw [bound] at small ⊢
      rw [estimate]
      exact sum_bounds_le_total ih small
  | without clash excluded ofIncluded ih =>
      rw [bound] at small ⊢
      rw [estimate]
      exact ih small
  | region low high anchor below ih =>
      rw [bound] at small ⊢
      rw [estimate]
      exact ih small
  | metered name below ih =>
      rw [bound] at small ⊢
      rw [estimate]
      exact ih small

/--
Without faults a query yields no more spans than its bound, which is part of
what its leaves hold.  If its nodes in order are led by their cheapest child,
it yields no more spans than it announces.
-/
theorem length_drained_le (query : Query) (faultFree : query.FaultFree)
    (small : query.leafTotal < 2 ^ 64) :
    ∃ spans, Walk.drain query.openTree = .ok spans ∧
      spans.length ≤ query.bound ∧ query.bound ≤ query.leafTotal ∧
      (query.LedByCheapest →
        spans.length ≤ Cursor.estimate query.openTree) := by
  have atMost := length_visits_le_bound query
  have part := bound_le_leafTotal query
  refine ⟨_, drain_openTree faultFree, ?_, part, fun led => ?_⟩
  · rw [List.length_map]
    exact atMost
  · rw [List.length_map, openTree, estimate_openAt]
    apply Nat.le_trans atMost
    apply led.bound_le_estimate
    rw [Estimate.ceiling, UInt64.size]
    omega

/-- A phrase that starts with its rarer term, or another term. -/
def rareFirst : Query :=
  .union [
    .proximity .inOrder 3 false [
      .term [⟨1, 5, none⟩], .term [⟨1, 7, none⟩, ⟨1, 9, none⟩]],
    .term [⟨2, 0, none⟩]]

theorem faultFree_rareFirst : rareFirst.FaultFree := by
  apply FaultFree.union
  apply forall_mem_pair
  · apply FaultFree.proximity
    exact forall_mem_pair (.term _) (.term _)
  · exact .term _

theorem ledByCheapest_rareFirst : rareFirst.LedByCheapest := by
  apply LedByCheapest.union
  apply forall_mem_pair
  · exact .inOrder _ _ (.term _) (List.forall_mem_singleton.mpr (by decide))
  · exact .term _

/-- The phrase and the term yield the two spans that are announced. -/
theorem length_drained_rareFirst_le :
    rareFirst.FaultFree ∧ rareFirst.leafTotal < 2 ^ 64 ∧
      rareFirst.LedByCheapest ∧
      Walk.drain rareFirst.openTree =
        .ok [⟨1, 5, 8, by decide⟩, .ofToken 2 0] ∧
      [(⟨1, 5, 8, by decide⟩ : Span), .ofToken 2 0].length ≤
        Cursor.estimate rareFirst.openTree := by
  have small : rareFirst.leafTotal < 2 ^ 64 := by decide
  have drained : Walk.drain rareFirst.openTree =
      .ok [⟨1, 5, 8, by decide⟩, .ofToken 2 0] := by
    cbv
  obtain ⟨spans, isDrained, _, _, announced⟩ :=
    length_drained_le rareFirst faultFree_rareFirst small
  rw [drained, Except.ok.injEq] at isDrained
  subst isDrained
  exact ⟨faultFree_rareFirst, small, ledByCheapest_rareFirst, drained,
    announced ledByCheapest_rareFirst⟩

/-- A phrase that starts with its more frequent term. -/
def frequentFirst : Query :=
  .proximity .inOrder 10 false [
    .term [⟨1, 0, none⟩, ⟨1, 2, none⟩], .term [⟨1, 5, none⟩]]

/-- Both tokens of the first term are matched, but one match is announced. -/
theorem frequentFirst_exceeds_estimate :
    frequentFirst.FaultFree ∧ frequentFirst.leafTotal < 2 ^ 64 ∧
      ∃ spans, Walk.drain frequentFirst.openTree = .ok spans ∧
        Cursor.estimate frequentFirst.openTree < spans.length := by
  have announced : Cursor.estimate frequentFirst.openTree = 1 := by cbv
  refine ⟨?_, by decide, [⟨1, 0, 6, by decide⟩, ⟨1, 2, 6, by decide⟩],
    by cbv, ?_⟩
  · apply FaultFree.proximity
    exact forall_mem_pair (.term _) (.term _)
  · rw [announced]
    decide

end Query

end PositionalSearch
