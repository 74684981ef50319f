import Mathlib.Data.List.Sort
import PositionalSearch.Proofs.Follow.Documents
import PositionalSearch.Proofs.Near.InOrder
import PositionalSearch.Proofs.Retries.Terms

/-!
# What is lost when the first child passes a span

In order a match is read off one span of the first child.  When the first child
passes a span that was not tried, the match that starts there is lost, and no
other one.
-/

namespace PositionalSearch

variable {size : Nat}

/-- The visit starts after a span, in its document or in a later one. -/
def Visit.StartsAfter (last : Span) (visit : Visit) : Prop :=
  last.doc < visit.doc ∨ last.doc = visit.doc ∧ last.start < visit.span.start

/-- The span starts where the other one does. -/
def Span.StartsWith (span first : Span) : Prop :=
  span.doc = first.doc ∧ span.start = first.start

/-- After a visit that starts with a span, all visits start after the span. -/
theorem Visits.startsAfter_of_mem_tail {visits : Visits} {first span : Span}
    (isFirst : visits.head?.map Visit.span = some first)
    (ordered : visits.Ordered)
    (tokens : ∀ visit ∈ visits, visit.span.IsToken)
    (starts : span.StartsWith first) {visit : Visit}
    (member : visit ∈ visits.tail) : visit.StartsAfter span := by
  obtain ⟨head, isHead, rfl⟩ := Option.map_eq_some_iff.mp isFirst
  obtain ⟨rest, rfl⟩ := List.head?_eq_some_iff.mp isHead
  obtain ⟨sameDoc, sameStart⟩ := starts
  have before : head.span < visit.span := ordered.head_lt member
  rw [Visit.StartsAfter, sameDoc, sameStart]
  rcases UInt64.lt_or_eq_of_le (Span.doc_le_of_lt before) with earlier | same
  · exact .inl earlier
  · refine .inr ⟨same, ?_⟩
    exact ((tokens head List.mem_cons_self).start_lt
      (tokens visit (List.mem_cons_of_mem _ member)) before same).1

namespace Nearness

variable {rule : Nearness} {filled : 0 < size} {doc : DocId}
  {left : Fin size → Visits} {last span : Span}

/-! ## Matches after the last one -/

/-- A match in order starts with a visit of the first child. -/
theorem start_of_fitting? {lined : Lined size}
    (inOrder : rule.arrangement = .inOrder)
    (fits : rule.fitting? filled doc lined = some span) :
    ∃ visit ∈ lined.left ⟨0, filled⟩, span.start = visit.span.start := by
  obtain ⟨visit, rest, isLeft, isHead⟩ := lined.exists_eq_cons ⟨0, filled⟩
  refine ⟨visit, isLeft ▸ List.mem_cons_self, ?_⟩
  simp only [fitting?, inOrder] at fits
  obtain ⟨found, isFound, rest⟩ := Option.bind_eq_some_iff.mp fits
  obtain ⟨_, _, same⟩ := Option.bind_eq_some_iff.mp rest
  rw [isHead]
  split at same
  · cases same
    exact (Span.ofBounds?_eq_some isFound).2.1
  · cases same

/-- All matches in order are new when the first child is past the last one. -/
theorem slide_of_start_lt (inOrder : rule.arrangement = .inOrder)
    (left : Fin size → Visits) (same : last.doc = doc)
    (after : ∀ visit ∈ left ⟨0, filled⟩, last.start < visit.span.start) :
    rule.slide filled doc (some last) left =
      rule.slide filled doc none left := by
  cases found : rule.lineUp? filled left with
  | none => rw [slide_of_none found, slide_of_none found]
  | some lined =>
      have shorter := extent_pass_lt found (rule.pivot filled lined)
      have suffix := suffix_of_lineUp? found ⟨0, filled⟩
      cases fits : rule.fitting? filled doc lined with
      | none =>
          rw [slide_of_miss found (by rw [fits]; rfl),
            slide_of_miss found (by rw [fits]; rfl)]
          apply slide_of_start_lt inOrder _ same
          intro visit member
          apply after
          exact suffix.subset ((passes_pass _ _ _).subset member)
      | some span =>
          obtain ⟨visit, isLeft, starts⟩ := start_of_fitting? inOrder fits
          have new : last < span := by
            refine .inr ⟨same.trans (doc_of_fitting? fits).symm, .inl ?_⟩
            rw [starts]
            exact after visit (suffix.subset isLeft)
          have hits : (some span).filter (isNew (some last)) = some span :=
            Option.filter_eq_some_iff.mpr ⟨rfl, decide_eq_true new⟩
          rw [slide_of_hit found (by rw [fits]; exact hits),
            slide_of_hit found (by rw [fits]; rfl)]
termination_by extent left

/-- While the first child is past the last match all matches are to come. -/
theorem outlook_of_startsAfter (inOrder : rule.arrangement = .inOrder)
    (ordered : ∀ child, (left child).Ordered) (since : From doc left)
    (earlier : last.doc ≤ doc)
    (after : ∀ visit ∈ left ⟨0, filled⟩, visit.StartsAfter last) :
    rule.outlook filled doc (some last) left = rule.allMatches left := by
  rw [outlook, allMatches_eq_append filled ordered since,
    Lineup.seen_of_inOrder inOrder]
  by_cases same : last.doc = doc
  · rw [slide_of_start_lt inOrder _ same]
    intro visit member
    obtain ⟨isLeft, inDoc⟩ := Visits.mem_inside.mp member
    rcases after visit isLeft with later | ⟨_, starts⟩
    · rw [same, ← inDoc] at later
      exact absurd later (UInt64.lt_irrefl _)
    · exact starts
  · rw [slide_of_doc_lt _ (UInt64.lt_of_le_of_ne earlier same)]

/-- The same holds if the first child may have left the document. -/
theorem prospects_of_startsAfter (inOrder : rule.arrangement = .inOrder)
    (ordered : ∀ child, (left child).Ordered) (since : From last.doc left)
    (after : ∀ visit ∈ left ⟨0, filled⟩, visit.StartsAfter last) :
    rule.prospects filled last.doc (some last) ⟨0, filled⟩ left =
      rule.allMatches left := by
  unfold prospects
  split
  · rename_i none
    exact allMatches_after ordered (past_of_inside_eq_nil _ since none) rule
  · exact outlook_of_startsAfter inOrder ordered since (UInt64.le_refl _) after

/-! ## Passing a span -/

/-- In a document, tokens are steady. -/
theorem steady_within_of_isToken (ordered : ∀ child, (left child).Ordered)
    (tokens : ∀ child, ∀ visit ∈ left child, visit.span.IsToken)
    (doc : DocId) (child : Fin size) :
    Steady (spansOf (within doc left) child) := by
  apply List.pairwise_map.mpr
  apply ((ordered child).filter _).imp_of_mem
  intro earlier later isEarlier isLater before
  obtain ⟨inLeft, inDoc⟩ := Visits.mem_inside.mp isEarlier
  obtain ⟨alsoLeft, alsoIn⟩ := Visits.mem_inside.mp isLater
  exact (tokens child earlier inLeft).start_lt (tokens child later alsoLeft)
    before (inDoc.trans alsoIn.symm)

/-- Where the first child is has no say in what is nearest to a span. -/
theorem nearest_update {slop : Nat} {first : Span} (visits : Visits) :
    Nearest slop (spansOf (within doc
        (Function.update left ⟨0, filled⟩ visits))) first span ↔
      Nearest slop (spansOf (within doc left)) first span := by
  unfold Nearest
  rw [within_update,
    leftmost?_update (Lineup.first_not_mem_tail filled) (visits.inside doc)]

/-- A match that does not start with the passed span is still to come. -/
theorem mem_allMatches_pass_iff (inOrder : rule.arrangement = .inOrder)
    (ordered : ∀ child, (left child).Ordered)
    (tokens : ∀ child, ∀ visit ∈ left child, visit.span.IsToken)
    {first : Visit} {rest : Visits} (isLeft : left ⟨0, filled⟩ = first :: rest)
    (span : Span) :
    span ∈ (rule.allMatches left).map Visit.span ↔
      (first.doc = span.doc ∧ Nearest rule.slop
        (spansOf (within span.doc left)) first.span span) ∨
      span ∈ (rule.allMatches (pass ⟨0, filled⟩ left)).map Visit.span := by
  have shorter := passes_pass ⟨0, filled⟩ left
  have orderedOn := fun child => (ordered child).sublist (shorter child)
  have tokensOn := fun child visit member =>
    tokens child visit ((shorter child).subset member)
  rw [mem_allMatches_inOrder inOrder filled
      (steady_within_of_isToken ordered tokens),
    mem_allMatches_inOrder inOrder filled
      (steady_within_of_isToken orderedOn tokensOn)]
  simp only [pass, nearest_update, spansOf, Function.update_self, isLeft,
    List.tail_cons, List.map_cons, List.exists_mem_cons_iff]

/-- Matches may be lost, if they start with a given span. -/
structure Loses (first : Span) (visits kept : Visits) : Prop where
  sublist : (kept.map Visit.span).Sublist (visits.map Visit.span)
  starts : ∀ span ∈ visits.map Visit.span, span ∈ kept.map Visit.span ∨
    span.StartsWith first

/-- The first of some matches is lost. -/
theorem Loses.of_cons {first : Span} {visit : Visit} (kept : Visits)
    (starts : visit.span.StartsWith first) :
    Loses first (visit :: kept) kept := by
  constructor
  · exact List.sublist_cons_self _ _
  · intro span member
    rcases List.mem_cons.mp member with rfl | later
    · exact .inr starts
    · exact .inl later

/-- The first child passes a span, and with it a match that starts there. -/
theorem loses_pass (inOrder : rule.arrangement = .inOrder)
    (ordered : ∀ child, (left child).Ordered)
    (tokens : ∀ child, ∀ visit ∈ left child, visit.span.IsToken)
    {first : Visit} {rest : Visits} (isLeft : left ⟨0, filled⟩ = first :: rest) :
    Loses first.span (rule.allMatches left)
      (rule.allMatches (pass ⟨0, filled⟩ left)) := by
  have either := mem_allMatches_pass_iff inOrder ordered tokens isLeft
  constructor
  · have sorted : ∀ {group : Fin size → Visits},
        (∀ child, (group child).Ordered) →
          ((rule.allMatches group).map Visit.span).Pairwise (· < ·) :=
      fun isOrdered => List.pairwise_map.mpr (ordered_allMatches isOrdered)
    have passed := sorted fun child =>
      (ordered child).sublist (passes_pass ⟨0, filled⟩ left child)
    refine List.sublist_of_subperm_of_pairwise (List.subperm_of_subset
      (passed.imp fun before => ne_of_lt before) ?_) passed (sorted ordered)
    exact fun span member => (either span).mpr (.inr member)
  · intro span member
    rcases (either span).mp member with ⟨inDoc, rest, _, spanning, _⟩ | later
    · exact .inr ⟨inDoc.symm, spanning.start⟩
    · exact .inl later

end Nearness

end PositionalSearch
