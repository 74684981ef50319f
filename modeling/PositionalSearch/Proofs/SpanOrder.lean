import Mathlib.Algebra.Ring.Nat
import Mathlib.Order.Lattice
import PositionalSearch.Listing

/-!
# The linear order of spans

Spans are linearly ordered, so all that is known of linear orders holds of
them.  The order refines the order of documents, which is linear as well.
-/

namespace PositionalSearch

/-- The greater of two documents is one of them, and no bound is below it. -/
instance DocId.lawfulOrderMax : Std.LawfulOrderMax DocId where
  max_eq_or left right := by
    rw [show max left right = if left ≤ right then right else left from rfl]
    split
    · exact .inr rfl
    · exact .inl rfl
  max_le_iff left right bound := by
    rw [show max left right = if left ≤ right then right else left from rfl]
    split <;> grind

namespace Span

/-- No span lies between two that neither precedes the other. -/
instance : LinearOrder Span where
  le left right := ¬ right < left
  lt := (· < ·)
  le_refl := lt_irrefl
  le_trans first second third := by
    simp only [lt_iff_rank_lt]
    omega
  lt_iff_le_not_ge left right := by
    simp only [lt_iff_rank_lt]
    omega
  le_antisymm left right := by
    simp only [lt_iff_rank_lt, ← rank_inj]
    omega
  le_total left right := by
    simp only [lt_iff_rank_lt]
    omega
  toDecidableLE left right := inferInstanceAs (Decidable (¬ right < left))
  toDecidableLT left right := inferInstance
  toDecidableEq := inferInstance
  compare_eq_compareOfLessAndEq left right := by
    simp only [compare, compareOfLessAndEq]

/-- A span in an earlier document precedes. -/
theorem lt_of_doc_lt {left right : Span} (earlier : left.doc < right.doc) :
    left < right := .inl earlier

theorem doc_le_of_le {left right : Span} (notAfter : left ≤ right) :
    left.doc ≤ right.doc := by
  rcases lt_or_eq_of_le notAfter with before | rfl
  · exact doc_le_of_lt before
  · exact UInt64.le_refl _

/-- Inside a document spans start one after the other. -/
theorem start_le_of_lt {left right : Span} (before : left < right)
    (same : left.doc = right.doc) : left.start ≤ right.start := by
  rcases before with earlier | ⟨_, starts | ⟨starts, _⟩⟩
  · rw [same] at earlier
    exact absurd earlier (UInt64.lt_irrefl _)
  · exact UInt32.le_of_lt starts
  · exact UInt32.le_of_eq starts

/-- A token's span precedes that of a later token. -/
theorem ofToken_lt_ofToken {doc : DocId} {first second : Position}
    (before : first < second) : ofToken doc first < ofToken doc second := by
  refine .inr ⟨by simp, .inl ?_⟩
  simpa using before

/-- The span of given bounds has these bounds. -/
theorem ofBounds?_eq_some {doc : DocId} {start stop : Position}
    {span : Span} (bounded : ofBounds? doc start stop = some span) :
    span.doc = doc ∧ span.start = start ∧ span.stop = stop := by
  unfold ofBounds? at bounded
  split at bounded
  · cases bounded
    exact ⟨rfl, rfl, rfl⟩
  · cases bounded

end Span

end PositionalSearch
