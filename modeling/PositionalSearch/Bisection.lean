/-!
# Bisection

Where the entries of an array that come before a target end.  The entries
that come before it must stand first; the search then halves the range left
until one place remains.
-/

namespace PositionalSearch

namespace Bisection

variable {α : Type}

/-- The first place from `low` up to `high` whose entry is not before. -/
def boundary (entries : Array α) (before : α → Bool) (low high : Nat)
    (bounded : high ≤ entries.size) : Nat :=
  if remaining : low < high then
    let middle := low + (high - low) / 2
    have inside : middle < entries.size := by omega
    if before entries[middle] then
      boundary entries before (middle + 1) high bounded
    else boundary entries before low middle (by omega)
  else low
termination_by high - low

theorem le_boundary (entries : Array α) (before : α → Bool) (low high : Nat)
    (bounded : high ≤ entries.size) :
    low ≤ boundary entries before low high bounded := by
  fun_induction boundary entries before low high bounded with
  | case1 => omega
  | case2 => omega
  | case3 => omega

theorem boundary_le (entries : Array α) (before : α → Bool) (low high : Nat)
    (bounded : high ≤ entries.size) (ordered : low ≤ high) :
    boundary entries before low high bounded ≤ high := by
  fun_induction boundary entries before low high bounded with
  | case1 => omega
  | case2 => omega
  | case3 => omega

/-- An entry before the target stands before all entries that are not. -/
def Split (entries : Array α) (before : α → Bool) : Prop :=
  ∀ (first second : Nat) (ordered : first ≤ second)
    (inside : second < entries.size), before entries[second] →
      before entries[first]

/-- All entries from `low` up to the boundary are before the target. -/
theorem before_of_lt_boundary {entries : Array α} {before : α → Bool}
    (split : Split entries before) {low high : Nat}
    (bounded : high ≤ entries.size) {place : Nat} (fromLow : low ≤ place)
    (below : place < boundary entries before low high bounded)
    (inside : place < entries.size) : before entries[place] := by
  fun_induction boundary entries before low high bounded with
  | case1 low high bounded remaining middle middleInside holds ih =>
      by_cases beyond : middle + 1 ≤ place
      · exact ih beyond below
      · exact split place middle (by omega) middleInside holds
  | case2 low high bounded remaining middle middleInside fails ih =>
      exact ih fromLow below
  | case3 => omega

/-- No entry from the boundary up to `high` is before the target. -/
theorem not_before_of_boundary_le {entries : Array α} {before : α → Bool}
    (split : Split entries before) {low high : Nat}
    (bounded : high ≤ entries.size) {place : Nat}
    (reached : boundary entries before low high bounded ≤ place)
    (below : place < high) (inside : place < entries.size) :
    before entries[place] = false := by
  fun_induction boundary entries before low high bounded with
  | case1 low high bounded remaining middle middleInside holds ih =>
      exact ih reached below
  | case2 low high bounded remaining middle middleInside fails ih =>
      by_cases earlier : place < middle
      · exact ih reached earlier
      · by_cases holds : before entries[place]
        · exact absurd
            (split middle place (by omega) inside holds) fails
        · simpa using holds
  | case3 => omega

end Bisection

end PositionalSearch
