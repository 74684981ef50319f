import PositionalSearch.Cursor

/-!
# Estimates

A node fixes its own estimate, and the order in which it aligns its children,
when it is built.  An estimate bounds the number of spans from above.
-/

namespace PositionalSearch

namespace Estimate

/-- Estimates beyond this one are not told apart. -/
def ceiling : Nat := UInt64.size - 1

/-- The least estimate; zero when there is none. -/
def least (estimates : List Nat) : Nat := estimates.min?.getD 0

/-- The sum of the estimates, up to the ceiling. -/
def total (estimates : List Nat) : Nat :=
  estimates.foldl (fun sum estimate => min (sum + estimate) ceiling) 0

variable {ι : Type}

/-- Put an index behind those that cost no more. -/
def rankIn (cost : ι → Nat) (added : ι) : List ι → List ι
  | [] => [added]
  | first :: rest =>
      if cost added < cost first then added :: first :: rest
      else first :: rankIn cost added rest

/-- The indices, cheapest first; equally cheap ones keep their order. -/
def cheapestFirst (cost : ι → Nat) (indices : List ι) : List ι :=
  indices.foldl (fun ranked index => rankIn cost index ranked) []

theorem rankIn_perm (cost : ι → Nat) (added : ι) (ranked : List ι) :
    (rankIn cost added ranked).Perm (added :: ranked) := by
  induction ranked with
  | nil => exact .refl _
  | cons first rest ih =>
      unfold rankIn
      split
      · exact .refl _
      · exact (ih.cons first).trans (.swap added first rest)

/-- Every index is ranked once. -/
theorem cheapestFirst_perm (cost : ι → Nat) (indices : List ι) :
    (cheapestFirst cost indices).Perm indices := by
  suffices general : ∀ ranked : List ι,
      (indices.foldl (fun ranked index => rankIn cost index ranked)
        ranked).Perm (indices ++ ranked) by
    simpa [cheapestFirst] using general []
  induction indices with
  | nil => intro ranked; exact .refl _
  | cons first rest ih =>
      intro ranked
      exact (ih _).trans (((rankIn_perm cost first ranked).append_left
        rest).trans List.perm_middle)

end Estimate

end PositionalSearch
