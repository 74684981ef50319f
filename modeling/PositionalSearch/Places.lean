/-!
# Places in a vector

The cursors of a node's children and the spans on which they stand are kept in
vectors of one size.  A child is named by its place, which is inside every one
of them; to read an item there takes no further proof.
-/

namespace PositionalSearch

variable {α : Type} {size : Nat}

/-- A place of a vector is inside it. -/
instance instGetElemPlace :
    GetElem (Vector α size) (Fin size) α (fun _ _ => True) where
  getElem items place _ := getElem items place.val place.isLt

/-- The item in a place is the item with that number. -/
@[simp, grind =] theorem getElem_place (items : Vector α size) (place : Fin size) :
    items[place] = getElem items place.val place.isLt := rfl

/-- The last place of a vector with items. -/
def lastPlace (filled : 0 < size) : Fin size :=
  ⟨size - 1, Nat.sub_lt filled Nat.one_pos⟩

/-- The sum of a measure over some items. -/
def sumOf (measure : α → Nat) : List α → Nat
  | [] => 0
  | first :: rest => measure first + sumOf measure rest

/-- An item of a lesser measure in the place of another one lowers the sum. -/
theorem sumOf_set_lt (measure : α → Nat) {replacement : α} {items : List α}
    {place : Nat} (inside : place < items.length)
    (smaller : measure replacement < measure items[place]) :
    sumOf measure (items.set place replacement) < sumOf measure items := by
  induction items generalizing place with
  | nil => exact absurd inside (Nat.not_lt_zero place)
  | cons first rest ih =>
      cases place with
      | zero =>
          simp only [List.set_cons_zero, sumOf]
          exact Nat.add_lt_add_right smaller _
      | succ place =>
          have inner := ih (Nat.lt_of_succ_lt_succ inside) smaller
          simp only [List.set_cons_succ, sumOf]
          exact Nat.add_lt_add_left inner _

end PositionalSearch
