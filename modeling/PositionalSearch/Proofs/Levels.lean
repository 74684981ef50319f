import PositionalSearch.Proofs.Moves
import PositionalSearch.Query

/-!
# Levels move as what they hold

A level of a tree only carries a leaf or a node, and a child of an opened
query is an opened child query.
-/

namespace PositionalSearch

open Cursor (Carries)

namespace Level

variable {σ : Type} [Cursor σ] {size : Nat}

theorem carries_nothing : Carries (.nothing : _ → Level σ) :=
  ⟨fun _ move => by cases move <;> rfl, fun _ => rfl, fun _ => rfl,
    fun _ => rfl⟩

theorem carries_listed : Carries (.listed : _ → Level σ) :=
  ⟨fun _ move => by cases move <;> rfl, fun _ => rfl, fun _ => rfl,
    fun _ => rfl⟩

theorem carries_term : Carries (.term : _ → Level σ) :=
  ⟨fun _ move => by cases move <;> rfl, fun _ => rfl, fun _ => rfl,
    fun _ => rfl⟩

theorem carries_scripted (name : String) :
    Carries (.scripted name : _ → Level σ) :=
  ⟨fun _ move => by cases move <;> rfl, fun _ => rfl, fun _ => rfl,
    fun _ => rfl⟩

theorem carries_probe : Carries (.probe : _ → Level σ) :=
  ⟨fun _ move => by cases move <;> rfl, fun _ => rfl, fun _ => rfl,
    fun _ => rfl⟩

theorem carries_proximity :
    Carries (.proximity : Proximity σ size → Level σ) :=
  ⟨fun _ move => by cases move <;> rfl, fun _ => rfl, fun _ => rfl,
    fun _ => rfl⟩

theorem carries_union : Carries (.union : Union σ size → Level σ) :=
  ⟨fun _ move => by cases move <;> rfl, fun _ => rfl, fun _ => rfl,
    fun _ => rfl⟩

theorem carries_without : Carries (.without : _ → Level σ) :=
  ⟨fun _ move => by cases move <;> rfl, fun _ => rfl, fun _ => rfl,
    fun _ => rfl⟩

theorem carries_region : Carries (.region : _ → Level σ) :=
  ⟨fun _ move => by cases move <;> rfl, fun _ => rfl, fun _ => rfl,
    fun _ => rfl⟩

theorem carries_metered : Carries (.metered : _ → Level σ) :=
  ⟨fun _ move => by cases move <;> rfl, fun _ => rfl, fun _ => rfl,
    fun _ => rfl⟩

end Level

namespace Query

/-- The children of an opened query are opened children. -/
theorem getElem_pmap_openAt {levels : Nat} {children : List Query}
    (fits : ∀ child ∈ children, child.height ≤ levels)
    (place : Fin (children.pmap (openAt levels) fits).toArray.size) :
    (⟨(children.pmap (openAt levels) fits).toArray, rfl⟩ :
      Vector (Tree levels) _)[place] =
        openAt levels (children.get (place.cast (by simp)))
          (fits _ (List.get_mem _ _)) := by
  simp

/-- The opened children of a node. -/
def openEach (children : List Query) :
    Vector (Tree (greatestHeight children)) children.length :=
  ⟨(children.pmap (openAt _) fun _ => height_le_greatestHeight).toArray,
    by simp⟩

theorem getElem_openEach (children : List Query)
    (place : Fin children.length) :
    (openEach children)[place] = openAt _ (children.get place)
      (height_le_greatestHeight (List.get_mem _ _)) := by
  simp [openEach]

/-- An opened proximity node is a node over its opened children. -/
theorem openTree_proximity (arrangement : Arrangement) (slop : Nat)
    (collects : Bool) (children : List Query) :
    (proximity arrangement slop collects children).openTree =
      (Level.proximity (.ofCursors arrangement slop collects
        (openEach children)) : Level (Tree (greatestHeight children))) := by
  have resized : ∀ {cursors : Array (Tree (greatestHeight children))}
      {size : Nat} (isSize : cursors.size = size),
      (Level.proximity (.ofCursors arrangement slop collects
        ⟨cursors, rfl⟩) : Level (Tree (greatestHeight children))) =
        .proximity (.ofCursors arrangement slop collects
          ⟨cursors, isSize⟩) := by
    rintro cursors _ rfl
    rfl
  exact resized _

/-- An opened union is a node over its opened children. -/
theorem openTree_union (children : List Query) :
    (union children).openTree =
      (Level.union (.ofCursors (openEach children)) :
        Level (Tree (greatestHeight children))) := by
  have resized : ∀ {cursors : Array (Tree (greatestHeight children))}
      {size : Nat} (isSize : cursors.size = size),
      (Level.union (.ofCursors ⟨cursors, rfl⟩) :
        Level (Tree (greatestHeight children))) =
        .union (.ofCursors ⟨cursors, isSize⟩) := by
    rintro cursors _ rfl
    rfl
  exact resized _

end Query

end PositionalSearch
