import PositionalSearch.Places
import PositionalSearch.Span

/-!
# Queues of heads

A binary heap of the spans on which the children of a union stand, with the
least entry at the root.  Entries are ordered by span and then by child, so
that of several children on one span the first comes out first.
-/

namespace PositionalSearch

/-- A child and the span it stands on. -/
structure Head (ι : Type) where
  span : Span
  child : ι
deriving DecidableEq

namespace Head

variable {ι : Type} [LT ι] [DecidableLT ι]

/-- By span, then by child. -/
def Precedes (left right : Head ι) : Prop :=
  left.span < right.span ∨ left.span = right.span ∧ left.child < right.child

instance : LT (Head ι) := ⟨Precedes⟩

instance (left right : Head ι) : Decidable (left < right) :=
  inferInstanceAs (Decidable (left.span < right.span ∨
    left.span = right.span ∧ left.child < right.child))

end Head

/-- Heads in heap order, the least one at the root. -/
structure HeadQueue (ι : Type) where
  heads : Array (Head ι)

namespace HeadQueue

variable {ι : Type}

/-- The queue without heads. -/
def empty : HeadQueue ι := ⟨#[]⟩

/-- The number of heads. -/
def size (queue : HeadQueue ι) : Nat := queue.heads.size

/-- A queue without heads. -/
def isEmpty (queue : HeadQueue ι) : Bool := queue.heads.isEmpty

/-- The least head. -/
def least? (queue : HeadQueue ι) : Option (Head ι) := queue.heads[0]?

variable [LT ι] [DecidableLT ι] {size : Nat}

/-- Move a head up while it precedes its parent. -/
def siftUp (heads : Vector (Head ι) size) (place : Fin size) :
    Vector (Head ι) size :=
  if top : place.val = 0 then heads
  else
    let parent : Fin size := ⟨(place.val - 1) / 2, by omega⟩
    if heads[place] < heads[parent] then
      siftUp (heads.swap place parent place.isLt parent.isLt) parent
    else heads
termination_by place.val

/-- The place of the lesser child, if there is a child. -/
def lesserChild? (heads : Vector (Head ι) size) (place : Fin size) :
    Option { child : Fin size // place.val < child.val } :=
  if left : 2 * place.val + 1 < size then
    if right : 2 * place.val + 2 < size then
      if heads[2 * place.val + 2] < heads[2 * place.val + 1] then
        some ⟨⟨2 * place.val + 2, right⟩, by dsimp only; omega⟩
      else some ⟨⟨2 * place.val + 1, left⟩, by dsimp only; omega⟩
    else some ⟨⟨2 * place.val + 1, left⟩, by dsimp only; omega⟩
  else none

/-- Move a head down while its lesser child precedes it. -/
def siftDown (heads : Vector (Head ι) size) (place : Fin size) :
    Vector (Head ι) size :=
  match lesserChild? heads place with
  | none => heads
  | some ⟨child, below⟩ =>
      if heads[child] < heads[place] then
        have : size - child.val < size - place.val := by omega
        siftDown (heads.swap place child place.isLt child.isLt) child
      else heads
termination_by size - place.val

/-- Add a head. -/
def push (queue : HeadQueue ι) (head : Head ι) : HeadQueue ι :=
  ⟨(siftUp ⟨queue.heads.push head, rfl⟩
    ⟨queue.heads.size, by simp⟩).toArray⟩

/-- Put a head in the place of the least one. -/
def replaceLeast (queue : HeadQueue ι) (filled : 0 < queue.heads.size)
    (head : Head ι) : HeadQueue ι :=
  ⟨(siftDown ⟨queue.heads.set 0 head, by simp⟩ ⟨0, filled⟩).toArray⟩

/-- Put a head in the place of the least one, if there is one. -/
def replaceLeast? (queue : HeadQueue ι) (head : Head ι) :
    Option (HeadQueue ι) :=
  if filled : 0 < queue.heads.size then some (queue.replaceLeast filled head)
  else none

/-- The queue without its least head; the last head fills the gap. -/
def dropLeast (queue : HeadQueue ι) : HeadQueue ι :=
  if filled : 0 < queue.heads.size then
    let last := queue.heads[queue.heads.size - 1]
    let rest : HeadQueue ι := ⟨queue.heads.pop⟩
    if left : 0 < rest.heads.size then rest.replaceLeast left last else rest
  else queue

/-- The least head and the queue without it. -/
def pop? (queue : HeadQueue ι) : Option (Head ι × HeadQueue ι) :=
  queue.least?.map fun head => (head, queue.dropLeast)

theorem size_replaceLeast (queue : HeadQueue ι)
    (filled : 0 < queue.heads.size) (head : Head ι) :
    (queue.replaceLeast filled head).size = queue.size := by
  simp [replaceLeast, HeadQueue.size]

theorem size_dropLeast (queue : HeadQueue ι) :
    queue.dropLeast.size = queue.size - 1 := by
  unfold dropLeast
  split
  · dsimp only
    split
    · rw [size_replaceLeast]
      simp [HeadQueue.size]
    · simp [HeadQueue.size]
  · simp only [HeadQueue.size]
    omega

/-- All heads, least first. -/
def drain (queue : HeadQueue ι) : List (Head ι) :=
  match popped : queue.pop? with
  | none => []
  | some (head, rest) =>
      have : rest.size < queue.size := by
        simp only [pop?, least?, Option.map_eq_some_iff, Prod.mk.injEq]
          at popped
        obtain ⟨_, present, _, rfl⟩ := popped
        obtain ⟨filled, _⟩ := Array.getElem?_eq_some_iff.mp present
        rw [size_dropLeast]
        exact Nat.sub_lt filled Nat.one_pos
      head :: drain rest
termination_by queue.size

end HeadQueue

end PositionalSearch
