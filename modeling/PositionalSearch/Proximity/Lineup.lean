import PositionalSearch.Cursor
import PositionalSearch.Places

/-!
# Lineups

The children of a proximity node, each on a span, its head.  To align them is
to bring all heads into one document: the latest document of any head is the
target, every child behind it seeks it, and a child that lands further on sets
a new target.  When a child has no more spans, there is no alignment.
-/

namespace PositionalSearch

/-- Children that all stand on a span. -/
structure Lineup (σ : Type) (size : Nat) where
  /-- The order in which children are aligned. -/
  order : List (Fin size)
  cursors : Vector σ size
  heads : Vector Span size

namespace Lineup

variable {σ : Type} {size : Nat}

/-- Note where a child's cursor is, its head unchanged. -/
def keep (lineup : Lineup σ size) (child : Fin size) (cursor : σ) :
    Lineup σ size :=
  { lineup with cursors := lineup.cursors.set child cursor child.isLt }

/-- Note a child's cursor and its new head. -/
def place (lineup : Lineup σ size) (child : Fin size) (cursor : σ)
    (head : Span) : Lineup σ size :=
  { lineup with
    cursors := lineup.cursors.set child cursor child.isLt
    heads := lineup.heads.set child head child.isLt }

/-- A bound on the number of moves that the heads can still make. -/
def room (lineup : Lineup σ size) : Nat :=
  sumOf Span.room lineup.heads.toList

/-- A head that moves on uses up room. -/
theorem room_place_lt (lineup : Lineup σ size) (child : Fin size)
    (cursor : σ) {head : Span} (beyond : lineup.heads[child] < head) :
    (lineup.place child cursor head).room < lineup.room := by
  simp only [room, place, Vector.toList_set]
  apply sumOf_set_lt
  · simpa using Span.room_lt_room beyond
  · simp

variable [Cursor σ]

/-- Move one child; its head follows when it answers a span. -/
def move (child : Fin size) (step : Attempt Failure σ (Option Span)) :
    Attempt Failure (Lineup σ size) (Option Span) := fun lineup =>
  match step lineup.cursors[child] with
  | (.ok (some span), cursor) =>
      (.ok (some span), lineup.place child cursor span)
  | (outcome, cursor) => (outcome, lineup.keep child cursor)

/-- Move one child to its next span. -/
def advance (child : Fin size) :
    Attempt Failure (Lineup σ size) (Option Span) :=
  move child Cursor.next

/-- What one round of alignment found. -/
inductive Agreement (target : DocId)
  /-- All heads are in the target document. -/
  | agreed
  /-- A head is in a later document. -/
  | ahead (later : DocId) (beyond : target < later)
  /-- A child has no more spans. -/
  | ended

/-- One round: bring the given children to the target document. -/
def agree (target : DocId) :
    List (Fin size) → Attempt Failure (Lineup σ size) (Agreement target)
  | [] => pure .agreed
  | child :: rest => do
      let head := (← Attempt.look).heads[child]
      if beyond : target < head.doc then pure (.ahead head.doc beyond)
      else if head.doc = target then agree target rest
      else
        match ← move child (Cursor.seek target) with
        | none => pure .ended
        | some landed =>
            if beyond : target < landed.doc then
              pure (.ahead landed.doc beyond)
            else agree target rest

/-- Rounds of alignment, until all children agree or one of them ends. -/
def alignAt (target : DocId) :
    Attempt Failure (Lineup σ size) (Option DocId) := do
  match ← agree target (← Attempt.look).order with
  | .agreed => pure (some target)
  | .ended => pure none
  | .ahead later beyond =>
      have := DocId.room_lt_room beyond
      alignAt later
termination_by target.room

/-- The latest document of any head. -/
def latestDocument? (lineup : Lineup σ size) : Option DocId :=
  (lineup.heads.toList.map Span.doc).max?

/-- Bring all children into one document, at or after all heads. -/
def align : Attempt Failure (Lineup σ size) (Option DocId) := do
  match (← Attempt.look).latestDocument? with
  | none => pure none
  | some target => alignAt target

/--
Bring the given children to the target document or a later one.  Children
already there stay; the answer is false when a child has no more spans.
-/
def seekLagging (target : DocId) :
    List (Fin size) → Attempt Failure (Lineup σ size) Bool
  | [] => pure true
  | child :: rest => do
      if (← Attempt.look).heads[child].doc < target then
        match ← move child (Cursor.seek target) with
        | none => pure false
        | some _ => seekLagging target rest
      else seekLagging target rest

/-- The document to search first when a seek goes forward to `target`. -/
def seek (target : DocId) : Attempt Failure (Lineup σ size) (Option DocId) := do
  match ← seekLagging target (← Attempt.look).order with
  | true => align
  | false => pure none

/--
The document to search first after a match in `doc`: the same one as long as
the child that moves on stays in it.
-/
def resume (pivot : Fin size) (doc : DocId) :
    Attempt Failure (Lineup σ size) (Option DocId) := do
  match ← advance pivot with
  | none => pure none
  | some head => if head.doc = doc then pure (some doc) else align

end Lineup

end PositionalSearch
