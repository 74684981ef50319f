import PositionalSearch.Estimate
import PositionalSearch.Proximity.Lineup

/-!
# Alignments

An alignment starts with children of which some may stand on a span already.
Once each of them does, they are a lineup; once one of them has no more spans,
the alignment is over and only closes its children.
-/

namespace PositionalSearch

/-- Children on the way to their first spans. -/
structure Gathering (σ : Type) (size : Nat) where
  /-- The order in which children are placed, and aligned later. -/
  order : List (Fin size)
  cursors : Vector σ size
  /-- The first spans of the children that answered. -/
  found : Vector (Option Span) size

namespace Gathering

variable {σ : Type} {size : Nat}

/-- The lineup of the children, once each has its first span. -/
def lineup? (gathering : Gathering σ size) : Option (Lineup σ size) :=
  if placed : ∀ child : Fin size, gathering.found[child].isSome then
    some {
      order := gathering.order
      cursors := gathering.cursors
      heads := Vector.ofFn fun child =>
        gathering.found[child].get (placed child) }
  else none

variable [Cursor σ]

/-- Move one child to its first span, or to its first span from `target`. -/
def enter (target : Option DocId) (child : Fin size) :
    Attempt Failure (Gathering σ size) (Option Span) := fun gathering =>
  match Cursor.enter target gathering.cursors[child] with
  | (.ok (some span), cursor) =>
      (.ok (some span),
        { gathering with
          cursors := gathering.cursors.set child cursor child.isLt
          found := gathering.found.set child (some span) child.isLt })
  | (outcome, cursor) =>
      (outcome,
        { gathering with cursors := gathering.cursors.set child cursor child.isLt })

/--
Place the given children, leaving out those that were placed before.  The
answer is false when a child has no span.
-/
def placeAll (target : Option DocId) :
    List (Fin size) → Attempt Failure (Gathering σ size) Bool
  | [] => pure true
  | child :: rest => do
      match (← Attempt.look).found[child] with
      | some _ => placeAll target rest
      | none =>
          match ← enter target child with
          | some _ => placeAll target rest
          | none => pure false

end Gathering

/-- The children of a proximity node. -/
inductive Alignment (σ : Type) (size : Nat)
  /-- Not every child has answered its first span. -/
  | starting (gathering : Gathering σ size)
  /-- Every child stands on a span. -/
  | running (lineup : Lineup σ size)
  /-- A child has no more spans. -/
  | ended (cursors : Vector σ size)

namespace Alignment

variable {σ : Type} {size : Nat}

/-- The children in the order of the query. -/
def cursors : Alignment σ size → Vector σ size
  | .starting gathering => gathering.cursors
  | .running lineup => lineup.cursors
  | .ended cursors => cursors

/-- A lineup without an answer is over. -/
def ofLineup {α : Type} :
    Except Failure (Option α) × Lineup σ size →
      Except Failure (Option α) × Alignment σ size
  | (.ok none, lineup) => (.ok none, .ended lineup.cursors)
  | (outcome, lineup) => (outcome, .running lineup)

/-- Work on the lineup; the alignment is over when there is no answer. -/
def onLineup {α : Type}
    (work : Attempt Failure (Lineup σ size) (Option α)) :
    Attempt Failure (Alignment σ size) (Option α)
  | .running lineup => ofLineup (work lineup)
  | .ended cursors => (.ok none, .ended cursors)
  | .starting gathering =>
      (.error (.breach .unplacedChild), .starting gathering)

variable [Cursor σ]

/-- Children before their first spans. -/
def ofCursors (cursors : Vector σ size) : Alignment σ size :=
  .starting {
    order := Estimate.cheapestFirst
      (fun child : Fin size => Cursor.estimate cursors[child])
      (List.finRange size)
    cursors := cursors
    found := Vector.replicate size none }

/-- Place the children, from `target` on if given, and align them. -/
def start (target : Option DocId) :
    Attempt Failure (Alignment σ size) (Option DocId)
  | .starting gathering =>
      match Gathering.placeAll target gathering.order gathering with
      | (.error failure, reached) => (.error failure, .starting reached)
      | (.ok false, reached) => (.ok none, .ended reached.cursors)
      | (.ok true, reached) =>
          match reached.lineup? with
          | some lineup => ofLineup (Lineup.align lineup)
          | none => (.error (.breach .unplacedChild), .starting reached)
  | alignment => onLineup Lineup.align alignment

/-- Close every child. -/
def close (alignment : Alignment σ size) : Alignment σ size :=
  .ended (alignment.cursors.map Cursor.close)

end Alignment

end PositionalSearch
