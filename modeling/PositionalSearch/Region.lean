import PositionalSearch.Cursor

/-!
# Regions

A node yields the spans of its child that start, or stop, inside a region of
positions.  Spans of a document come in the order of their starts, so after
one that starts past the region the child goes to the next document.
-/

namespace PositionalSearch

/-- Which bound of a span has to lie in a region. -/
inductive Anchor
  | start
  | stop
deriving DecidableEq, Repr

namespace Anchor

/-- The position of a span that is tested. -/
def position (span : Span) : Anchor → Position
  | .start => span.start
  | .stop => span.stop

end Anchor

/-- A node that keeps to a region of each document. -/
structure Region (σ : Type) where
  child : σ
  /-- The first position of the region. -/
  low : Position
  /-- The last position of the region. -/
  high : Position
  anchor : Anchor
  standing : Standing

namespace Region

variable {σ α : Type}

/-- A node before its first span. -/
def ofCursor (low high : Position) (anchor : Anchor) (child : σ) : Region σ where
  child := child
  low := low
  high := high
  anchor := anchor
  standing := .unstarted

/-- Whether a span lies in the region. -/
def holds (node : Region σ) (span : Span) : Bool :=
  node.low ≤ node.anchor.position span && node.anchor.position span ≤ node.high

/-- Move the child. -/
def moving (step : Attempt Failure σ α) : Attempt Failure (Region σ) α :=
  Attempt.within child (fun node cursor => { node with child := cursor }) step

/-- Stand on a span, or past the last one. -/
def settle (span? : Option Span) : Attempt Failure (Region σ) (Option Span) := do
  Attempt.update fun node => { node with standing := .after span? }
  pure span?

variable [Cursor σ]

/-- Stand on the first span, from the given one on, that the region holds. -/
def settleFrom (span : Span) :
    Attempt Failure (Region σ) (Option Span) := do
  let node ← Attempt.look
  if node.holds span then settle (some span)
  else
    match ← moving
        (if node.high < span.start then Cursor.nextDocument span
        else Cursor.nextBeyond span) with
    | none => settle none
    | some ⟨later, beyond⟩ =>
        have := Span.room_lt_room beyond
        settleFrom later
termination_by span.room

/-- Stand on the first span that the region holds; an empty one holds none. -/
def keep : Option Span → Attempt Failure (Region σ) (Option Span)
  | none => settle none
  | some span => do
      let node ← Attempt.look
      if node.high < node.low then settle none else settleFrom span

/-- Move to the next span. -/
def next : Attempt Failure (Region σ) (Option Span) := do
  match ← Attempt.ofExcept (← Attempt.look).standing.planNext with
  | false => pure none
  | true => keep (← moving Cursor.next)

instance : Cursor (Region σ) where
  next := next
  seek target := do
    match ← Attempt.ofExcept ((← Attempt.look).standing.planSeek target) with
    | .finished => pure none
    | .stepOn => next
    | .forward => keep (← moving (Cursor.seek target))
  standing := standing
  payloads node := do
    node.standing.requireSpan
    Cursor.payloads node.child
  estimate node := Cursor.estimate node.child
  close node :=
    if node.standing = .closed then node
    else
      { node with
        standing := .closed
        child := Cursor.close node.child }

end Region

end PositionalSearch
