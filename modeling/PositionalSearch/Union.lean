import PositionalSearch.Estimate
import PositionalSearch.HeadQueue

/-!
# Unions

A union yields the spans of any of its children, each span once.  The heads of
the children wait in a queue, and the least of them is the span of the union.
To move past it is to move every child that stands on it; to seek a document
is to move every child that stands before it.
-/

namespace PositionalSearch

/-- A node that merges its children. -/
structure Union (σ : Type) (size : Nat) where
  children : Vector σ size
  /-- The heads of the children that have one. -/
  queue : HeadQueue (Fin size)
  /-- The children before this place have been entered. -/
  entered : Nat
  standing : Standing
  estimate : Nat

namespace Union

variable {σ : Type} {size : Nat}

/-- Note where a child's cursor is. -/
def keep (node : Union σ size) (child : Fin size) (cursor : σ) :
    Union σ size :=
  { node with children := node.children.set child cursor child.isLt }

/-- Stand on the least head, or past the last span. -/
def settle : Attempt Failure (Union σ size) (Option Span) := fun node =>
  let span? := node.queue.least?.map Head.span
  (.ok span?, { node with standing := .after span? })

variable [Cursor σ]

/-- A node before its first span. -/
def ofCursors (cursors : Vector σ size) : Union σ size where
  children := cursors
  queue := .empty
  entered := 0
  standing := .unstarted
  estimate := Estimate.total (cursors.toList.map Cursor.estimate)

/-- Enter the children that were not entered yet, in their order. -/
def enterRest (target : Option DocId) :
    Attempt Failure (Union σ size) Unit := fun node =>
  if inside : node.entered < size then
    let child : Fin size := ⟨node.entered, inside⟩
    match Cursor.enter target node.children[child] with
    | (.error failure, cursor) => (.error failure, node.keep child cursor)
    | (.ok none, cursor) =>
        enterRest target
          { node.keep child cursor with entered := node.entered + 1 }
    | (.ok (some span), cursor) =>
        enterRest target
          { node.keep child cursor with
            queue := node.queue.push ⟨span, child⟩
            entered := node.entered + 1 }
  else (.ok (), node)
termination_by node => size - node.entered

/--
Move the child of the least head, as long as that head lags behind.  No child
lags any more after its move, so the number of heads bounds the moves.
-/
def moveLagging (lags : Span → Bool)
    (step : Attempt Failure σ (Option Span)) :
    Nat → Attempt Failure (Union σ size) Unit
  | 0 => fun node =>
      if node.queue.least?.any fun head => lags head.span then
        (.error (.breach .backwardMove), node)
      else (.ok (), node)
  | moves + 1 => fun node =>
      if filled : 0 < node.queue.heads.size then
        let head := node.queue.heads[0]
        if lags head.span then
          match step node.children[head.child] with
          | (.error failure, cursor) =>
              (.error failure, node.keep head.child cursor)
          | (.ok none, cursor) =>
              moveLagging lags step moves
                { node.keep head.child cursor with
                  queue := node.queue.dropLeast }
          | (.ok (some span), cursor) =>
              moveLagging lags step moves
                { node.keep head.child cursor with
                  queue := node.queue.replaceLeast filled ⟨span, head.child⟩ }
        else (.ok (), node)
      else (.ok (), node)

/-- Move every child that stands on a span. -/
def movePast (span : Span) : Attempt Failure (Union σ size) Unit := do
  moveLagging (· == span) Cursor.next (← Attempt.look).queue.size

/-- Move every child that stands before a document. -/
def seekLagging (target : DocId) : Attempt Failure (Union σ size) Unit := do
  moveLagging (·.doc < target) (Cursor.seek target) (← Attempt.look).queue.size

/-- Move to the next span. -/
def next : Attempt Failure (Union σ size) (Option Span) := do
  let node ← Attempt.look
  match ← Attempt.ofExcept node.standing.planNext with
  | false => pure none
  | true =>
      if node.entered < size then enterRest none
      else
        match node.standing.span? with
        | some span => movePast span
        | none => pure ()
      settle

/-- Move to a document that lies ahead. -/
def forward (target : DocId) :
    Attempt Failure (Union σ size) (Option Span) := do
  enterRest (some target)
  seekLagging target
  settle

/-- Close the children, unless that was done. -/
def close (node : Union σ size) : Union σ size :=
  if node.standing = .closed then node
  else
    { node with
      standing := .closed
      queue := .empty
      children := node.children.map Cursor.close }

instance : Cursor (Union σ size) where
  next := next
  seek target := do
    match ← Attempt.ofExcept ((← Attempt.look).standing.planSeek target) with
    | .finished => pure none
    | .stepOn => next
    | .forward => forward target
  standing := standing
  payloads node := do
    node.standing.requireSpan
    match node.queue.least? with
    | some head => Cursor.payloads node.children[head.child]
    | none => pure []
  estimate := estimate
  close := close

end Union

end PositionalSearch
