import PositionalSearch.Proximity.Alignment
import PositionalSearch.Proximity.Arrangement

/-!
# Proximity nodes

A proximity node yields the matches of its children within a slop.  A match in
order runs from the start of the first child's span to the stop of the last
child's span, a match in any order covers the spans of all children.  Only
matches that come after the match before are answered.
-/

namespace PositionalSearch

/-- A node that brings its children close together. -/
structure Proximity (σ : Type) (size : Nat) where
  arrangement : Arrangement
  /-- The slack that a match may have. -/
  slop : Nat
  /-- Whether payloads are collected. -/
  collects : Bool
  alignment : Alignment σ size
  /-- The child that moves on after the last match. -/
  pivot? : Option (Fin size)
  /-- The payloads collected for the last match. -/
  payloads : List Payload
  standing : Standing
  estimate : Nat

namespace Proximity

variable {σ α : Type} {size : Nat}

/-- The children in the order of the query. -/
def children (node : Proximity σ size) : List σ :=
  node.alignment.cursors.toList

/-- Work on the alignment. -/
def aligning (work : Attempt Failure (Alignment σ size) α) :
    Attempt Failure (Proximity σ size) α :=
  Attempt.within alignment
    (fun node alignment => { node with alignment := alignment }) work

/-- There are no more matches. -/
def finish : Attempt Failure (Proximity σ size) (Option Span) := do
  Attempt.update fun node => { node with standing := .exhausted }
  pure none

variable [Cursor σ]

/-- A node before its first match. -/
def ofCursors (arrangement : Arrangement) (slop : Nat) (collects : Bool)
    (cursors : Vector σ size) : Proximity σ size where
  arrangement := arrangement
  slop := slop
  collects := collects
  alignment := .ofCursors cursors
  pivot? := none
  payloads := []
  standing := .unstarted
  estimate :=
    match arrangement with
    | .inOrder => Estimate.least (cursors.toList.map Cursor.estimate)
    | .anyOrder => Estimate.total (cursors.toList.map Cursor.estimate)

/-- Append the payloads of each child, up to the first that refuses. -/
def collectFrom : List σ → Attempt Failure (List Payload) Unit
  | [] => pure ()
  | cursor :: rest => do
      let stored ← Attempt.ofExcept (Cursor.payloads cursor)
      Attempt.update (· ++ stored)
      collectFrom rest

/-- Replace the payloads by those of the children, if they are collected. -/
def collect : Attempt Failure (Proximity σ size) Unit := do
  Attempt.update fun node => { node with payloads := [] }
  let node ← Attempt.look
  if node.collects then
    Attempt.within payloads
      (fun node payloads => { node with payloads := payloads })
      (collectFrom node.children)

/-- Search on from a document. -/
def searchFrom (doc : DocId) :
    Attempt Failure (Proximity σ size) (Option Span) := do
  let node ← Attempt.look
  match ← aligning (Alignment.onLineup
      (Lineup.search node.arrangement node.slop node.standing.span? doc)) with
  | none => finish
  | some found =>
      Attempt.update fun node => { node with pivot? := some found.pivot }
      collect
      Attempt.update fun node => { node with standing := .on found.span }
      pure (some found.span)

/-- Search on from a document, or end where there is none. -/
def settle : Option DocId → Attempt Failure (Proximity σ size) (Option Span)
  | some doc => searchFrom doc
  | none => finish

/-- The document to search first for the match after the last one. -/
def resume : Attempt Failure (Proximity σ size) (Option DocId) := do
  let node ← Attempt.look
  match node.alignment with
  | .starting _ => aligning (Alignment.start none)
  | _ =>
      let doc ← Attempt.ofExcept node.standing.doc
      let pivot ← Attempt.ofOption (.breach .unplacedChild) node.pivot?
      aligning (Alignment.onLineup (Lineup.resume pivot doc))

/-- The document to search first for a match from `target` on. -/
def resumeAt (target : DocId) :
    Attempt Failure (Proximity σ size) (Option DocId) := do
  match (← Attempt.look).alignment with
  | .starting _ => aligning (Alignment.start (some target))
  | _ => aligning (Alignment.onLineup (Lineup.seek target))

/-- Move to the next match. -/
def next : Attempt Failure (Proximity σ size) (Option Span) := do
  match ← Attempt.ofExcept (← Attempt.look).standing.planNext with
  | false => pure none
  | true => settle (← resume)

/-- Close the children, unless that was done. -/
def close (node : Proximity σ size) : Proximity σ size :=
  if node.standing = .closed then node
  else
    { node with
      standing := .closed
      payloads := []
      alignment := node.alignment.close }

instance : Cursor (Proximity σ size) where
  next := next
  seek target := do
    match ← Attempt.ofExcept ((← Attempt.look).standing.planSeek target) with
    | .finished => pure none
    | .stepOn => next
    | .forward => settle (← resumeAt target)
  standing := standing
  payloads node := do
    node.standing.requireSpan
    pure node.payloads
  estimate := estimate
  close := close

end Proximity

end PositionalSearch
