import PositionalSearch.Cursor

/-!
# Exclusions

A node yields the spans of one child that clash with no span of another.  Both
children go forward once: the excluded child is moved only to the document of
the span under test, and inside it past the spans that stop too early to clash
with this span or with a later one.
-/

namespace PositionalSearch

/-- When an included span and an excluded span clash. -/
inductive Clash
  /-- They are in one document. -/
  | inDocument
  /--
  They are in one document and overlap, once the included span is widened by
  `before` positions at its start and `behind` positions at its stop.
  -/
  | overlap (before behind : Position)
deriving DecidableEq, Repr

namespace Clash

/-- Overlap without widening. -/
def plain : Clash := .overlap 0 0

/-- Where a widened span starts; no span starts before zero. -/
def widenedStart (before : Position) (span : Span) : Nat :=
  span.start.toNat - before.toNat

/-- Where a widened span stops; no span stops after the last position. -/
def widenedStop (behind : Position) (span : Span) : Nat :=
  min (span.stop.toNat + behind.toNat) (UInt32.size - 1)

end Clash

/-- How far the excluded child was moved. -/
inductive Barrier
  | unread
  | on (span : Span)
  /-- It has no more spans. -/
  | lifted
deriving DecidableEq

namespace Barrier

/-- The barrier after a move that answered a span or nothing. -/
def after : Option Span → Barrier
  | some span => .on span
  | none => .lifted

end Barrier

/-- A node that leaves out what clashes with another child. -/
structure Without (σ : Type) where
  included : σ
  excluded : σ
  clash : Clash
  barrier : Barrier
  standing : Standing

namespace Without

variable {σ α : Type}

/-- A node before its first span. -/
def ofCursors (clash : Clash) (included excluded : σ) : Without σ where
  included := included
  excluded := excluded
  clash := clash
  barrier := .unread
  standing := .unstarted

/-- Move the included child. -/
def including (step : Attempt Failure σ α) : Attempt Failure (Without σ) α :=
  Attempt.within included
    (fun node cursor => { node with included := cursor }) step

/-- Move the excluded child. -/
def excluding (step : Attempt Failure σ α) : Attempt Failure (Without σ) α :=
  Attempt.within excluded
    (fun node cursor => { node with excluded := cursor }) step

/-- Stand on a span, or past the last one. -/
def settle (span? : Option Span) : Attempt Failure (Without σ) (Option Span) := do
  Attempt.update fun node => { node with standing := .after span? }
  pure span?

/-- Note where the excluded child stands. -/
def noteBarrier (span? : Option Span) : Attempt Failure (Without σ) Unit :=
  Attempt.update fun node => { node with barrier := .after span? }

variable [Cursor σ]

/-- Move the excluded child to a document or beyond. -/
def seekBarrier (doc : DocId) :
    Attempt Failure (Without σ) (Option Span) := do
  let span? ← excluding (Cursor.seek doc)
  noteBarrier span?
  pure span?

/-- The excluded span in a document, the excluded child moved there if behind. -/
def barrierIn (doc : DocId) : Attempt Failure (Without σ) (Option Span) := do
  let span? ←
    match (← Attempt.look).barrier with
    | .lifted => pure none
    | .unread => seekBarrier doc
    | .on span => if span.doc < doc then seekBarrier doc else pure (some span)
  pure (span?.filter fun span => span.doc = doc)

/-- Move the excluded child past the spans that stop at `edge` or before. -/
def passBefore (doc : DocId) (edge : Nat) (span : Span) :
    Attempt Failure (Without σ) (Option Span) := do
  if edge < span.stop.toNat then pure (some span)
  else
    match ← excluding (Cursor.nextBeyond span) with
    | none =>
        noteBarrier none
        pure none
    | some ⟨later, beyond⟩ =>
        have := Span.room_lt_room beyond
        noteBarrier (some later)
        if later.doc = doc then passBefore doc edge later else pure none
termination_by span.room

/-- Whether an included span clashes with an excluded one. -/
def clashes (span : Span) : Attempt Failure (Without σ) Bool := do
  match (← Attempt.look).clash with
  | .inDocument => do
      let found ← barrierIn span.doc
      pure found.isSome
  | .overlap before behind => do
      let first ← barrierIn span.doc
      let found ←
        match first with
        | none => pure none
        | some nearest =>
            passBefore span.doc (Clash.widenedStart before span) nearest
      pure (found.any fun nearest =>
        nearest.start.toNat < Clash.widenedStop behind span)

/-- The next included span that is worth a test after one that clashes. -/
def nextCandidate (span : Span) :
    Attempt Failure (Without σ)
      (Option { later : Span // span < later }) := do
  match (← Attempt.look).clash with
  | .inDocument => including (Cursor.nextDocument span)
  | .overlap _ _ => including (Cursor.nextBeyond span)

/-- Stand on the first span, from the given one on, that does not clash. -/
def settleFrom (span : Span) :
    Attempt Failure (Without σ) (Option Span) := do
  if ← clashes span then
    match ← nextCandidate span with
    | none => settle none
    | some ⟨later, beyond⟩ =>
        have := Span.room_lt_room beyond
        settleFrom later
  else settle (some span)
termination_by span.room

/-- Stand on the first span that does not clash, if there is a span. -/
def keep : Option Span → Attempt Failure (Without σ) (Option Span)
  | none => settle none
  | some span => settleFrom span

/-- Move to the next span. -/
def next : Attempt Failure (Without σ) (Option Span) := do
  match ← Attempt.ofExcept (← Attempt.look).standing.planNext with
  | false => pure none
  | true => keep (← including Cursor.next)

instance : Cursor (Without σ) where
  next := next
  seek target := do
    match ← Attempt.ofExcept ((← Attempt.look).standing.planSeek target) with
    | .finished => pure none
    | .stepOn => next
    | .forward => keep (← including (Cursor.seek target))
  standing := standing
  payloads node := do
    node.standing.requireSpan
    Cursor.payloads node.included
  estimate node := Cursor.estimate node.included
  close node :=
    if node.standing = .closed then node
    else
      { node with
        standing := .closed
        included := Cursor.close node.included
        excluded := Cursor.close node.excluded }

end Without

end PositionalSearch
