import PositionalSearch.Attempt
import PositionalSearch.Standing

/-!
# Cursors

A cursor goes forward over spans in their order.  Every node of a query tree
is one, whatever it does with its children, so trees nest freely.  The derived
accessors read everything else off the standing and the payloads.
-/

namespace PositionalSearch

/-- A state that can be moved forward over spans. -/
class Cursor (σ : Type) where
  /-- Move to the next span. -/
  next : Attempt Failure σ (Option Span)
  /-- Move to the first later span whose document is at least the target. -/
  seek (target : DocId) : Attempt Failure σ (Option Span)
  /-- Where the cursor stands. -/
  standing (cursor : σ) : Standing
  /-- The payloads of the current span. -/
  payloads (cursor : σ) : Except Failure (List Payload)
  /-- An upper bound on the spans the cursor yields, in any standing. -/
  estimate (cursor : σ) : Nat
  /-- Release everything held, children included. -/
  close (cursor : σ) : σ

namespace Cursor

variable {σ : Type} [Cursor σ]

/-- Seek, and say whether the document asked for was reached. -/
def land (target : DocId) : Attempt Failure σ (Option Landing) :=
  (Option.map (Landing.of target)) <$> seek target

/-- The first move of a cursor: to its first span, or to a document. -/
def enter (target : Option DocId) : Attempt Failure σ (Option Span) :=
  match target with
  | some doc => seek doc
  | none => next

/-- Refuse a span that does not come after a given one. -/
def demandBeyond (span : Span) :
    Option Span → Attempt Failure σ (Option { later : Span // span < later })
  | none => pure none
  | some later =>
      if beyond : span < later then pure (some ⟨later, beyond⟩)
      else Attempt.fail (.breach .backwardMove)

/-- Move to the next span, which must come after the given one. -/
def nextBeyond (span : Span) :
    Attempt Failure σ (Option { later : Span // span < later }) := do
  demandBeyond span (← next)

/-- Seek a document; the span there must come after the given one. -/
def seekBeyond (span : Span) (target : DocId) :
    Attempt Failure σ (Option { later : Span // span < later }) := do
  demandBeyond span (← seek target)

/-- Seek the document after that of the given span, if there is one. -/
def nextDocument (span : Span) :
    Attempt Failure σ (Option { later : Span // span < later }) :=
  match span.doc.after? with
  | some target => seekBeyond span target
  | none => pure none

/-- The current span. -/
def current (cursor : σ) : Except Failure Span := (standing cursor).span

/-- The current document. -/
def doc (cursor : σ) : Except Failure DocId := (standing cursor).doc

/-- The start of the current span. -/
def start (cursor : σ) : Except Failure Position :=
  (current cursor).map Span.start

/-- The stop of the current span. -/
def stop (cursor : σ) : Except Failure Position :=
  (current cursor).map Span.stop

/-- Whether the current span carries a payload. -/
def hasPayload (cursor : σ) : Except Failure Bool :=
  (payloads cursor).map fun stored => !stored.isEmpty

/-- Whether the last span was passed. -/
def atEnd (cursor : σ) : Bool := standing cursor = .exhausted

end Cursor

/-- There are no cursors of the empty type. -/
instance : Cursor Empty where
  next cursor := nomatch cursor
  seek _ cursor := nomatch cursor
  standing cursor := nomatch cursor
  payloads cursor := nomatch cursor
  estimate cursor := nomatch cursor
  close cursor := nomatch cursor

end PositionalSearch
