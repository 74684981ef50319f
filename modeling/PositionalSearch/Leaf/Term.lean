import PositionalSearch.Cursor
import PositionalSearch.Postings.Basic

/-!
# The cursor over a term

It yields one span per position of a term.  After a move to a document, and
until the first position there is read, the cursor stands at the document; a
failed read of that position leaves it there, and it is read again later.
-/

namespace PositionalSearch

/-- A cursor over the postings of one term. -/
structure Term (π : Type) where
  postings : π
  /-- The number of positions announced for the current document. -/
  frequency : Nat
  /-- The number of positions taken from the current document. -/
  taken : Nat
  /-- The payload at the current position. -/
  payload? : Option Payload
  standing : Standing

namespace Term

variable {π α : Type}

/-- A cursor before the first occurrence of a term. -/
def ofPostings (postings : π) : Term π := ⟨postings, 0, 0, none, .unstarted⟩

/-- Read from the postings; a fault there is an unreadable term here. -/
def reading (call : Attempt ReadFault π α) : Attempt Failure (Term π) α :=
  (Attempt.within postings
    (fun (term : Term π) postings => { term with postings := postings })
    call).mapFailure .unreadable

variable [Postings π]

/-- There is no further document. -/
def finish : Attempt Failure (Term π) (Option Span) := do
  Attempt.update fun term => { term with standing := .exhausted }
  pure none

/-- Stand at a document, none of its positions taken. -/
def standAt (doc : DocId) (term : Term π) : Term π :=
  { term with
    frequency := Postings.frequency term.postings
    taken := 0
    standing := .atDocument doc }

/-- Take the next position of the current document. -/
def takePosition (doc : DocId) : Attempt Failure (Term π) (Option Span) := do
  let position ← reading Postings.nextPosition
  let span := Span.ofToken doc position
  Attempt.update fun term =>
    { term with
      taken := term.taken + 1
      payload? := Postings.payload? term.postings
      standing := .on span }
  pure (some span)

/--
Take the next position of `doc`, or of the first later document that has
positions.
-/
def advance (doc : DocId) : Attempt Failure (Term π) (Option Span) := do
  let term ← Attempt.look
  if term.taken < term.frequency then takePosition doc
  else
    match ← reading Postings.nextDocument with
    | none => finish
    | some later =>
        if forward : doc < later then
          have := DocId.room_lt_room forward
          Attempt.update (standAt later)
          advance later
        else Attempt.fail (.breach .backwardMove)
termination_by doc.room

/-- Go on in the document that a move between documents reached. -/
def arrive : Option DocId → Attempt Failure (Term π) (Option Span)
  | none => finish
  | some doc => do
      Attempt.update (standAt doc)
      advance doc

/-- Move to the next position. -/
def next : Attempt Failure (Term π) (Option Span) := do
  let term ← Attempt.look
  match term.standing with
  | .closed => Attempt.fail .closed
  | .exhausted => pure none
  | .unstarted => do arrive (← reading Postings.nextDocument)
  | .on span => advance span.doc
  | .atDocument doc => advance doc

/-- Move to a document that lies ahead, or stay in the one just reached. -/
def forward (target : DocId) : Attempt Failure (Term π) (Option Span) := do
  let term ← Attempt.look
  if term.standing = .atDocument target then advance target
  else arrive (← reading (Postings.seekDocument target))

instance : Cursor (Term π) where
  next := next
  seek target := do
    match ← Attempt.ofExcept ((← Attempt.look).standing.planSeek target) with
    | .finished => pure none
    | .stepOn => next
    | .forward => forward target
  standing := standing
  payloads term := do
    term.standing.requireSpan
    pure term.payload?.toList
  estimate term := Postings.cost term.postings
  close term :=
    if term.standing = .closed then term
    else
      { term with
        standing := .closed
        payload? := none
        postings := Postings.close term.postings }

end Term

end PositionalSearch
