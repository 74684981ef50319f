import PositionalSearch.Postings.Stored

/-!
# Scripted postings

Postings in memory that count the calls they receive and fail where a script
says so.  A call that fails changes nothing but its count, so that it can be
made again.  The script can also announce other frequencies and another cost.
-/

namespace PositionalSearch

/-- The calls that a script can make fail. -/
inductive PostingsCall
  | nextDocument
  | seekDocument
  | nextPosition
  | close
deriving DecidableEq, Repr

/-- The call to fail, counted from one, and the fault it reports. -/
structure PlannedFault where
  call : PostingsCall
  occasion : Nat
  fault : ReadFault
deriving DecidableEq

/-- What scripted postings do other than plain ones. -/
structure Script where
  faults : List PlannedFault
  /-- Frequencies to announce, by document. -/
  frequencies : List (DocId × UInt32)
  /-- The cost to announce. -/
  cost? : Option UInt64
deriving DecidableEq

/-- How often each call was made. -/
structure CallCounts where
  nextDocument : Nat
  seekDocument : Nat
  nextPosition : Nat
  close : Nat
deriving DecidableEq

namespace CallCounts

/-- No calls. -/
def zero : CallCounts := ⟨0, 0, 0, 0⟩

/-- How often one call was made. -/
def count (counts : CallCounts) : PostingsCall → Nat
  | .nextDocument => counts.nextDocument
  | .seekDocument => counts.seekDocument
  | .nextPosition => counts.nextPosition
  | .close => counts.close

/-- Count one more call. -/
def add (counts : CallCounts) : PostingsCall → CallCounts
  | .nextDocument => { counts with nextDocument := counts.nextDocument + 1 }
  | .seekDocument => { counts with seekDocument := counts.seekDocument + 1 }
  | .nextPosition => { counts with nextPosition := counts.nextPosition + 1 }
  | .close => { counts with close := counts.close + 1 }

end CallCounts

/-- The fault planned for an occasion of a call. -/
def Script.fault? (script : Script) (call : PostingsCall) (occasion : Nat) :
    Option ReadFault :=
  (script.faults.find? fun planned =>
    planned.call == call && planned.occasion == occasion).map
      PlannedFault.fault

/-- Stored postings under a script. -/
structure ScriptedPostings where
  script : Script
  stored : StoredPostings
  calls : CallCounts
  /-- The document that the last successful move answered. -/
  recorded? : Option DocId

namespace ScriptedPostings

/-- Postings of the given occurrences under a script. -/
def ofOccurrences (script : Script) (occurrences : List Occurrence) :
    ScriptedPostings where
  script := script
  stored := .ofOccurrences occurrences
  calls := .zero
  recorded? := none

/-- Count a call, then fail as planned or make it on the stored postings. -/
def perform {α : Type} (call : PostingsCall)
    (plain : Attempt ReadFault StoredPostings α) :
    Attempt ReadFault ScriptedPostings α := fun postings =>
  let counted := { postings with calls := postings.calls.add call }
  match counted.script.fault? call (counted.calls.count call) with
  | some fault => (.error fault, counted)
  | none =>
      match plain counted.stored with
      | (outcome, stored) => (outcome, { counted with stored := stored })

/-- Make a move between documents and record the document it answers. -/
def performMove (call : PostingsCall)
    (plain : Attempt ReadFault StoredPostings (Option DocId)) :
    Attempt ReadFault ScriptedPostings (Option DocId) := do
  let doc? ← perform call plain
  Attempt.update fun postings => { postings with recorded? := doc? }
  pure doc?

/-- The announced frequency of the recorded document, or the stored one. -/
def frequency (postings : ScriptedPostings) : Nat :=
  match postings.recorded?.bind fun doc =>
      postings.script.frequencies.lookup doc with
  | some announced => announced.toNat
  | none => postings.stored.frequency

instance : Postings ScriptedPostings where
  nextDocument := performMove .nextDocument Postings.nextDocument
  seekDocument target :=
    performMove .seekDocument (Postings.seekDocument target)
  nextPosition := perform .nextPosition Postings.nextPosition
  frequency := frequency
  payload? postings := postings.stored.payload?
  cost postings :=
    match postings.script.cost? with
    | some announced => announced.toNat
    | none => postings.stored.total
  close postings :=
    { postings with
      calls := postings.calls.add .close
      stored := postings.stored.close }

end ScriptedPostings

end PositionalSearch
