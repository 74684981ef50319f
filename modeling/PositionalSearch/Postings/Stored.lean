import PositionalSearch.Bisection
import PositionalSearch.Postings.Occurrence
import PositionalSearch.Postings.Basic

/-!
# Postings held in memory

The documents of a term in order, each with its positions in order.  Seeking
a document bisects the documents after the current one.
-/

namespace PositionalSearch

/-- One document of a term. -/
structure PostedDocument where
  doc : DocId
  positions : Array (Position × Option Payload)

namespace PostedDocument

/-- Gather a sorted list of occurrences by document. -/
def gather : List Occurrence → List (DocId × List (Position × Option Payload))
  | [] => []
  | first :: rest =>
      match gather rest with
      | [] => [(first.doc, [(first.position, first.payload?)])]
      | (doc, positions) :: others =>
          if doc = first.doc then
            (doc, (first.position, first.payload?) :: positions) :: others
          else
            (first.doc, [(first.position, first.payload?)]) ::
              (doc, positions) :: others

/-- The documents of a sorted list of occurrences. -/
def ofSorted (occurrences : List Occurrence) : Array PostedDocument :=
  ((gather occurrences).map fun (doc, positions) =>
    ⟨doc, positions.toArray⟩).toArray

end PostedDocument

/-- Postings in memory, and how far they were read. -/
structure StoredPostings where
  documents : Array PostedDocument
  /-- The current document; one past the last once all were passed. -/
  place : Option Nat
  /-- The positions taken from the current document. -/
  taken : Nat
  /-- All positions stored at first. -/
  total : Nat

namespace StoredPostings

/-- The largest frequency that is reported. -/
def frequencyLimit : Nat := UInt32.size - 1

/-- Postings of the given occurrences, in any order. -/
def ofOccurrences (occurrences : List Occurrence) : StoredPostings where
  documents := PostedDocument.ofSorted (Occurrence.collate occurrences)
  place := none
  taken := 0
  total := (Occurrence.collate occurrences).length

/-- The number of documents held. -/
def documentCount (postings : StoredPostings) : Nat := postings.documents.size

/-- The current document. -/
def current? (postings : StoredPostings) : Option PostedDocument :=
  postings.place.bind fun place => postings.documents[place]?

/-- The place after the current document. -/
def nextPlace (postings : StoredPostings) : Nat :=
  match postings.place with
  | none => 0
  | some place => place + 1

/-- Stand at the start of the document at a place, or past the last one. -/
def moveTo (place : Nat) (postings : StoredPostings) : StoredPostings :=
  { postings with
    place := some (min place postings.documents.size)
    taken := 0 }

/-- The first place after the current document that is not before a target. -/
def placeFrom (target : DocId) (postings : StoredPostings) : Nat :=
  Bisection.boundary postings.documents (fun posted => posted.doc < target)
    (min postings.nextPlace postings.documents.size) postings.documents.size
    (Nat.le_refl _)

/-- The number of positions of the current document. -/
def frequency (postings : StoredPostings) : Nat :=
  match postings.current? with
  | none => 0
  | some posted => min posted.positions.size frequencyLimit

/-- The payload at the position taken last. -/
def payload? (postings : StoredPostings) : Option Payload :=
  match postings.taken with
  | 0 => none
  | before + 1 =>
      postings.current?.bind fun posted =>
        posted.positions[before]?.bind Prod.snd

/-- The fault of taking more positions than a document has. -/
def noPositionLeft : ReadFault :=
  ⟨.unexpectedEof, "read past the last position of the document"⟩

/-- Take the next position of the current document. -/
def nextPosition : Attempt ReadFault StoredPostings Position :=
  fun postings =>
    match postings.current?.bind fun posted =>
        posted.positions[postings.taken]? with
    | some (position, _) =>
        (.ok position, { postings with taken := postings.taken + 1 })
    | none => (.error noPositionLeft, postings)

/-- Drop all documents. -/
def close (postings : StoredPostings) : StoredPostings :=
  { postings with documents := #[], place := some 0, taken := 0 }

instance : Postings StoredPostings where
  nextDocument postings :=
    let moved := postings.moveTo postings.nextPlace
    (.ok (moved.current?.map PostedDocument.doc), moved)
  seekDocument target postings :=
    let moved := postings.moveTo (postings.placeFrom target)
    (.ok (moved.current?.map PostedDocument.doc), moved)
  nextPosition := nextPosition
  frequency := frequency
  payload? := payload?
  cost := total
  close := close

end StoredPostings

end PositionalSearch
