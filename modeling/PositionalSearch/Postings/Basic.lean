import PositionalSearch.Attempt
import PositionalSearch.Failure

/-!
# Reading postings

The postings of one term are the documents that contain it and its positions
in each of them.  This class is the only place where cursors touch storage.
-/

namespace PositionalSearch

/-- A state from which the postings of one term can be read. -/
class Postings (π : Type) where
  /-- Move to the next document. -/
  nextDocument : Attempt ReadFault π (Option DocId)
  /-- Move on to the first document that is at least the target. -/
  seekDocument (target : DocId) : Attempt ReadFault π (Option DocId)
  /-- Take the next position of the current document. -/
  nextPosition : Attempt ReadFault π Position
  /-- How many positions the current document has. -/
  frequency (postings : π) : Nat
  /-- The payload at the position taken last. -/
  payload? (postings : π) : Option Payload
  /-- An upper bound on the positions to read. -/
  cost (postings : π) : Nat
  /-- Release the storage. -/
  close (postings : π) : π

end PositionalSearch
