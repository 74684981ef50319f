import PositionalSearch.Span

/-!
# Failures

Storage reports read faults; cursors report failures, which carry a read fault
unchanged when storage caused them.  A breach is a failure of another sort: it
says that a caller or a child broke a rule that every well-formed tree keeps.
-/

namespace PositionalSearch

/-- The sort of a fault that storage reports. -/
inductive FaultKind
  | invalidData
  | notFound
  | interrupted
  | timedOut
  | unexpectedEof
  | other
deriving DecidableEq, Repr

/-- A failed read of storage. -/
structure ReadFault where
  kind : FaultKind
  message : String
deriving DecidableEq, Repr

/-- A broken rule of use. -/
inductive Breach
  /-- A span stops before it starts. -/
  | reversedSpan
  /-- A child moved, but not to a later span or document. -/
  | backwardMove
  /-- A child that should stand on a span has none. -/
  | unplacedChild
  /-- The heads of a phrase overlap, so there is no gap between them. -/
  | overlappingHeads
  /-- A leaf on a span has no current entry. -/
  | noCurrentEntry
  /-- A time budget goes beyond the last second of the clock. -/
  | endlessBudget
deriving DecidableEq, Repr

/-- Why a cursor gave no answer. -/
inductive Failure
  /-- The cursor does not stand on a span. -/
  | notPositioned
  /-- A seek asked for a document before the current one. -/
  | behindCurrent (current target : DocId)
  /-- The cursor was closed. -/
  | closed
  /-- Storage could not be read. -/
  | unreadable (cause : ReadFault)
  /-- The time budget is used up. -/
  | timedOut
  /-- A rule of use was broken. -/
  | breach (rule : Breach)
deriving DecidableEq, Repr

namespace Breach

/-- The rule that was broken. -/
def message : Breach → String
  | .reversedSpan => "a span must not stop before it starts"
  | .backwardMove => "a child must move to a later span"
  | .unplacedChild => "a child must stand on a span"
  | .overlappingHeads => "the heads of a phrase must not overlap"
  | .noCurrentEntry => "a leaf on a span must have a current entry"
  | .endlessBudget => "a time budget must end while the clock counts"

end Breach

namespace Failure

/-- The text shown to a user. -/
def message : Failure → String
  | .notPositioned => "iterator is not positioned on a span"
  | .behindCurrent current target =>
      String.join ["cannot skip from document ", toString current.toNat,
        " back to document ", toString target.toNat]
  | .closed => "iterator is closed"
  | .unreadable _ => "failed to read from postings"
  | .timedOut => "reached time limit"
  | .breach rule => rule.message

end Failure

end PositionalSearch
