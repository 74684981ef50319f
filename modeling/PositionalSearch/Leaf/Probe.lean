import PositionalSearch.Cursor
import PositionalSearch.Listing

/-!
# The probe

A cursor over a listing that looks at one entry after the other when it seeks.
It counts the calls it receives, refused ones included, and can be set to fail
where its listing ends.
-/

namespace PositionalSearch

/-- The failure that a probe is set to report at its end. -/
inductive ProbeFault
  | unreadable
  | timedOut
deriving DecidableEq, Repr

namespace ProbeFault

/-- The failure in the words of a cursor. -/
def failure : ProbeFault → Failure
  | .unreadable => .unreadable ⟨.other, "injected read failure"⟩
  | .timedOut => .timedOut

end ProbeFault

/-- A counting cursor over a listing. -/
structure Probe where
  name : String
  listing : Listing
  /-- The place of the entry that comes next. -/
  offset : Nat
  standing : Standing
  fault? : Option ProbeFault
  nexts : Nat
  seeks : Nat
  closes : Nat

namespace Probe

/-- A probe before the first entry of a listing. -/
def ofListing (name : String) (listing : Listing)
    (fault? : Option ProbeFault) : Probe where
  name := name
  listing := listing
  offset := 0
  standing := .unstarted
  fault? := fault?
  nexts := 0
  seeks := 0
  closes := 0

/-- Stand on the entry that comes next; at the end, fail if set to. -/
def stepOn : Attempt Failure Probe (Option Span) := fun probe =>
  match probe.listing.entry? probe.offset with
  | some entry =>
      (.ok (some entry.span),
        { probe with offset := probe.offset + 1, standing := .on entry.span })
  | none =>
      match probe.fault? with
      | some fault => (.error fault.failure, probe)
      | none => (.ok none, { probe with standing := .exhausted })

/-- Pass the entries of documents before the target, one by one. -/
def passBefore (target : DocId) (probe : Probe) : Probe :=
  { probe with offset := probe.listing.scanFrom probe.offset target }

/-- What is stored beside the entry passed or answered last. -/
def stored (probe : Probe) : Except Failure (List Payload) :=
  match probe.offset with
  | 0 => .error (.breach .noCurrentEntry)
  | place + 1 =>
      .ok ((probe.listing.entry? place).bind Entry.payload?).toList

instance : Cursor Probe where
  next := do
    Attempt.update fun probe => { probe with nexts := probe.nexts + 1 }
    match ← Attempt.ofExcept (← Attempt.look).standing.planNext with
    | true => stepOn
    | false => pure none
  seek target := do
    Attempt.update fun probe => { probe with seeks := probe.seeks + 1 }
    match ← Attempt.ofExcept ((← Attempt.look).standing.planSeek target) with
    | .finished => pure none
    | .stepOn => stepOn
    | .forward =>
        Attempt.update (passBefore target)
        stepOn
  standing := standing
  payloads probe := do
    probe.standing.requireSpan
    probe.stored
  estimate probe := probe.listing.size
  close probe :=
    { probe with closes := probe.closes + 1, standing := .closed }

end Probe

end PositionalSearch
