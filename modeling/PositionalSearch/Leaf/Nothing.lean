import PositionalSearch.Cursor

/-!
# The cursor without spans

It stands for a term that the index does not hold.
-/

namespace PositionalSearch

/-- A cursor that yields no span. -/
structure Nothing where
  standing : Standing
deriving DecidableEq

namespace Nothing

/-- A cursor that was not moved yet. -/
def fresh : Nothing := ⟨.unstarted⟩

/-- A move ends the cursor, unless its rules forbid the move. -/
def finish : Attempt Failure Nothing (Option Span) := do
  Attempt.update fun _ => ⟨.exhausted⟩
  pure none

instance : Cursor Nothing where
  next := do
    match ← Attempt.ofExcept (← Attempt.look).standing.planNext with
    | true => finish
    | false => pure none
  seek target := do
    match ← Attempt.ofExcept ((← Attempt.look).standing.planSeek target) with
    | .finished => pure none
    | _ => finish
  standing := standing
  payloads cursor := do
    cursor.standing.requireSpan
    pure []
  estimate _ := 0
  close _ := ⟨.closed⟩

end Nothing

end PositionalSearch
