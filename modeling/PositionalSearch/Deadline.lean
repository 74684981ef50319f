import PositionalSearch.Cursor

/-!
# Deadlines

To read the clock at every span would cost too much, so a deadline reads it
only once in an interval of checks.  A budget of no time is used up whenever
the clock is read, and any other budget lasts for the whole walk.  The clock
does not count for ever, so there is no deadline after its last second.
-/

namespace PositionalSearch

/-- The number of seconds that the clock counts, in 64 bits with a sign. -/
abbrev clockSeconds : Nat := 9223372036854775808

/-- A second of the clock. -/
abbrev Second := Fin clockSeconds

/-- A time limit that is checked now and then. -/
structure Deadline where
  /-- The number of checks from one reading of the clock to the next. -/
  interval : Nat
  /-- The checks made since the clock was read. -/
  checks : Nat
  /-- Whether the clock shows that the time is used up. -/
  reached : Bool
deriving DecidableEq, Repr

namespace Deadline

/-- A deadline after some seconds; an interval of zero counts as one. -/
def ofBudget (seconds interval : Nat) : Deadline where
  interval := max interval 1
  checks := 0
  reached := seconds = 0

/-- Set a deadline, unless the clock does not count as far. -/
def set (now : Second) (seconds interval : Nat) : Except Failure Deadline :=
  if now.val + seconds < clockSeconds then .ok (ofBudget seconds interval)
  else .error (.breach .endlessBudget)

/-- Count a check; read the clock when the interval is over. -/
def check : Attempt Failure Deadline Unit := fun deadline =>
  if deadline.interval ≤ deadline.checks + 1 then
    let renewed := { deadline with checks := 0 }
    if deadline.reached then (.error .timedOut, renewed) else (.ok (), renewed)
  else (.ok (), { deadline with checks := deadline.checks + 1 })

/-- Start the interval again. -/
def renew (deadline : Deadline) : Deadline := { deadline with checks := 0 }

end Deadline

end PositionalSearch
