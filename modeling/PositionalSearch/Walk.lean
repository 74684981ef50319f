import PositionalSearch.Deadline

/-!
# Walks

A walk takes a cursor forward and visits each span with its payloads, until
the cursor ends or fails, a limit is reached, or the time budget is used up.
It says whether spans were left beyond the limit, and in all these cases it
closes the cursor once, after the last visit.  Only a walk whose time budget
goes beyond the last second of the clock is broken off before it begins.
-/

namespace PositionalSearch

/-- A span with its payloads, as a walk met it. -/
structure Visit where
  span : Span
  payloads : List Payload
deriving DecidableEq

namespace Walk

/-- How a walk is made. -/
structure Plan where
  /-- Where to begin; at the first span if not given. -/
  startDoc? : Option DocId
  /-- The greatest number of visits. -/
  limit? : Option Nat
  /-- The time budget in seconds. -/
  budget? : Option Nat
  /-- The number of visits from one reading of the clock to the next. -/
  interval : Nat
  /-- What the clock shows when the walk begins. -/
  now : Second := 0
deriving DecidableEq, Repr

namespace Plan

/-- A walk over everything; the clock would be read every hundred visits. -/
def all : Plan where
  startDoc? := none
  limit? := none
  budget? := none
  interval := 100

/-- The deadline of the walk, if it has a time budget. -/
def deadline? (plan : Plan) : Except Failure (Option Deadline) :=
  match plan.budget? with
  | none => .ok none
  | some seconds => some <$> Deadline.set plan.now seconds plan.interval

/-- The time budget, if there is one, ends while the clock counts. -/
def Timely (plan : Plan) : Prop :=
  ∀ seconds ∈ plan.budget?, plan.now.val + seconds < clockSeconds

theorem deadline?_of_timely {plan : Plan} (timely : plan.Timely) :
    plan.deadline? = .ok (plan.budget?.map fun seconds =>
      .ofBudget seconds plan.interval) := by
  unfold deadline?
  cases budget : plan.budget? with
  | none => rfl
  | some seconds =>
      simp only [Deadline.set, timely seconds budget, ↓reduceIte]
      rfl

theorem deadline?_of_not_timely {plan : Plan} (untimely : ¬ plan.Timely) :
    plan.deadline? = .error (.breach .endlessBudget) := by
  unfold deadline?
  cases budget : plan.budget? with
  | none => exact absurd (by simp [Timely, budget]) untimely
  | some seconds =>
      have beyond : ¬ plan.now.val + seconds < clockSeconds := fun within =>
        untimely fun other isOther => by
          rwa [Option.some.inj (budget.symm.trans isOther)] at within
      simp only [Deadline.set, beyond, ↓reduceIte]
      rfl

/-- Without a time budget there is nothing for the clock to show. -/
theorem timely_of_untimed {plan : Plan} (untimed : plan.budget? = none) :
    plan.Timely := by
  rw [Timely, untimed]
  exact nofun

end Plan

/-- What a finished walk reports. -/
structure Summary where
  visits : Nat
  /-- Whether spans were left when the limit was reached. -/
  truncated : Bool
deriving DecidableEq, Repr

/-- A walk under way. -/
structure Progress (σ : Type) where
  root : σ
  visits : Array Visit
  deadline? : Option Deadline

/-- What a walk comes to: its outcome, its visits and the root it leaves. -/
structure Result (σ : Type) where
  outcome : Except Failure Summary
  visits : List Visit
  root : σ

variable {σ α : Type}

/-- Move the root. -/
def moving (step : Attempt Failure σ α) : Attempt Failure (Progress σ) α :=
  Attempt.within Progress.root
    (fun progress root => { progress with root := root }) step

/-- Check the deadline, if there is one. -/
def checkDeadline : Attempt Failure (Progress σ) Unit := fun progress =>
  match progress.deadline? with
  | none => (.ok (), progress)
  | some deadline =>
      match Deadline.check deadline with
      | (outcome, checked) =>
          (outcome, { progress with deadline? := some checked })

variable [Cursor σ]

/-- Visit the span on which the root stands. -/
def visit (span : Span) : Attempt Failure (Progress σ) Unit := do
  let payloads ← Attempt.ofExcept (Cursor.payloads (← Attempt.look).root)
  Attempt.update fun progress =>
    { progress with visits := progress.visits.push ⟨span, payloads⟩ }

/-- Visit spans from the given one on; the answer is whether some are left. -/
def follow (plan : Plan) (span : Span) :
    Attempt Failure (Progress σ) Bool := do
  let made := (← Attempt.look).visits.size
  if plan.limit?.any fun limit => limit ≤ made then pure true
  else
    visit span
    checkDeadline
    match ← moving (Cursor.nextBeyond span) with
    | none => pure false
    | some ⟨later, beyond⟩ =>
        have := Span.room_lt_room beyond
        follow plan later
termination_by span.room

/-- Begin where the plan says and visit all spans from there on. -/
def begin (plan : Plan) : Attempt Failure (Progress σ) Bool := do
  match ← moving (Cursor.enter plan.startDoc?) with
  | none => pure false
  | some span => follow plan span

/-- What a walk comes to where it ends; its root is closed there. -/
def Result.ofEnd (ended : Except Failure Bool × Progress σ) : Result σ where
  outcome := ended.1.map fun truncated => ⟨ended.2.visits.size, truncated⟩
  visits := ended.2.visits.toList
  root := Cursor.close ended.2.root

/-- Make a walk up to a deadline, if there is one, and close the root. -/
def runUntil (deadline? : Option Deadline) (plan : Plan) (root : σ) :
    Result σ :=
  .ofEnd (begin plan ⟨root, #[], deadline?⟩)

/-- Make a walk, once its deadline is set. -/
def run (plan : Plan) (root : σ) : Result σ :=
  match plan.deadline? with
  | .ok deadline? => runUntil deadline? plan root
  | .error failure => ⟨.error failure, [], root⟩

theorem run_of_timely {plan : Plan} (timely : plan.Timely) (root : σ) :
    run plan root = runUntil (plan.budget?.map fun seconds =>
      .ofBudget seconds plan.interval) plan root := by
  rw [run, plan.deadline?_of_timely timely]

/-- A walk whose time budget has no end visits nothing and closes nothing. -/
theorem run_of_not_timely {plan : Plan} (untimely : ¬ plan.Timely) (root : σ) :
    run plan root = ⟨.error (.breach .endlessBudget), [], root⟩ := by
  rw [run, plan.deadline?_of_not_timely untimely]

/-- The spans that a walk visited, unless it failed. -/
def Result.spans (result : Result σ) : Except Failure (List Span) :=
  result.outcome.map fun _ => result.visits.map Visit.span

/-- All spans of a cursor. -/
def drain (root : σ) : Except Failure (List Span) := (run .all root).spans

end Walk

end PositionalSearch
