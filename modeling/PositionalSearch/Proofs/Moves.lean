import PositionalSearch.Cursor
import PositionalSearch.Proofs.Meets

/-!
# Moves and reports

A run of a cursor is a list of moves.  Each move is reported: what it was,
what it answered, and where the cursor stood after it.
-/

namespace PositionalSearch

/-- A way to move a cursor. -/
inductive Move
  | next
  | seek (target : DocId)
deriving DecidableEq

/-- What a move answers. -/
inductive Reached
  | span (span? : Option Span)
  | landing (landing? : Option Landing)
deriving DecidableEq

namespace Reached

/-- The span reached, if there was one. -/
def span? : Reached → Option Span
  | .span span? => span?
  | .landing landing? => landing?.map Landing.span

end Reached

namespace Move

/-- What a move answers when it reaches a span, or none. -/
def reach (span? : Option Span) : Move → Reached
  | .next => .span span?
  | .seek target => .landing (span?.map (Landing.of target))

/-- The document from which on a move may land. -/
def target? : Move → Option DocId
  | .next => none
  | .seek target => some target

@[simp] theorem span?_reach (move : Move) (span? : Option Span) :
    (move.reach span?).span? = span? := by
  cases move with
  | next => rfl
  | seek target => cases span? <;> simp [reach, Reached.span?]

end Move

/-- A move that was made. -/
structure Report where
  move : Move
  outcome : Except Failure Reached
  /-- Where the cursor stood afterwards. -/
  standing : Standing
deriving DecidableEq

namespace Report

/-- The span that was answered. -/
def span? (report : Report) : Option Span :=
  match report.outcome with
  | .ok reached => reached.span?
  | .error _ => none

/-- The move answered that nothing is left. -/
def Ended (report : Report) : Prop :=
  ∃ reached, report.outcome = .ok reached ∧ reached.span? = none

section

variable {move : Move} {standing : Standing}

@[simp] theorem span?_error {failure : Failure} :
    span? ⟨move, .error failure, standing⟩ = none := rfl

@[simp] theorem span?_ok {reached : Reached} :
    span? ⟨move, .ok reached, standing⟩ = reached.span? := rfl

@[simp] theorem ended_error {failure : Failure} :
    Ended ⟨move, .error failure, standing⟩ ↔ False := by
  simp [Ended]

@[simp] theorem ended_ok {reached : Reached} :
    Ended ⟨move, .ok reached, standing⟩ ↔ reached.span? = none := by
  simp [Ended]

end

end Report

namespace Cursor

variable {σ : Type} [Cursor σ]

/-- The span that a move reaches. -/
def go : Move → Attempt Failure σ (Option Span)
  | .next => next
  | .seek target => seek target

/-- Make a move. -/
def make : Move → Attempt Failure σ Reached
  | .next => Reached.span <$> next
  | .seek target => Reached.landing <$> land target

theorem make_eq (move : Move) :
    (make move : Attempt Failure σ Reached) =
      (fun span? => move.reach span?) <$> go move := by
  refine Attempt.ext fun cursor => ?_
  cases move with
  | next => rfl
  | seek target =>
      simp only [make, land, go, Attempt.run_map]
      cases (seek target : Attempt Failure σ _).run cursor with
      | mk outcome reached => cases outcome <;> rfl

/-- A move answers what going there reaches. -/
theorem make_of_go {move : Move} {cursor reached : σ}
    {outcome : Except Failure (Option Span)}
    (went : go move cursor = (outcome, reached)) :
    make move cursor = (outcome.map move.reach, reached) := by
  have mapped := Attempt.run_map (fun span? => move.reach span?) (go move)
    cursor
  rw [show (go move : Attempt Failure σ _).run cursor = _ from went] at mapped
  rw [make_eq]
  refine mapped.trans ?_
  cases outcome <;> rfl

/-- Make moves one after the other, whatever they answer. -/
def runs : List Move → σ → List Report × σ
  | [], cursor => ([], cursor)
  | move :: rest, cursor =>
      let (outcome, reached) := make move cursor
      let (reports, last) := runs rest reached
      (⟨move, outcome, standing reached⟩ :: reports, last)

/-- A cursor that is carried by another one moves and stands as it does. -/
structure Carries {τ υ : Type} [Cursor τ] [Cursor υ] (wrap : τ → υ) :
    Prop where
  go_eq : ∀ (cursor : τ) (move : Move),
    go move (wrap cursor) =
      ((go move cursor).1, wrap (go move cursor).2)
  standing_eq : ∀ cursor : τ, standing (wrap cursor) = standing cursor
  payloads_eq : ∀ cursor : τ, payloads (wrap cursor) = payloads cursor
  estimate_eq : ∀ cursor : τ, estimate (wrap cursor) = estimate cursor

/-- A move of a carried cursor comes to what the move of the cursor does. -/
theorem Carries.meets_go_iff {τ υ : Type} [Cursor τ] [Cursor υ] {wrap : τ → υ}
    (carries : Carries wrap) (move : Move) {cursor : τ}
    {answered : Option Span → υ → Prop} {failed : Failure → υ → Prop} :
    (go move).Meets (wrap cursor) answered failed ↔
      (go move).Meets cursor
        (fun span? reached => answered span? (wrap reached))
        (fun failure reached => failed failure (wrap reached)) := by
  have went := carries.go_eq cursor move
  simp only [Attempt.Meets, Attempt.run, went]
  cases go move cursor with
  | mk outcome reached => cases outcome <;> rfl

/-- A run of a carried cursor is reported as one of the cursor that carries. -/
theorem Carries.runs_eq {τ υ : Type} [Cursor τ] [Cursor υ] {wrap : τ → υ}
    (carries : Carries wrap) (moves : List Move) (cursor : τ) :
    runs moves (wrap cursor) =
      ((runs moves cursor).1, wrap (runs moves cursor).2) := by
  induction moves generalizing cursor with
  | nil => rfl
  | cons move rest ih =>
      cases went : go move cursor with
      | mk outcome reached =>
          have wentOuter := carries.go_eq cursor move
          rw [went] at wentOuter
          simp only [runs, make_of_go went, make_of_go wentOuter,
            carries.standing_eq, ih]

end Cursor

end PositionalSearch
