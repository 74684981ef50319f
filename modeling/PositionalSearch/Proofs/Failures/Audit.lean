import PositionalSearch.Proofs.Order.Discipline

/-!
# Audited cursors

An audited cursor moves as the cursor in it and keeps the failures of its
moves.  What a node answers does not depend on whether its children are
audited, so the logs of the children say which of them a failure of the node
comes from.
-/

namespace PositionalSearch

open Cursor (Carries Disciplined Orderly)

/-! ## Attempts that blame a source -/

namespace Attempt

variable {ε ι τ υ α β : Type} {log : τ → ι → List ε}

/-- A source has logged the failure since. -/
def Blamed (log : τ → ι → List ε) (state : τ) (failure : ε) (reached : τ) :
    Prop :=
  ∃ source, log reached source = failure :: log state source

/--
An attempt that answers leaves all logs as they are, and the failure of one
that fails is what some source logged.
-/
def Blames (log : τ → ι → List ε) (attempt : Attempt ε τ α) (state : τ) :
    Prop :=
  attempt.Meets state (fun _ reached => log reached = log state)
    (Blamed log state)

theorem blames_pure (value : α) (state : τ) :
    Blames log (pure value : Attempt ε τ α) state := rfl

/-- What is blamed after logs were left as they are is blamed from the start. -/
theorem Blamed.of_same {state middle reached : τ} {failure : ε}
    (same : log middle = log state)
    (blamed : Blamed log middle failure reached) :
    Blamed log state failure reached := by
  obtain ⟨source, logged⟩ := blamed
  exact ⟨source, logged.trans (congrArg (failure :: ·) (congrFun same source))⟩

theorem Blames.bind {first : Attempt ε τ α} {rest : α → Attempt ε τ β}
    {state : τ} (blames : first.Blames log state)
    (goesOn : ∀ value reached, first state = (.ok value, reached) →
      (rest value).Blames log reached) :
    (first >>= rest).Blames log state := by
  rw [Blames, meets_bind]
  cases outcome : first state with
  | mk result middle =>
      cases result with
      | error failure =>
          exact (meets_of_error outcome).mpr (blames.of_error outcome)
      | ok value =>
          have same := blames.of_ok outcome
          refine (meets_of_ok outcome).mpr ?_
          apply (goesOn value middle outcome).mono
          · intro _ reached sameOn
            exact sameOn.trans same
          · intro failure reached blamed
            exact blamed.of_same same

/-- What follows a look may depend on the state looked at. -/
theorem blames_look_bind {rest : τ → Attempt ε τ β} {state : τ}
    (blames : (rest state).Blames log state) :
    (look >>= rest).Blames log state := blames

/-- What was decided is gone on with. -/
theorem blames_ofExcept_bind {decision : Except ε α} {value : α}
    {rest : α → Attempt ε τ β} {state : τ} (isOk : decision = .ok value)
    (blames : (rest value).Blames log state) :
    (ofExcept decision >>= rest).Blames log state := by
  rw [isOk]
  exact blames

/-- An optional value that is there is gone on with. -/
theorem blames_ofOption_bind {error : ε} {option : Option α} {value : α}
    {rest : α → Attempt ε τ β} {state : τ} (isSome : option = some value)
    (blames : (rest value).Blames log state) :
    (ofOption error option >>= rest).Blames log state := by
  rw [isSome]
  exact blames

/-- Work on a part blames the sources of the part. -/
theorem blames_within {part : τ → υ} {put : τ → υ → τ}
    {inner : Attempt ε υ α} {logs : υ → ι → List ε} {state : τ}
    (same : ∀ reached, log (put state reached) = logs reached)
    (start : log state = logs (part state))
    (blames : inner.Blames logs (part state)) :
    (within part put inner).Blames log state := by
  rw [Blames, meets_within]
  apply blames.mono
  · intro _ reached sameLog
    rw [same, start, sameLog]
  · intro failure reached blamed
    obtain ⟨source, logged⟩ := blamed
    exact ⟨source, by rw [same, start, logged]⟩

end Attempt

/-! ## Keeping a log -/

/-- A cursor with the failures of its moves, the latest one first. -/
structure Audited (σ : Type) where
  cursor : σ
  failures : List Failure

namespace Audited

variable {ι σ : Type}

/-- A cursor that was not moved yet. -/
def fresh (cursor : σ) : Audited σ := ⟨cursor, []⟩

/-- Make a move and log its failure. -/
def auditing (step : Attempt Failure σ (Option Span)) :
    Attempt Failure (Audited σ) (Option Span) := fun audited =>
  match step audited.cursor with
  | (.ok span?, cursor) => (.ok span?, { audited with cursor := cursor })
  | (.error failure, cursor) =>
      (.error failure, ⟨cursor, failure :: audited.failures⟩)

variable [Cursor σ]

instance : Cursor (Audited σ) where
  next := auditing Cursor.next
  seek target := auditing (Cursor.seek target)
  standing audited := Cursor.standing audited.cursor
  payloads audited := Cursor.payloads audited.cursor
  estimate audited := Cursor.estimate audited.cursor
  close audited := { audited with cursor := Cursor.close audited.cursor }

theorem go_eq (move : Move) :
    (Cursor.go move : Attempt Failure (Audited σ) _) =
      auditing (Cursor.go move) := by
  cases move <;> rfl

/-- To forget the log changes nothing. -/
theorem carries_cursor : Carries (cursor : Audited σ → σ) where
  go_eq audited move := by
    rw [go_eq]
    unfold auditing
    cases Cursor.go move audited.cursor with
    | mk outcome reached => cases outcome <;> rfl
  standing_eq _ := rfl
  payloads_eq _ := rfl
  estimate_eq _ := rfl

/-- A move logs its failure, and nothing else is logged. -/
theorem meets_go (audited : Audited σ) (move : Move) :
    (Cursor.go move).Meets audited
      (fun _ reached => reached.failures = audited.failures)
      (fun failure reached =>
        reached.failures = failure :: audited.failures) := by
  rw [go_eq]
  simp only [Attempt.Meets, Attempt.run, auditing]
  cases Cursor.go move audited.cursor with
  | mk outcome reached => cases outcome <;> rfl

/-- Disturb the cursor. -/
def disturbed (disturb : ι → σ → σ) (event : ι) (audited : Audited σ) :
    Audited σ :=
  { audited with cursor := disturb event audited.cursor }

/-- A cursor goes on in order when it is audited. -/
theorem orderly_fresh {disturb : ι → σ → σ} {last? : Option Span} {cursor : σ}
    (orderly : Orderly disturb last? cursor) :
    Orderly (disturbed disturb) last? (fresh cursor) :=
  carries_cursor.orderly_of (fun _ _ => rfl) orderly

end Audited

end PositionalSearch
