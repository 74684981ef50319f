import PositionalSearch.Proofs.Lasting.Basic

/-!
# Logged cursors

A logged cursor moves as the cursor in it and keeps the calls made to it, its
moves and its closing.  A node sees nothing of this, so the logs say which
calls it made.
-/

namespace PositionalSearch

open Cursor (Carries Lasting)

/-- What a cursor is asked to do. -/
inductive Call
  | move (move : Move)
  | close
deriving DecidableEq

/-- A cursor with the calls made to it, the latest one first. -/
structure Logged (σ : Type) where
  cursor : σ
  calls : List Call

namespace Logged

variable {σ : Type}

/-- A cursor that was not called yet. -/
def fresh (cursor : σ) : Logged σ := ⟨cursor, []⟩

/-- Make a move and log it. -/
def logging (move : Move) (step : Attempt Failure σ (Option Span)) :
    Attempt Failure (Logged σ) (Option Span) := fun logged =>
  ((step logged.cursor).1,
    ⟨(step logged.cursor).2, .move move :: logged.calls⟩)

variable [Cursor σ]

instance : Cursor (Logged σ) where
  next := logging .next Cursor.next
  seek target := logging (.seek target) (Cursor.seek target)
  standing logged := Cursor.standing logged.cursor
  payloads logged := Cursor.payloads logged.cursor
  estimate logged := Cursor.estimate logged.cursor
  close logged := ⟨Cursor.close logged.cursor, .close :: logged.calls⟩

theorem go_eq (move : Move) :
    (Cursor.go move : Attempt Failure (Logged σ) _) =
      logging move (Cursor.go move) := by
  cases move <;> rfl

/-- To forget the log changes nothing. -/
theorem carries_cursor : Carries (cursor : Logged σ → σ) where
  go_eq logged move := by rw [go_eq, logging]
  standing_eq _ := rfl
  payloads_eq _ := rfl
  estimate_eq _ := rfl

/-- A cursor on which only moves were made. -/
def Unclosed (logged : Logged σ) : Prop :=
  ∃ moves : List Move, logged.calls = moves.map .move

omit [Cursor σ] in
theorem unclosed_fresh (cursor : σ) : (fresh cursor).Unclosed := ⟨[], rfl⟩

/-- Moves close nothing, whatever they come to. -/
theorem lasting_unclosed (spared : Failure → Prop) :
    Lasting spared (Unclosed : Logged σ → Prop) := by
  rintro logged ⟨moves, logs⟩ move
  apply Attempt.sustains_of_reached
  rw [go_eq]
  exact ⟨move :: moves, congrArg (Call.move move :: ·) logs⟩

end Logged

end PositionalSearch
