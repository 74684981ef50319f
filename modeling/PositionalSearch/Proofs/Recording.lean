import PositionalSearch.Proofs.Order.Discipline

/-!
# Recorded cursors

A recorded cursor moves as the cursor in it and keeps the spans it answered.
What a node answers does not depend on whether its children are recorded, so
the records say what the children had answered before.
-/

namespace PositionalSearch

open Cursor (Disciplined Orderly Advances Carries)

/-- A cursor with the spans it answered, the latest one first. -/
structure Recorded (σ : Type) where
  cursor : σ
  answered : List Span

namespace Recorded

variable {σ : Type}

/-- A cursor that has answered nothing. -/
def fresh (cursor : σ) : Recorded σ := ⟨cursor, []⟩

/-- Make a move and record the span it answers. -/
def recording (step : Attempt Failure σ (Option Span)) :
    Attempt Failure (Recorded σ) (Option Span) := fun recorded =>
  match step recorded.cursor with
  | (.ok (some span), cursor) =>
      (.ok (some span), ⟨cursor, span :: recorded.answered⟩)
  | (outcome, cursor) => (outcome, { recorded with cursor := cursor })

variable [Cursor σ]

instance : Cursor (Recorded σ) where
  next := recording Cursor.next
  seek target := recording (Cursor.seek target)
  standing recorded := Cursor.standing recorded.cursor
  payloads recorded := Cursor.payloads recorded.cursor
  estimate recorded := Cursor.estimate recorded.cursor
  close recorded := { recorded with cursor := Cursor.close recorded.cursor }

theorem go_eq (move : Move) :
    (Cursor.go move : Attempt Failure (Recorded σ) _) =
      recording (Cursor.go move) := by
  cases move <;> rfl

/-- To forget the record changes nothing. -/
theorem carries_cursor : Carries (cursor : Recorded σ → σ) where
  go_eq recorded move := by
    rw [go_eq]
    unfold recording
    cases Cursor.go move recorded.cursor with
    | mk outcome reached =>
        cases outcome with
        | error failure => rfl
        | ok span? => cases span? <;> rfl
  standing_eq _ := rfl
  payloads_eq _ := rfl
  estimate_eq _ := rfl

variable {ι : Type} {disturb : ι → σ → σ}

/-- Disturb the cursor. -/
def disturbed (disturb : ι → σ → σ) (event : ι) (recorded : Recorded σ) :
    Recorded σ :=
  { recorded with cursor := disturb event recorded.cursor }

/-- The last span is the latest one on record, and the cursor is in order. -/
structure Keeps (disturb : ι → σ → σ) (last? : Option Span)
    (recorded : Recorded σ) : Prop where
  latest : recorded.answered.head? = last?
  orderly : Orderly disturb last? recorded.cursor

theorem disciplined :
    Disciplined (disturbed disturb) (Keeps disturb) where
  moves := by
    rintro last? recorded kept move
    have met := Orderly.disciplined.moves kept.orderly move
    rw [go_eq]
    simp only [Attempt.Meets, Attempt.run, recording] at met ⊢
    cases outcome : Cursor.go move recorded.cursor with
    | mk result reached =>
        rw [outcome] at met
        cases result with
        | error failure => exact ⟨kept.latest, met⟩
        | ok span? =>
            cases span? with
            | none => exact ⟨met.1, kept.latest, met.2⟩
            | some span =>
                obtain ⟨after, landed, stands, orderly⟩ := met
                exact ⟨after, landed, stands, rfl, orderly⟩
  finished := by
    rintro last? recorded kept isExhausted move
    have met := Orderly.disciplined.finished kept.orderly isExhausted move
    obtain ⟨span?, reached, went, rfl⟩ := met.exists_ok
    rw [go_eq]
    exact (Attempt.meets_of_ok (show recording (Cursor.go move) recorded =
      (.ok none, { recorded with cursor := reached }) by
        simp only [recording, went])).mpr rfl
  disturbed := by
    rintro last? recorded kept event
    obtain ⟨orderly, same⟩ :=
      Orderly.disciplined.disturbed kept.orderly event
    exact ⟨⟨kept.latest, orderly⟩, same⟩

theorem keeps_fresh {cursor : σ} (orderly : Orderly disturb none cursor) :
    Keeps disturb none (fresh cursor) :=
  ⟨rfl, orderly⟩

end Recorded

end PositionalSearch
