import PositionalSearch.Failure

/-!
# Standings

Where a cursor stands decides what its next move has to do.  The rules of
moving live here once: a closed cursor refuses every move, an exhausted one
answers that there is nothing more, a seek never goes back, and a seek to the
document of the current span is the same as moving to the next span.
-/

namespace PositionalSearch

/-- Where a cursor stands. -/
inductive Standing
  /-- Nothing was read yet. -/
  | unstarted
  /-- On a span. -/
  | on (span : Span)
  /-- In a document whose first position was not read yet. -/
  | atDocument (doc : DocId)
  /-- Past the last span. -/
  | exhausted
  /-- Closed for good. -/
  | closed
deriving DecidableEq

/-- What a seek has to do. -/
inductive SeekPlan
  /-- Answer that there is nothing more. -/
  | finished
  /-- Move to the next span. -/
  | stepOn
  /-- Go forward to the document asked for. -/
  | forward
deriving DecidableEq, Repr

namespace Standing

/-- The current span. -/
def span : Standing → Except Failure Span
  | .on span => .ok span
  | .closed => .error .closed
  | .unstarted | .atDocument _ | .exhausted => .error .notPositioned

/-- The current document, known also before its first position is read. -/
def doc : Standing → Except Failure DocId
  | .on span => .ok span.doc
  | .atDocument doc => .ok doc
  | .closed => .error .closed
  | .unstarted | .exhausted => .error .notPositioned

/-- The current span, if there is one. -/
def span? : Standing → Option Span
  | .on span => some span
  | .unstarted | .atDocument _ | .exhausted | .closed => none

/-- On a span. -/
def isOn : Standing → Bool
  | .on _ => true
  | .unstarted | .atDocument _ | .exhausted | .closed => false

/-- Refuse unless the cursor stands on a span. -/
def requireSpan (standing : Standing) : Except Failure Unit :=
  standing.span.map fun _ => ()

/-- Whether a move to the next span goes ahead; if not, nothing is left. -/
def planNext : Standing → Except Failure Bool
  | .closed => .error .closed
  | .exhausted => .ok false
  | .unstarted | .on _ | .atDocument _ => .ok true

/-- What a seek to `target` has to do. -/
def planSeek (target : DocId) : Standing → Except Failure SeekPlan
  | .closed => .error .closed
  | .exhausted => .ok .finished
  | .unstarted => .ok .forward
  | .atDocument current =>
      if target < current then .error (.behindCurrent current target)
      else .ok .forward
  | .on span =>
      if target < span.doc then .error (.behindCurrent span.doc target)
      else if target = span.doc then .ok .stepOn
      else .ok .forward

theorem span?_eq_some_iff {standing : Standing} {span : Span} :
    standing.span? = some span ↔ standing = .on span := by
  cases standing <;> simp [span?]

/-- A seek goes back exactly when the current document is after the target. -/
theorem planSeek_eq_behindCurrent_iff {standing : Standing}
    {current target : DocId} :
    standing.planSeek target = .error (.behindCurrent current target) ↔
      standing.doc = .ok current ∧ target < current := by
  cases standing with
  | unstarted => simp [planSeek, doc]
  | exhausted => simp [planSeek, doc]
  | closed => simp [planSeek, doc]
  | atDocument found =>
      simp only [planSeek, doc, Except.ok.injEq]
      split
      · rename_i behind
        constructor
        · intro same
          cases same
          exact ⟨rfl, behind⟩
        · rintro ⟨rfl, _⟩
          rfl
      · rename_i ahead
        constructor
        · intro same
          cases same
        · rintro ⟨rfl, behind⟩
          exact absurd behind ahead
  | on span =>
      simp only [planSeek, doc, Except.ok.injEq]
      split
      · rename_i behind
        constructor
        · intro same
          cases same
          exact ⟨rfl, behind⟩
        · rintro ⟨rfl, _⟩
          rfl
      · rename_i ahead
        constructor
        · intro same
          split at same <;> cases same
        · rintro ⟨rfl, behind⟩
          exact absurd behind ahead

/-- The standing after a move that answered a span or nothing. -/
def after : Option Span → Standing
  | some span => .on span
  | none => .exhausted

end Standing

end PositionalSearch
