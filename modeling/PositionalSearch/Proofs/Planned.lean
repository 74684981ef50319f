import PositionalSearch.Leaf.Listed
import PositionalSearch.Leaf.Nothing
import PositionalSearch.Leaf.Term
import PositionalSearch.Metered
import PositionalSearch.Proofs.Meets
import PositionalSearch.Proximity
import PositionalSearch.Region
import PositionalSearch.Union
import PositionalSearch.Without

/-!
# Planned cursors

Most cursors look at their standing before each move and then do one of two
things: go on to the next span, or go forward to a document.  For these, what
a move comes to follows from what the two come to.
-/

namespace PositionalSearch

namespace Standing

/-- A move finds nothing left exactly at the end. -/
theorem planNext_eq_false_iff {standing : Standing} :
    standing.planNext = .ok false ↔ standing = .exhausted := by
  cases standing <;> simp [planNext]

/-- A seek steps on exactly when it asks for the current span's document. -/
theorem planSeek_eq_stepOn_iff {standing : Standing} {target : DocId} :
    standing.planSeek target = .ok .stepOn ↔
      ∃ span, standing = .on span ∧ span.doc = target := by
  cases standing with
  | on span =>
      simp only [planSeek, Standing.on.injEq, exists_eq_left']
      by_cases before : target < span.doc
      · have other : span.doc ≠ target := by
          rintro rfl
          exact UInt64.lt_irrefl _ before
        simp [before, other]
      · by_cases same : target = span.doc
        · simp [same]
        · simp [before, same, Ne.symm same]
  | atDocument doc =>
      by_cases before : target < doc <;> simp [planSeek, before]
  | unstarted => simp [planSeek]
  | exhausted => simp [planSeek]
  | closed => simp [planSeek]

/-- A seek goes forward from before the first span or an earlier document. -/
theorem planSeek_eq_forward_iff {standing : Standing} {target : DocId} :
    standing.planSeek target = .ok .forward ↔
      standing = .unstarted ∨
        (∃ doc, standing = .atDocument doc ∧ doc ≤ target) ∨
          ∃ span, standing = .on span ∧ span.doc < target := by
  cases standing with
  | on span =>
      simp only [planSeek, Standing.on.injEq, exists_eq_left',
        reduceCtorEq, false_and, exists_false, false_or]
      by_cases before : target < span.doc
      · simp [before, UInt64.lt_asymm before]
      · by_cases same : target = span.doc
        · simp [same]
        · have further : span.doc < target := by grind
          simp [before, same, further]
  | atDocument doc =>
      by_cases before : target < doc
      · simp [planSeek, before]
      · simp [planSeek, before, UInt64.not_lt.mp before]
  | unstarted => simp [planSeek]
  | exhausted => simp [planSeek]
  | closed => simp [planSeek]

/-- Where a seek goes forward there is something to move to. -/
theorem planNext_of_planSeek {standing : Standing} {target : DocId}
    (goes : standing.planSeek target = .ok .forward) :
    standing.planNext = .ok true := by
  rcases planSeek_eq_forward_iff.mp goes with
    rfl | ⟨doc, rfl, _⟩ | ⟨span, rfl, _⟩ <;> rfl

/-- From a span a seek goes forward to a later document only. -/
theorem doc_lt_of_planSeek {span : Span} {target : DocId}
    (goes : (on span).planSeek target = .ok .forward) : span.doc < target := by
  rcases planSeek_eq_forward_iff.mp goes with
    unstarted | ⟨doc, atDocument, _⟩ | ⟨_, ⟨rfl⟩, before⟩
  · cases unstarted
  · cases atDocument
  · exact before

/-- A seek finds nothing left exactly at the end. -/
theorem planSeek_eq_finished_iff {standing : Standing} {target : DocId} :
    standing.planSeek target = .ok .finished ↔ standing = .exhausted := by
  cases standing with
  | on span =>
      by_cases before : target < span.doc
      · simp [planSeek, before]
      · by_cases same : target = span.doc <;> simp [planSeek, before, same]
  | atDocument doc =>
      by_cases before : target < doc <;> simp [planSeek, before]
  | unstarted => simp [planSeek]
  | exhausted => simp [planSeek]
  | closed => simp [planSeek]

end Standing

namespace Cursor

variable {σ : Type} [Cursor σ]

/-- Each move goes by its plan. -/
structure Planned (onward : Attempt Failure σ (Option Span))
    (forward : DocId → Attempt Failure σ (Option Span)) : Prop where
  next_eq : (next : Attempt Failure σ (Option Span)) = do
    match ← Attempt.ofExcept (standing (← Attempt.look)).planNext with
    | false => pure none
    | true => onward
  seek_eq : ∀ target : DocId,
    (seek target : Attempt Failure σ (Option Span)) = do
      match ← Attempt.ofExcept
          ((standing (← Attempt.look)).planSeek target) with
      | .finished => pure none
      | .stepOn => next
      | .forward => forward target

namespace Planned

variable {onward : Attempt Failure σ (Option Span)}
  {forward : DocId → Attempt Failure σ (Option Span)}
  {cursor : σ} {answered : Option Span → σ → Prop}
  {failed : Failure → σ → Prop}

/-- What moving to the next span comes to, by the plan. -/
theorem meets_next (planned : Planned onward forward)
    (closed : standing cursor = .closed → failed .closed cursor)
    (finished : standing cursor = .exhausted → answered none cursor)
    (goes : (standing cursor).planNext = .ok true →
      onward.Meets cursor answered failed) :
    (next : Attempt Failure σ _).Meets cursor answered failed := by
  rw [planned.next_eq]
  simp only [Attempt.meets_bind, Attempt.meets_look]
  cases stands : standing cursor with
  | closed => exact closed stands
  | exhausted => exact finished stands
  | unstarted => exact goes (by rw [stands]; rfl)
  | on span => exact goes (by rw [stands]; rfl)
  | atDocument doc => exact goes (by rw [stands]; rfl)

/-- What a seek comes to, by the plan. -/
theorem meets_seek (planned : Planned onward forward) {target : DocId}
    (closed : standing cursor = .closed → failed .closed cursor)
    (finished : standing cursor = .exhausted → answered none cursor)
    (behind : ∀ current, (standing cursor).doc = .ok current →
      target < current → failed (.behindCurrent current target) cursor)
    (steps : ∀ span, standing cursor = .on span → target = span.doc →
      onward.Meets cursor answered failed)
    (goes : (standing cursor).planSeek target = .ok .forward →
      (forward target).Meets cursor answered failed) :
    (seek target : Attempt Failure σ _).Meets cursor answered failed := by
  rw [planned.seek_eq]
  simp only [Attempt.meets_bind, Attempt.meets_look]
  cases stands : standing cursor with
  | closed => exact closed stands
  | exhausted => exact finished stands
  | unstarted => exact goes (by rw [stands]; rfl)
  | on span =>
      simp only [Standing.planSeek]
      split
      · rename_i before
        exact behind span.doc (by rw [stands]; rfl) before
      · rename_i notBefore
        split
        · rename_i same
          refine planned.meets_next ?_ ?_ fun _ => steps span stands same
          · intro isClosed
            rw [stands] at isClosed
            cases isClosed
          · intro isExhausted
            rw [stands] at isExhausted
            cases isExhausted
        · rename_i other
          refine goes ?_
          simp [stands, Standing.planSeek, notBefore, other]
  | atDocument doc =>
      simp only [Standing.planSeek]
      split
      · rename_i before
        exact behind doc (by rw [stands]; rfl) before
      · rename_i notBefore
        refine goes ?_
        simp [stands, Standing.planSeek, notBefore]

end Planned

end Cursor

/-! ## The planned cursors of the library -/

open Cursor (Planned)

variable {σ π : Type} {size : Nat}

theorem Nothing.planned :
    Planned Nothing.finish fun _ => Nothing.finish where
  next_eq := by
    refine Attempt.ext fun cursor => ?_
    cases stands : cursor.standing <;>
      simp [Cursor.next, Cursor.standing, Standing.planNext, stands]
  seek_eq target := by
    refine Attempt.ext fun cursor => ?_
    simp only [Cursor.seek, Cursor.standing, Attempt.run_bind,
      Attempt.run_look, Attempt.run_ofExcept]
    cases planned : cursor.standing.planSeek target with
    | error failure => rfl
    | ok plan =>
        cases plan with
        | finished => rfl
        | forward => rfl
        | stepOn =>
            obtain ⟨span, stands, _⟩ :=
              Standing.planSeek_eq_stepOn_iff.mp planned
            simp [Cursor.next, Standing.planNext, stands]

/-- A cursor over a listing goes on to the entry that comes next. -/
def Listed.onward : Attempt Failure Listed (Option Span) := fun cursor =>
  Listed.standAt cursor.offset cursor

/-- A cursor over a listing goes forward by bisection. -/
def Listed.forward (target : DocId) :
    Attempt Failure Listed (Option Span) := fun cursor =>
  Listed.standAt (cursor.listing.placeFrom cursor.offset target) cursor

theorem Listed.planned : Planned Listed.onward Listed.forward where
  next_eq := by
    refine Attempt.ext fun cursor => ?_
    simp only [Cursor.next, Cursor.standing, Attempt.run_bind,
      Attempt.run_look, Attempt.run_ofExcept]
    cases stands : cursor.standing <;> rfl
  seek_eq target := by
    refine Attempt.ext fun cursor => ?_
    simp only [Cursor.seek, Cursor.standing, Attempt.run_bind,
      Attempt.run_look, Attempt.run_ofExcept]
    cases planned : cursor.standing.planSeek target with
    | error failure => rfl
    | ok plan =>
        cases plan with
        | finished => rfl
        | forward => rfl
        | stepOn =>
            obtain ⟨span, stands, _⟩ :=
              Standing.planSeek_eq_stepOn_iff.mp planned
            simp [Cursor.next, Standing.planNext, stands]

/-- A cursor over a term goes on from where it stands. -/
def Term.onward [Postings π] : Attempt Failure (Term π) (Option Span) :=
  fun term =>
    match term.standing with
    | .on span => Term.advance span.doc term
    | .atDocument doc => Term.advance doc term
    | .unstarted => (do Term.arrive (← Term.reading Postings.nextDocument) :
        Attempt Failure (Term π) _) term
    | .exhausted | .closed => (.ok none, term)

theorem Term.planned [Postings π] :
    Planned (Term.onward : Attempt Failure (Term π) _) Term.forward where
  next_eq := by
    refine Attempt.ext fun term => ?_
    simp only [Cursor.next, Term.next, Cursor.standing, Attempt.run_bind,
      Attempt.run_look, Attempt.run_ofExcept]
    cases stands : term.standing with
    | closed => rfl
    | exhausted => rfl
    | unstarted => simp [Term.onward, Standing.planNext, Attempt.run, stands]
    | on span => simp [Term.onward, Standing.planNext, Attempt.run, stands]
    | atDocument doc =>
        simp [Term.onward, Standing.planNext, Attempt.run, stands]
  seek_eq _ := rfl

/-- A union goes on by moving past the span it stands on. -/
def Union.onward [Cursor σ] :
    Attempt Failure (Union σ size) (Option Span) := do
  let node ← Attempt.look
  if node.entered < size then Union.enterRest none
  else
    match node.standing.span? with
    | some span => Union.movePast span
    | none => pure ()
  Union.settle

theorem Union.planned [Cursor σ] :
    Planned (Union.onward : Attempt Failure (Union σ size) _)
      Union.forward where
  next_eq := by
    refine Attempt.ext fun node => ?_
    obtain ⟨children, queue, entered, standing, estimate⟩ := node
    cases standing with
    | unstarted => rfl
    | on span => rfl
    | atDocument doc => rfl
    | exhausted => rfl
    | closed => rfl
  seek_eq _ := rfl

theorem Region.planned [Cursor σ] :
    Planned (do Region.keep (← Region.moving Cursor.next) :
      Attempt Failure (Region σ) _)
      (fun target => do
        Region.keep (← Region.moving (Cursor.seek target))) where
  next_eq := rfl
  seek_eq _ := rfl

theorem Without.planned [Cursor σ] :
    Planned (do Without.keep (← Without.including Cursor.next) :
      Attempt Failure (Without σ) _)
      (fun target => do
        Without.keep (← Without.including (Cursor.seek target))) where
  next_eq := rfl
  seek_eq _ := rfl

theorem Proximity.planned [Cursor σ] :
    Planned (do Proximity.settle (← Proximity.resume) :
      Attempt Failure (Proximity σ size) _)
      (fun target => do
        Proximity.settle (← Proximity.resumeAt target)) where
  next_eq := rfl
  seek_eq _ := rfl

end PositionalSearch
