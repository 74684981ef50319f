import PositionalSearch.Proofs.Moves
import PositionalSearch.Proofs.Planned

/-!
# Lasting conditions

A condition on a cursor lasts if no move ends it, or none but those that fail
in a way that is not spared.  A node only ever moves its children, so what
lasts for each of them is left standing by every move of the node, wherever
the move stops; the node itself stands elsewhere only if it answers.
-/

namespace PositionalSearch

namespace Attempt

variable {ε τ υ α β : Type} {spared : ε → Prop} {holds : τ → Prop}

/-- A condition is left standing, unless by a failure that is not spared. -/
def Sustains (spared : ε → Prop) (holds : τ → Prop) (attempt : Attempt ε τ α)
    (state : τ) : Prop :=
  attempt.Meets state (fun _ => holds)
    fun error reached => spared error → holds reached

theorem Sustains.weaken {weaker : τ → Prop} {attempt : Attempt ε τ α}
    {state : τ} (sustains : attempt.Sustains spared holds state)
    (implies : ∀ reached, holds reached → weaker reached) :
    attempt.Sustains spared weaker state :=
  Meets.mono sustains (fun _ => implies) fun _ reached held isSpared =>
    implies reached (held isSpared)

theorem Sustains.bind {first : Attempt ε τ α} {rest : α → Attempt ε τ β}
    {state : τ} (sustains : first.Sustains spared holds state)
    (goesOn : ∀ value reached, holds reached →
      (rest value).Sustains spared holds reached) :
    (first >>= rest).Sustains spared holds state := by
  rw [Sustains, meets_bind]
  exact sustains.imp_answer goesOn

/-- What follows a look may depend on the state looked at. -/
theorem sustains_look_bind {rest : τ → Attempt ε τ β} {state : τ}
    (sustains : (rest state).Sustains spared holds state) :
    (look >>= rest).Sustains spared holds state := sustains

/-- To answer or to fail without a change sustains what holds. -/
theorem sustains_pure {state : τ} (held : holds state) (value : α) :
    (pure value : Attempt ε τ α).Sustains spared holds state := held

theorem sustains_fail {state : τ} (held : holds state) (error : ε) :
    (fail error : Attempt ε τ α).Sustains spared holds state := fun _ => held

theorem sustains_ofExcept {state : τ} (held : holds state)
    (decision : Except ε α) :
    (ofExcept decision : Attempt ε τ α).Sustains spared holds state :=
  meets_ofExcept.mpr ⟨fun _ _ => held, fun _ _ _ => held⟩

theorem sustains_ofOption {state : τ} (held : holds state) (error : ε)
    (option : Option α) :
    (ofOption error option : Attempt ε τ α).Sustains spared holds state :=
  meets_ofOption.mpr ⟨fun _ _ => held, fun _ _ => held⟩

/-- Where nothing is asked, anything sustains it. -/
theorem sustains_true (attempt : Attempt ε τ α) (state : τ) :
    attempt.Sustains spared (fun _ => True) state := by
  unfold Sustains Meets
  split
  · trivial
  · exact fun _ => trivial

/-- Whatever an attempt comes to, it can be said of where it stopped. -/
theorem sustains_of_reached {attempt : Attempt ε τ α} {state : τ}
    (held : holds (attempt state).2) : attempt.Sustains spared holds state := by
  unfold Sustains
  cases went : attempt state with
  | mk outcome reached =>
      rw [went] at held
      cases outcome with
      | ok value => exact (meets_of_ok went).mpr held
      | error error => exact (meets_of_error went).mpr fun _ => held

theorem Sustains.reached {attempt : Attempt ε τ α} {state : τ}
    (sustains : attempt.Sustains spared holds state)
    (all : ∀ error, spared error) : holds (attempt state).2 := by
  cases went : attempt state with
  | mk outcome reached =>
      cases outcome with
      | ok value => exact Meets.of_ok sustains went
      | error error => exact Meets.of_error sustains went (all error)

/-- Work on a part sustains what the part's condition comes to. -/
theorem sustains_within {part : τ → υ} {put : τ → υ → τ}
    {inner : Attempt ε υ α} {holdsInner : υ → Prop} {state : τ}
    (sustains : inner.Sustains spared holdsInner (part state))
    (puts : ∀ reached, holdsInner reached → holds (put state reached)) :
    (within part put inner).Sustains spared holds state := by
  rw [Sustains, meets_within]
  exact Meets.mono sustains (fun _ => puts) fun _ reached held isSpared =>
    puts reached (held isSpared)

end Attempt

namespace Cursor

open Attempt

variable {σ : Type} {spared : Failure → Prop} {holds : σ → Prop}

/-- Whatever a demand for a later span comes to, the cursor stays. -/
theorem sustains_demandBeyond {cursor : σ} (held : holds cursor) (span : Span)
    (span? : Option Span) :
    (demandBeyond span span?).Sustains spared holds cursor := by
  unfold demandBeyond
  cases span? with
  | none => exact sustains_pure held none
  | some later =>
      dsimp only
      split
      · exact sustains_pure held _
      · exact sustains_fail held _

variable [Cursor σ]

/-- Moves leave the condition standing. -/
def Lasting (spared : Failure → Prop) (holds : σ → Prop) : Prop :=
  ∀ ⦃cursor : σ⦄, holds cursor → ∀ move : Move,
    (go move).Sustains spared holds cursor

namespace Lasting

variable {cursor : σ} (lasting : Lasting spared holds) (held : holds cursor)
include lasting held

theorem next : (Cursor.next : Attempt Failure σ _).Sustains spared holds
    cursor := lasting held .next

theorem seek (target : DocId) :
    (Cursor.seek target).Sustains spared holds cursor :=
  lasting held (.seek target)

theorem enter (target? : Option DocId) :
    (Cursor.enter target?).Sustains spared holds cursor := by
  cases target? with
  | none => exact lasting.next held
  | some target => exact lasting.seek held target

theorem nextBeyond (span : Span) :
    (Cursor.nextBeyond span).Sustains spared holds cursor :=
  (lasting.next held).bind fun span? _ heldOn =>
    sustains_demandBeyond heldOn span span?

theorem nextDocument (span : Span) :
    (Cursor.nextDocument span).Sustains spared holds cursor := by
  unfold Cursor.nextDocument
  cases span.doc.after? with
  | none => exact sustains_pure held none
  | some target =>
      exact (lasting.seek held target).bind fun span? _ heldOn =>
        sustains_demandBeyond heldOn span span?

/-- What lasts holds after every run, if all failures are spared. -/
theorem holds_runs (all : ∀ failure, spared failure) (moves : List Move) :
    holds (runs moves cursor).2 := by
  induction moves generalizing cursor with
  | nil => exact held
  | cons move rest ih =>
      have met := lasting held move
      cases went : go move cursor with
      | mk outcome reached =>
          simp only [runs, make_of_go went]
          cases outcome with
          | ok span? => exact ih (met.of_ok went)
          | error failure => exact ih (met.of_error went (all failure))

end Lasting

/--
A node stands where its answer says, or where it stood if it fails; what is
left standing is said for each standing.
-/
def Concludes (spared : Failure → Prop) (holds : Standing → σ → Prop)
    (stood : Standing) (attempt : Attempt Failure σ (Option Span))
    (node : σ) : Prop :=
  attempt.Meets node (fun span? => holds (.after span?))
    fun failure reached => spared failure → holds stood reached

variable {held : Standing → σ → Prop} {stood : Standing} {node : σ}

omit [Cursor σ] in
theorem concludes_look_bind {rest : σ → Attempt Failure σ (Option Span)}
    (concludes : Concludes spared held stood (rest node) node) :
    Concludes spared held stood (look >>= rest) node := concludes

omit [Cursor σ] in
/-- Work that leaves the node where it stood, and what concludes it. -/
theorem concludes_bind {α : Type} {work : Attempt Failure σ α}
    {rest : α → Attempt Failure σ (Option Span)}
    (sustains : work.Sustains spared (held stood) node)
    (goesOn : ∀ value reached, held stood reached →
      Concludes spared held stood (rest value) reached) :
    Concludes spared held stood (work >>= rest) node := by
  rw [Concludes, meets_bind]
  exact sustains.imp_answer goesOn

omit [Cursor σ] in
/-- A node that concludes is not closed by it. -/
theorem Concludes.sustains {attempt : Attempt Failure σ (Option Span)}
    (concludes : Concludes spared held stood attempt node)
    (shows : ∀ standing reached, (standing = .closed → stood = .closed) →
      held standing reached → holds reached) :
    attempt.Sustains spared holds node := by
  refine Attempt.Meets.mono concludes ?_ ?_
  · intro span? reached heldOn
    refine shows (.after span?) reached ?_ heldOn
    cases span? <;> nofun
  · exact fun failure reached heldOn isSpared =>
      shows stood reached id (heldOn isSpared)

/-- Each move of a planned node concludes if going on and forward do. -/
theorem Planned.concludes {onward : Attempt Failure σ (Option Span)}
    {forward : DocId → Attempt Failure σ (Option Span)}
    (planned : Planned onward forward) (here : held (standing node) node)
    (goesOn : Concludes spared held (standing node) onward node)
    (goesForward : ∀ target,
      Concludes spared held (standing node) (forward target) node)
    (move : Move) :
    Concludes spared held (standing node) (go move) node := by
  have finished : standing node = .exhausted → held (.after none) node := by
    intro isExhausted
    rw [isExhausted] at here
    exact here
  cases move with
  | next =>
      exact planned.meets_next (fun _ _ => here) finished fun _ => goesOn
  | seek target =>
      exact planned.meets_seek (fun _ _ => here) finished
        (fun _ _ _ _ => here) (fun _ _ _ => goesOn) fun _ =>
          goesForward target

end Cursor

end PositionalSearch
