/-!
# Attempts

An attempt works on a state and ends with an answer or a failure.  The state
it reached is kept in both cases, so a failed attempt can have moved part of
the state and a later attempt goes on from there.
-/

namespace PositionalSearch

/-- Outcomes can be compared when their parts can. -/
instance decidableEqExcept {ε α : Type} [DecidableEq ε] [DecidableEq α] :
    DecidableEq (Except ε α)
  | .ok left, .ok right =>
      decidable_of_iff (left = right) ⟨congrArg _, Except.ok.inj⟩
  | .error left, .error right =>
      decidable_of_iff (left = right) ⟨congrArg _, Except.error.inj⟩
  | .ok _, .error _ => isFalse nofun
  | .error _, .ok _ => isFalse nofun

/-- A computation that answers or fails, and keeps the state it reached. -/
def Attempt (ε σ α : Type) : Type := σ → Except ε α × σ

namespace Attempt

variable {ε δ σ τ α β : Type}

/-- The outcome of an attempt on one state. -/
def run (attempt : Attempt ε σ α) (state : σ) : Except ε α × σ :=
  attempt state

/-- Answer without looking at the state. -/
def answer (value : α) : Attempt ε σ α := fun state => (.ok value, state)

/-- Go on with a second attempt, on the state the first one reached. -/
def andThen (first : Attempt ε σ α) (rest : α → Attempt ε σ β) :
    Attempt ε σ β := fun state =>
  match first state with
  | (.ok value, reached) => rest value reached
  | (.error error, reached) => (.error error, reached)

instance : Monad (Attempt ε σ) where
  pure := answer
  bind := andThen

/-- Fail without touching the state. -/
def fail (error : ε) : Attempt ε σ α := fun state => (.error error, state)

/-- Answer the whole state. -/
def look : Attempt ε σ σ := fun state => (.ok state, state)

/-- Change the state. -/
def update (change : σ → σ) : Attempt ε σ Unit := fun state =>
  (.ok (), change state)

/-- Take over a decision made without a state. -/
def ofExcept (decision : Except ε α) : Attempt ε σ α := fun state =>
  (decision, state)

/-- Take over an optional value, failing where there is none. -/
def ofOption (error : ε) : Option α → Attempt ε σ α
  | some value => answer value
  | none => fail error

/-- Make an attempt on a part of the state; whatever it did is put back. -/
def within (part : σ → τ) (put : σ → τ → σ) (inner : Attempt ε τ α) :
    Attempt ε σ α := fun whole =>
  match inner (part whole) with
  | (outcome, reached) => (outcome, put whole reached)

/-- Report failures in the words of the caller. -/
def mapFailure (rename : δ → ε) (attempt : Attempt δ σ α) :
    Attempt ε σ α := fun state =>
  match attempt state with
  | (.ok value, reached) => (.ok value, reached)
  | (.error error, reached) => (.error (rename error), reached)

/-- Attempts with the same outcomes are the same attempt. -/
theorem ext {first second : Attempt ε σ α}
    (same : ∀ state, first.run state = second.run state) : first = second :=
  funext same

@[simp] theorem run_pure (value : α) (state : σ) :
    (pure value : Attempt ε σ α).run state = (.ok value, state) := rfl

@[simp] theorem run_answer (value : α) (state : σ) :
    (answer value : Attempt ε σ α).run state = (.ok value, state) := rfl

@[simp] theorem run_bind (first : Attempt ε σ α) (rest : α → Attempt ε σ β)
    (state : σ) :
    (first >>= rest).run state =
      match first.run state with
      | (.ok value, reached) => (rest value).run reached
      | (.error error, reached) => (.error error, reached) := rfl

@[simp] theorem run_map (change : α → β) (attempt : Attempt ε σ α)
    (state : σ) :
    (change <$> attempt).run state =
      match attempt.run state with
      | (.ok value, reached) => (.ok (change value), reached)
      | (.error error, reached) => (.error error, reached) := rfl

@[simp] theorem run_fail (error : ε) (state : σ) :
    (fail error : Attempt ε σ α).run state = (.error error, state) := rfl

@[simp] theorem run_look (state : σ) :
    (look : Attempt ε σ σ).run state = (.ok state, state) := rfl

@[simp] theorem run_update (change : σ → σ) (state : σ) :
    (update change : Attempt ε σ Unit).run state =
      (.ok (), change state) := rfl

@[simp] theorem run_ofExcept (decision : Except ε α) (state : σ) :
    (ofExcept decision : Attempt ε σ α).run state = (decision, state) := rfl

@[simp] theorem run_ofOption_some (error : ε) (value : α) (state : σ) :
    (ofOption error (some value) : Attempt ε σ α).run state =
      (.ok value, state) := rfl

@[simp] theorem run_ofOption_none (error : ε) (state : σ) :
    (ofOption error none : Attempt ε σ α).run state =
      (.error error, state) := rfl

@[simp] theorem run_within (part : σ → τ) (put : σ → τ → σ)
    (inner : Attempt ε τ α) (whole : σ) :
    (within part put inner).run whole =
      ((inner.run (part whole)).1, put whole (inner.run (part whole)).2) := rfl

theorem run_mapFailure (rename : δ → ε) (attempt : Attempt δ σ α)
    (state : σ) :
    (attempt.mapFailure rename).run state =
      match attempt.run state with
      | (.ok value, reached) => (.ok value, reached)
      | (.error error, reached) => (.error (rename error), reached) := rfl

instance : LawfulMonad (Attempt ε σ) := LawfulMonad.mk' (Attempt ε σ)
  (fun attempt => ext fun state => by
    rw [run_map]
    split <;> simp_all)
  (fun _ _ => rfl)
  (fun first _ _ => ext fun state => by
    simp only [run_bind]
    cases first.run state with
    | mk outcome reached => cases outcome <;> rfl)

end Attempt

end PositionalSearch
