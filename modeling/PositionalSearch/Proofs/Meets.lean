import PositionalSearch.Attempt

/-!
# What an attempt comes to

`Meets` states where an attempt ends: one condition for an answer and the
state reached with it, one for a failure and the state reached with it.  It
commutes with each way to build attempts, so a condition on a whole attempt
is taken apart into conditions on its steps.
-/

namespace PositionalSearch

namespace Attempt

variable {ε δ σ τ α β : Type}

/-- The attempt ends as one of two conditions says. -/
def Meets (attempt : Attempt ε σ α) (state : σ)
    (answered : α → σ → Prop) (failed : ε → σ → Prop) : Prop :=
  match attempt.run state with
  | (.ok value, reached) => answered value reached
  | (.error error, reached) => failed error reached

section

variable {attempt : Attempt ε σ α} {state reached : σ}
  {answered : α → σ → Prop} {failed : ε → σ → Prop}

theorem meets_of_ok {value : α}
    (outcome : attempt state = (.ok value, reached)) :
    attempt.Meets state answered failed ↔ answered value reached := by
  simp [Meets, run, outcome]

theorem meets_of_error {error : ε}
    (outcome : attempt state = (.error error, reached)) :
    attempt.Meets state answered failed ↔ failed error reached := by
  simp [Meets, run, outcome]

/-- What is met by an attempt that answers. -/
theorem Meets.of_ok (meets : attempt.Meets state answered failed) {value : α}
    (outcome : attempt state = (.ok value, reached)) :
    answered value reached := (meets_of_ok outcome).mp meets

/-- What is met by an attempt that fails. -/
theorem Meets.of_error (meets : attempt.Meets state answered failed)
    {error : ε} (outcome : attempt state = (.error error, reached)) :
    failed error reached := (meets_of_error outcome).mp meets

/-- Only the outcome counts. -/
theorem meets_congr {other : Attempt ε σ α} {start : σ}
    (same : attempt state = other start) :
    attempt.Meets state answered failed ↔
      other.Meets start answered failed := by
  simp [Meets, run, same]

/-- An attempt ends where it ends. -/
theorem meets_self (attempt : Attempt ε σ α) (state : σ) :
    attempt.Meets state
      (fun value reached => attempt state = (.ok value, reached))
      (fun error reached => attempt state = (.error error, reached)) := by
  unfold Meets
  split
  · rename_i went; exact went
  · rename_i went; exact went

/-- Attempts that meet the same conditions come to the same. -/
theorem eq_of_meets_iff {first second : Attempt ε σ α} {start other : σ}
    (same : ∀ (answered : α → σ → Prop) (failed : ε → σ → Prop),
      first.Meets start answered failed ↔ second.Meets other answered failed) :
    first start = second other := by
  have met := (same (fun value reached => first start = (.ok value, reached))
    (fun error reached => first start = (.error error, reached))).mp
      (meets_self first start)
  unfold Meets at met
  split at met
  · rename_i went; exact met.trans went.symm
  · rename_i went; exact met.trans went.symm

/-- An attempt that cannot fail answers. -/
theorem Meets.exists_ok
    (meets : attempt.Meets state answered fun _ _ => False) :
    ∃ value reached, attempt state = (.ok value, reached) ∧
      answered value reached := by
  cases outcome : attempt state with
  | mk result reached =>
      cases result with
      | ok value => exact ⟨value, reached, rfl, meets.of_ok outcome⟩
      | error error => exact (meets.of_error outcome).elim

/-- Both conditions can be weakened. -/
theorem Meets.mono {weaker : α → σ → Prop} {allowed : ε → σ → Prop}
    (meets : attempt.Meets state answered failed)
    (answers : ∀ value reached, answered value reached →
      weaker value reached)
    (failures : ∀ error reached, failed error reached →
      allowed error reached) :
    attempt.Meets state weaker allowed := by
  cases outcome : attempt state with
  | mk result reached =>
      cases result with
      | ok value =>
          exact (meets_of_ok outcome).mpr
            (answers value reached (meets.of_ok outcome))
      | error error =>
          exact (meets_of_error outcome).mpr
            (failures error reached (meets.of_error outcome))

/-- What is answered can be weakened. -/
theorem Meets.imp_answer {weaker : α → σ → Prop}
    (meets : attempt.Meets state answered failed)
    (answers : ∀ value reached, answered value reached →
      weaker value reached) :
    attempt.Meets state weaker failed :=
  meets.mono answers fun _ _ failed => failed

/-- What a failure comes to can be weakened. -/
theorem Meets.imp_failure {allowed : ε → σ → Prop}
    (meets : attempt.Meets state answered failed)
    (failures : ∀ error reached, failed error reached →
      allowed error reached) :
    attempt.Meets state answered allowed :=
  meets.mono (fun _ _ answered => answered) failures

/-- Two conditions are met together. -/
theorem Meets.and {also : α → σ → Prop} {alsoFailed : ε → σ → Prop}
    (first : attempt.Meets state answered failed)
    (second : attempt.Meets state also alsoFailed) :
    attempt.Meets state
      (fun value reached => answered value reached ∧ also value reached)
      (fun error reached => failed error reached ∧
        alsoFailed error reached) := by
  cases outcome : attempt state with
  | mk result reached =>
      cases result with
      | ok value =>
          exact (meets_of_ok outcome).mpr
            ⟨first.of_ok outcome, second.of_ok outcome⟩
      | error error =>
          exact (meets_of_error outcome).mpr
            ⟨first.of_error outcome, second.of_error outcome⟩

end

variable {state : σ} {failed : ε → σ → Prop}

@[simp] theorem meets_pure {value : α} {answered : α → σ → Prop} :
    (pure value : Attempt ε σ α).Meets state answered failed ↔
      answered value state := Iff.rfl

@[simp] theorem meets_answer {value : α} {answered : α → σ → Prop} :
    (answer value : Attempt ε σ α).Meets state answered failed ↔
      answered value state := Iff.rfl

@[simp] theorem meets_bind {first : Attempt ε σ α}
    {rest : α → Attempt ε σ β} {answered : β → σ → Prop} :
    (first >>= rest).Meets state answered failed ↔
      first.Meets state
        (fun value reached => (rest value).Meets reached answered failed)
        failed := by
  simp only [Meets, run_bind]
  cases first.run state with
  | mk result reached => cases result <;> rfl

@[simp] theorem meets_map {change : α → β} {attempt : Attempt ε σ α}
    {answered : β → σ → Prop} :
    (change <$> attempt).Meets state answered failed ↔
      attempt.Meets state
        (fun value reached => answered (change value) reached) failed := by
  simp only [Meets, run_map]
  cases attempt.run state with
  | mk result reached => cases result <;> rfl

@[simp] theorem meets_fail {error : ε} {answered : α → σ → Prop} :
    (fail error : Attempt ε σ α).Meets state answered failed ↔
      failed error state := Iff.rfl

@[simp] theorem meets_look {answered : σ → σ → Prop} :
    (look : Attempt ε σ σ).Meets state answered failed ↔
      answered state state := Iff.rfl

@[simp] theorem meets_update {change : σ → σ}
    {answered : Unit → σ → Prop} :
    (update change : Attempt ε σ Unit).Meets state answered failed ↔
      answered () (change state) := Iff.rfl

@[simp] theorem meets_ofExcept_ok {value : α} {answered : α → σ → Prop} :
    (ofExcept (.ok value) : Attempt ε σ α).Meets state answered failed ↔
      answered value state := Iff.rfl

@[simp] theorem meets_ofExcept_error {error : ε} {answered : α → σ → Prop} :
    (ofExcept (.error error) : Attempt ε σ α).Meets state answered failed ↔
      failed error state := Iff.rfl

@[simp] theorem meets_ofOption_some {error : ε} {value : α}
    {answered : α → σ → Prop} :
    (ofOption error (some value) : Attempt ε σ α).Meets state answered
      failed ↔ answered value state := Iff.rfl

@[simp] theorem meets_ofOption_none {error : ε} {answered : α → σ → Prop} :
    (ofOption error none : Attempt ε σ α).Meets state answered failed ↔
      failed error state := Iff.rfl

@[simp] theorem meets_within {part : σ → τ} {put : σ → τ → σ}
    {inner : Attempt ε τ α} {answered : α → σ → Prop} :
    (within part put inner).Meets state answered failed ↔
      inner.Meets (part state)
        (fun value reached => answered value (put state reached))
        (fun error reached => failed error (put state reached)) := by
  simp only [Meets, run_within]
  cases inner.run (part state) with
  | mk result reached => cases result <;> rfl

@[simp] theorem meets_mapFailure {rename : δ → ε} {attempt : Attempt δ σ α}
    {answered : α → σ → Prop} :
    (attempt.mapFailure rename).Meets state answered failed ↔
      attempt.Meets state answered
        (fun error reached => failed (rename error) reached) := by
  simp only [Meets, run_mapFailure]
  cases attempt.run state with
  | mk result reached => cases result <;> rfl

/-- A decision made without a state is met case by case. -/
theorem meets_ofExcept {decision : Except ε α} {answered : α → σ → Prop} :
    (ofExcept decision : Attempt ε σ α).Meets state answered failed ↔
      (∀ value, decision = .ok value → answered value state) ∧
        ∀ error, decision = .error error → failed error state := by
  cases decision <;> simp

/-- An optional value is met case by case. -/
theorem meets_ofOption {error : ε} {option : Option α}
    {answered : α → σ → Prop} :
    (ofOption error option : Attempt ε σ α).Meets state answered failed ↔
      (∀ value, option = some value → answered value state) ∧
        (option = none → failed error state) := by
  cases option <;> simp

end Attempt

end PositionalSearch
