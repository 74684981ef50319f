import PositionalSearch.Attempt

/-!
# Attempts on carried states

Two attempts of one shape on different states run alongside each other when
the second does on a carried state what the first does on the state itself.
-/

namespace PositionalSearch

namespace Attempt

variable {ε σ τ π ρ α β : Type} {carry : σ → τ}

/-- The second attempt does what the first does, on carried states. -/
def Along (carry : σ → τ) (attempt : Attempt ε σ α)
    (carried : Attempt ε τ α) (state : σ) : Prop :=
  carried (carry state) = ((attempt state).1, carry (attempt state).2)

/-- Only what the attempts do to the two states counts. -/
theorem Along.congr {attempt other : Attempt ε σ α}
    {carried otherCarried : Attempt ε τ α} {state : σ}
    (same : attempt state = other state)
    (sameCarried : carried (carry state) = otherCarried (carry state))
    (along : Along carry other otherCarried state) :
    Along carry attempt carried state := by
  unfold Along at along ⊢
  rw [same, sameCarried, along]

theorem along_pure (value : α) (state : σ) :
    Along carry (pure value : Attempt ε σ α) (pure value) state := rfl

theorem along_fail (error : ε) (state : σ) :
    Along carry (fail error : Attempt ε σ α) (fail error) state := rfl

theorem along_bind {first : Attempt ε σ α} {rest : α → Attempt ε σ β}
    {firstCarried : Attempt ε τ α} {restCarried : α → Attempt ε τ β}
    {state : σ} (along : Along carry first firstCarried state)
    (alongRest : ∀ value reached, first state = (.ok value, reached) →
      Along carry (rest value) (restCarried value) reached) :
    Along carry (first >>= rest) (firstCarried >>= restCarried) state := by
  have carried := run_bind firstCarried restCarried (carry state)
  have plain := run_bind first rest state
  simp only [run] at carried plain
  unfold Along at along ⊢
  rw [carried, plain, along]
  cases outcome : first state with
  | mk result reached =>
      cases result with
      | error error => rfl
      | ok value => exact alongRest value reached outcome

/-- What follows a look may depend on the state looked at. -/
theorem along_look_bind {rest : σ → Attempt ε σ β}
    {restCarried : τ → Attempt ε τ β} {state : σ}
    (along : Along carry (rest state) (restCarried (carry state)) state) :
    Along carry (look >>= rest) (look >>= restCarried) state := along

theorem along_ofExcept (decision : Except ε α) (state : σ) :
    Along carry (ofExcept decision) (ofExcept decision) state := rfl

theorem along_ofOption (error : ε) (option : Option α) (state : σ) :
    Along carry (ofOption error option) (ofOption error option) state := by
  cases option <;> rfl

theorem along_update {change : σ → σ} {changeCarried : τ → τ} {state : σ}
    (same : changeCarried (carry state) = carry (change state)) :
    Along carry (update change : Attempt ε σ Unit) (update changeCarried)
      state :=
  congrArg (Prod.mk (Except.ok ())) same

theorem along_within {carryPart : π → ρ} {part : σ → π} {put : σ → π → σ}
    {partCarried : τ → ρ} {putCarried : τ → ρ → τ}
    {inner : Attempt ε π α} {innerCarried : Attempt ε ρ α} {state : σ}
    (sameParts : partCarried (carry state) = carryPart (part state))
    (samePuts : ∀ part, putCarried (carry state) (carryPart part) =
      carry (put state part))
    (along : Along carryPart inner innerCarried (part state)) :
    Along carry (within part put inner)
      (within partCarried putCarried innerCarried) state := by
  have carried := run_within partCarried putCarried innerCarried (carry state)
  have plain := run_within part put inner state
  simp only [run] at carried plain
  unfold Along at along ⊢
  rw [carried, plain, sameParts, along, samePuts]

end Attempt

end PositionalSearch
