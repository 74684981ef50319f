import PositionalSearch.Proofs.Lawful.Basic

/-!
# Calls and stocks

The stock of a cursor bounds the spans that it can still answer.  An answer is
paid for out of the stock; any other outcome of a call, of which a caller sees
at most one in a move of its own, is on the caller.  So the calls that a cursor
has taken are bounded by those that its caller has taken and by the stock with
which it began.  A breach is left out of the account, for no cursor of an opened
query fails with one.
-/

namespace PositionalSearch

namespace Attempt

variable {σ τ α β : Type} {bill weaker : Bool → σ → Prop}

/--
What is due after an attempt, according to whether it was answered; a failure is
no answer.
-/
def Bills (bill : Bool → σ → Prop) (attempt : Attempt Failure σ (Option α))
    (state : σ) : Prop :=
  attempt.Meets state (fun value? => bill value?.isSome)
    fun failure reached => failure.Ordinary → bill false reached

theorem Bills.mono {attempt : Attempt Failure σ (Option α)} {state : σ}
    (bills : attempt.Bills bill state)
    (weaken : ∀ answered reached, bill answered reached →
      weaker answered reached) : attempt.Bills weaker state :=
  Meets.mono bills (fun _ => weaken _) fun _ reached due ordinary =>
    weaken false reached (due ordinary)

/-- An attempt goes on where it was answered, and ends where it was not. -/
theorem Bills.bind {first : Attempt Failure σ (Option α)}
    {rest : Option α → Attempt Failure σ (Option β)} {state : σ}
    (bills : first.Bills bill state)
    (ends : ∀ reached, bill false reached → weaker false reached)
    (goesOn : ∀ value? reached, bill value?.isSome reached →
      (rest value?).Bills weaker reached) :
    (first >>= rest).Bills weaker state := by
  rw [Bills, meets_bind]
  exact Meets.mono bills (fun value? => goesOn value?)
    fun _ reached due ordinary => ends reached (due ordinary)

/-- What follows a look may depend on the state looked at. -/
theorem bills_look_bind {rest : σ → Attempt Failure σ (Option α)} {state : σ}
    (bills : (rest state).Bills bill state) :
    (look >>= rest).Bills bill state := bills

/-- Work on a part is billed for what it comes to there. -/
theorem bills_within {part : σ → τ} {put : σ → τ → σ}
    {inner : Attempt Failure τ (Option α)} {inside : Bool → τ → Prop}
    {state : σ} (bills : inner.Bills inside (part state))
    (puts : ∀ answered reached, inside answered reached →
      bill answered (put state reached)) :
    (within part put inner).Bills bill state := by
  rw [Bills, meets_within]
  exact Meets.mono bills (fun _ reached => puts _ reached)
    fun _ reached due ordinary => puts false reached (due ordinary)

end Attempt

namespace Cursor

variable {σ : Type} [Cursor σ] {stock : σ → Nat} {called : Nat → σ → Prop}
  {budget left : Nat} {cursor : σ}

/-- Calls were made of the cursor, and it has at most so much left. -/
def Charged (stock : σ → Nat) (called : Nat → σ → Prop) (calls left : Nat)
    (answered : Bool) (reached : σ) : Prop :=
  called calls reached ∧ stock reached + answered.toNat ≤ left

/-- Each move is one more call, and an answer is taken out of the stock. -/
def Rationed (stock : σ → Nat) (called : Nat → σ → Prop) : Prop :=
  ∀ ⦃calls : Nat⦄ ⦃cursor : σ⦄, called calls cursor → ∀ move : Move,
    (go move).Bills (Charged stock called (calls + 1) (stock cursor)) cursor

/-- The calls made of a cursor and its stock are within a budget. -/
def Affords (stock : σ → Nat) (called : Nat → σ → Prop) (budget : Nat)
    (cursor : σ) : Prop :=
  ∃ calls, calls + stock cursor ≤ budget ∧ called calls cursor

/-- An answer is paid for out of the stock, and no answer by the caller. -/
def Paid (stock : σ → Nat) (called : Nat → σ → Prop) (budget left : Nat) :
    Bool → σ → Prop
  | true, reached => Affords stock called budget reached ∧ stock reached < left
  | false, reached =>
      Affords stock called (budget + 1) reached ∧ stock reached ≤ left

omit [Cursor σ] in
theorem Affords.mono {more : Nat} (affords : Affords stock called budget cursor)
    (covers : budget ≤ more) : Affords stock called more cursor :=
  let ⟨calls, within, isCalled⟩ := affords
  ⟨calls, Nat.le_trans within covers, isCalled⟩

namespace Paid

variable {answered : Bool}

omit [Cursor σ] in
theorem affords (paid : Paid stock called budget left answered cursor) :
    Affords stock called (budget + 1) cursor := by
  cases answered with
  | false => exact paid.1
  | true => exact paid.1.mono (Nat.le_succ _)

omit [Cursor σ] in
theorem stock_le (paid : Paid stock called budget left answered cursor) :
    stock cursor + answered.toNat ≤ left := by
  cases answered with
  | false => exact paid.2
  | true => exact paid.2

omit [Cursor σ] in
/-- What has less left pays no more. -/
theorem of_le {more : Nat}
    (paid : Paid stock called budget left answered cursor)
    (atMost : left ≤ more) :
    Paid stock called budget more answered cursor := by
  cases answered with
  | false => exact ⟨paid.1, Nat.le_trans paid.2 atMost⟩
  | true => exact ⟨paid.1, Nat.lt_of_lt_of_le paid.2 atMost⟩

omit [Cursor σ] in
/-- What was paid for an answer is enough where nothing is answered. -/
theorem unanswered (paid : Paid stock called budget left true cursor) :
    Paid stock called budget left false cursor :=
  ⟨paid.affords, Nat.le_of_lt paid.2⟩

end Paid

namespace Rationed

variable (rationed : Rationed stock called)
  (affords : Affords stock called budget cursor)
include rationed affords

/-- What a move costs that is made of a cursor within its budget. -/
theorem bills_go (move : Move) :
    (go move).Bills (Paid stock called budget (stock cursor)) cursor := by
  obtain ⟨calls, within, isCalled⟩ := affords
  refine (rationed isCalled move).mono ?_
  rintro answered reached ⟨calledOn, lowers⟩
  cases answered with
  | false =>
      have lowers : stock reached ≤ stock cursor := lowers
      exact ⟨⟨calls + 1, by omega, calledOn⟩, lowers⟩
  | true =>
      have lowers : stock reached + 1 ≤ stock cursor := lowers
      exact ⟨⟨calls + 1, by omega, calledOn⟩, lowers⟩

theorem bills_enter (target? : Option DocId) :
    (enter target?).Bills (Paid stock called budget (stock cursor)) cursor := by
  cases target? with
  | none => exact rationed.bills_go affords .next
  | some target => exact rationed.bills_go affords (.seek target)

omit rationed affords [Cursor σ] in
/-- A span that is refused for not being later is a breach. -/
theorem bills_demandBeyond {span? : Option Span}
    (paid : Paid stock called budget left span?.isSome cursor) (span : Span) :
    (demandBeyond span span?).Bills (Paid stock called budget left) cursor := by
  unfold demandBeyond
  cases span? with
  | none => exact paid
  | some later =>
      dsimp only
      split
      · exact paid
      · exact fun ordinary => absurd rfl (ordinary _)

theorem bills_nextBeyond (span : Span) :
    (nextBeyond span).Bills (Paid stock called budget (stock cursor))
      cursor :=
  (rationed.bills_go affords .next).bind (fun _ paid => paid)
    fun _ _ paid => bills_demandBeyond paid span

/-- Where there is no later document the cursor is not called. -/
theorem bills_nextDocument (span : Span) :
    (nextDocument span).Bills (Paid stock called budget (stock cursor))
      cursor := by
  unfold nextDocument
  cases span.doc.after? with
  | none => exact ⟨affords.mono (Nat.le_succ _), Nat.le_refl _⟩
  | some target =>
      exact (rationed.bills_go affords (.seek target)).bind
        (fun _ paid => paid) fun _ _ paid => bills_demandBeyond paid span

end Rationed

/-- A planned cursor is billed for a refusal as for its ways to move. -/
theorem Planned.bills {onward : Attempt Failure σ (Option Span)}
    {forward : DocId → Attempt Failure σ (Option Span)}
    (planned : Planned onward forward) {bill : Bool → σ → Prop}
    (refused : bill false cursor)
    (goesOn : (standing cursor).planNext = .ok true →
      onward.Bills bill cursor)
    (goesForward : ∀ target, (standing cursor).planSeek target = .ok .forward →
      (forward target).Bills bill cursor) (move : Move) :
    (go move).Bills bill cursor := by
  cases move with
  | next =>
      exact planned.meets_next (fun _ _ => refused) (fun _ => refused) goesOn
  | seek target =>
      refine planned.meets_seek (fun _ _ => refused) (fun _ => refused)
        (fun _ _ _ _ => refused) (fun span isOn _ => goesOn ?_)
        (goesForward target)
      rw [isOn]
      rfl

end Cursor

end PositionalSearch
