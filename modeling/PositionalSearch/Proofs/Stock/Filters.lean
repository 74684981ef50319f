import PositionalSearch.Proofs.Order.Filters
import PositionalSearch.Proofs.Stock.Basic

/-!
# The stock of a node that leaves spans out

A meter, a region and an exclusion answer spans of one child only, so its stock
is theirs.  The child is called again after each span that is left out, and that
span was paid for by its own stock.
-/

namespace PositionalSearch

open Attempt (Bills bills_look_bind bills_within)
open Cursor (Affords Paid Rationed)

variable {σ : Type} [Cursor σ] {stock : σ → Nat} {called : Nat → σ → Prop}
  {bound budget left : Nat}

/-! ## Meters -/

namespace Metered

/-- The child was called so often, and the meter shows no more moves. -/
structure Called (called : Nat → σ → Prop) (calls : Nat) (node : Metered σ) :
    Prop where
  shown : node.reading.nexts + node.reading.seeks ≤ calls
  child : called calls node.child

/-- Whatever a counted move comes to, one more is shown. -/
theorem shown_go (node : Metered σ) (move : Move) :
    (Cursor.go move node).2.reading.nexts +
      (Cursor.go move node).2.reading.seeks =
        node.reading.nexts + node.reading.seeks + 1 := by
  rw [go_eq]
  unfold counting
  cases Cursor.go move node.child with
  | mk outcome child =>
      cases move with
      | next => cases outcome with
        | error failure => simp only [tick]; omega
        | ok span? => cases span? <;> simp only [tick] <;> omega
      | seek target => cases outcome with
        | error failure => simp only [tick]; omega
        | ok span? => cases span? <;> simp only [tick] <;> omega

theorem rationed (below : Rationed stock called) :
    Rationed (fun node : Metered σ => stock node.child) (Called called) := by
  intro calls node isCalled move
  have counts : (Cursor.go move).Sustains Failure.Ordinary
      (fun reached : Metered σ =>
        reached.reading.nexts + reached.reading.seeks ≤ calls + 1) node :=
    Attempt.sustains_of_reached
      (shown_go node move ▸ Nat.succ_le_succ isCalled.shown)
  refine (Attempt.Meets.and counts
    (meets_go (below isCalled.child move))).mono ?_ ?_
  · rintro span? reached ⟨shown, isCalled, lowers⟩
    exact ⟨⟨shown, isCalled⟩, lowers⟩
  · rintro failure reached ⟨shown, charged⟩ ordinary
    exact ⟨⟨shown ordinary, (charged ordinary).1⟩, (charged ordinary).2⟩

end Metered

/-! ## Regions -/

namespace Region

variable {node : Region σ}

/-- The child was called no more often than the node and its stock allow. -/
def Called (stock : σ → Nat) (called : Nat → σ → Prop) (bound calls : Nat)
    (node : Region σ) : Prop :=
  Affords stock called (bound + calls) node.child

/-- What is due for the child. -/
def Billed (stock : σ → Nat) (called : Nat → σ → Prop) (budget left : Nat)
    (answered : Bool) (node : Region σ) : Prop :=
  Paid stock called budget left answered node.child

theorem bills_settleFrom (below : Rationed stock called) {node : Region σ}
    (billed : node.Billed stock called budget left true) (span : Span) :
    (settleFrom span).Bills (Billed stock called budget left) node := by
  rw [settleFrom]
  apply bills_look_bind
  split
  · exact billed
  · have moved : (if node.high < span.start then Cursor.nextDocument span
        else Cursor.nextBeyond span).Bills
          (Paid stock called budget (stock node.child)) node.child := by
      split
      · exact below.bills_nextDocument billed.1 span
      · exact below.bills_nextBeyond billed.1 span
    have paid : (moving (if node.high < span.start then
        Cursor.nextDocument span else Cursor.nextBeyond span)).Bills
          (Billed stock called budget left) node :=
      bills_within moved fun _ _ paid => paid.of_le (Nat.le_of_lt billed.2)
    refine paid.bind (fun _ billed => billed) ?_
    · rintro (_ | ⟨later, beyond⟩) reached billed
      · exact billed
      · have := Span.room_lt_room beyond
        exact bills_settleFrom below billed later
termination_by span.room

theorem bills_keep (below : Rationed stock called) {span? : Option Span}
    (billed : node.Billed stock called budget left span?.isSome) :
    (keep span?).Bills (Billed stock called budget left) node := by
  cases span? with
  | none => exact billed
  | some span =>
      apply bills_look_bind
      split
      · exact Paid.unanswered billed
      · exact bills_settleFrom below billed span

theorem rationed (below : Rationed stock called) :
    Rationed (fun node : Region σ => stock node.child)
      (Called stock called bound) := by
  intro calls node isCalled move
  have goes : ∀ move : Move,
      (moving (Cursor.go move) >>= keep).Bills
        (Billed stock called (bound + calls) (stock node.child)) node :=
    fun move => Bills.bind
      (bills_within (below.bills_go isCalled move) fun _ _ paid => paid)
      (fun _ paid => paid) fun _ _ billed => bills_keep below billed
  have refused : Billed stock called (bound + calls) (stock node.child) false
      node := ⟨isCalled.mono (Nat.le_succ _), Nat.le_refl _⟩
  have bills := planned.bills refused (fun _ => goes .next)
    (fun target _ => goes (.seek target)) move
  exact bills.mono fun _ _ billed => ⟨billed.affords, billed.stock_le⟩

end Region

/-! ## Exclusions -/

namespace Without

variable {node : Without σ}

/-- The children were called no more often than is accounted for. -/
structure Called (stock : σ → Nat) (called : Nat → σ → Prop)
    (bound calls : Nat) (node : Without σ) : Prop where
  included : Affords stock called (bound + calls) node.included
  excluded : Affords stock called (bound + calls) node.excluded

/-- What is due for the children. -/
structure Billed (stock : σ → Nat) (called : Nat → σ → Prop)
    (budget left : Nat) (answered : Bool) (node : Without σ) : Prop where
  included : Paid stock called budget left answered node.included
  excluded : Affords stock called (budget + 1) node.excluded

/--
A span of the included child is under test.  The excluded child is within its
budget, unless it has ended, and then it is not called again.
-/
structure Testing (stock : σ → Nat) (called : Nat → σ → Prop)
    (budget left : Nat) (node : Without σ) : Prop where
  included : Paid stock called budget left true node.included
  excluded : Affords stock called budget node.excluded ∨
    Affords stock called (budget + 1) node.excluded ∧ node.barrier = .lifted

omit [Cursor σ] in
theorem Testing.billed (testing : Testing stock called budget left node) :
    Billed stock called budget left true node := by
  refine ⟨testing.included, ?_⟩
  rcases testing.excluded with within | ⟨ended, _⟩
  · exact within.mono (Nat.le_succ _)
  · exact ended

omit [Cursor σ] in
theorem Billed.unanswered (billed : Billed stock called budget left true node) :
    Billed stock called budget left false node :=
  ⟨billed.included.unanswered, billed.excluded⟩

/-- A barrier that is answered may be moved again. -/
def Movable (stock : σ → Nat) (called : Nat → σ → Prop) (budget left : Nat)
    (barrier? : Option Span) (node : Without σ) : Prop :=
  Testing stock called budget left node ∧
    (barrier?.isSome → Affords stock called budget node.excluded)

omit [Cursor σ] in
/-- Without a barrier there is none to move. -/
theorem Testing.movable (testing : Testing stock called budget left node) :
    Movable stock called budget left none node :=
  ⟨testing, fun isSome => absurd isSome Bool.false_ne_true⟩

theorem billed_seekBarrier (below : Rationed stock called)
    (included : Paid stock called budget left true node.included)
    (excluded : Affords stock called budget node.excluded) (doc : DocId) :
    (seekBarrier doc).Meets node (Movable stock called budget left)
      fun failure reached => failure.Ordinary →
        Billed stock called budget left false reached := by
  simp only [seekBarrier, excluding, noteBarrier, Attempt.meets_bind,
    Attempt.meets_within, Attempt.meets_update, Attempt.meets_pure]
  refine Attempt.Meets.mono (below.bills_go excluded (.seek doc)) ?_ ?_
  · intro span? cursor paid
    cases span? with
    | none => exact Testing.movable ⟨included, .inr ⟨paid.1, rfl⟩⟩
    | some span => exact ⟨⟨included, .inl paid.1⟩, fun _ => paid.1⟩
  · exact fun _ _ paid ordinary =>
      ⟨included.unanswered, (paid ordinary).affords⟩

theorem billed_barrierIn (below : Rationed stock called)
    (testing : Testing stock called budget left node) (doc : DocId) :
    (barrierIn doc).Meets node (Movable stock called budget left)
      fun failure reached => failure.Ordinary →
        Billed stock called budget left false reached := by
  have within : node.barrier ≠ .lifted →
      Affords stock called budget node.excluded := fun stands =>
    testing.excluded.resolve_right fun ended => stands ended.2
  have sought : node.barrier ≠ .lifted →
      (do
        let span? ← seekBarrier doc
        pure (span?.filter fun span => span.doc = doc) :
          Attempt Failure (Without σ) _).Meets node
        (Movable stock called budget left)
        fun failure reached => failure.Ordinary →
          Billed stock called budget left false reached := by
    intro stands
    rw [Attempt.meets_bind]
    apply (billed_seekBarrier below testing.included (within stands)
      doc).imp_answer
    rintro span? reached ⟨testing, moves⟩
    cases span? with
    | none => exact testing.movable
    | some span => exact ⟨testing, fun _ => moves rfl⟩
  rw [barrierIn, Attempt.meets_bind, Attempt.meets_look]
  cases barrier : node.barrier with
  | lifted => exact testing.movable
  | unread => exact sought (by simp [barrier])
  | on span =>
      have stands : node.barrier ≠ .lifted := by simp [barrier]
      dsimp only
      split
      · exact sought stands
      · exact ⟨testing, fun _ => within stands⟩

/-- The excluded child is moved on as long as it answers spans. -/
theorem billed_passBefore (below : Rationed stock called) {node : Without σ}
    {span : Span} (movable : Movable stock called budget left (some span) node)
    (doc : DocId) (edge : Nat) :
    (passBefore doc edge span).Meets node
      (fun _ => Testing stock called budget left)
      fun failure reached => failure.Ordinary →
        Billed stock called budget left false reached := by
  obtain ⟨⟨included, _⟩, moves⟩ := movable
  rw [passBefore]
  split
  · exact ⟨included, .inl (moves rfl)⟩
  · simp only [excluding, noteBarrier, Attempt.meets_bind,
      Attempt.meets_within]
    refine Attempt.Meets.mono (below.bills_nextBeyond (moves rfl) span) ?_ ?_
    · rintro (_ | ⟨later, beyond⟩) cursor paid
      · exact ⟨included, .inr ⟨paid.1, rfl⟩⟩
      · have := Span.room_lt_room beyond
        have movable : Movable stock called budget left (some later)
            { node with excluded := cursor, barrier := .on later } :=
          ⟨⟨included, .inl paid.1⟩, fun _ => paid.1⟩
        dsimp only
        rw [Attempt.meets_bind, Attempt.meets_update]
        split
        · exact billed_passBefore below movable doc edge
        · exact movable.1
    · exact fun _ _ paid ordinary =>
        ⟨included.unanswered, (paid ordinary).affords⟩
termination_by span.room

theorem billed_clashes (below : Rationed stock called)
    (testing : Testing stock called budget left node) (span : Span) :
    (clashes span).Meets node (fun _ => Testing stock called budget left)
      fun failure reached => failure.Ordinary →
        Billed stock called budget left false reached := by
  simp only [clashes, Attempt.meets_bind, Attempt.meets_look]
  cases node.clash with
  | inDocument =>
      simp only [Attempt.meets_bind]
      exact (billed_barrierIn below testing span.doc).imp_answer
        fun _ _ movable => movable.1
  | overlap before behind =>
      simp only [Attempt.meets_bind]
      apply (billed_barrierIn below testing span.doc).imp_answer
      intro nearest? reached movable
      cases nearest? with
      | none => exact movable.1
      | some nearest =>
          dsimp only
          rw [Attempt.meets_bind]
          exact billed_passBefore below movable span.doc _

theorem bills_nextCandidate (below : Rationed stock called)
    (testing : Testing stock called budget left node) (span : Span) :
    (nextCandidate span).Bills (fun answered reached =>
      Billed stock called budget left answered reached ∧
        (answered → Testing stock called budget left reached)) node := by
  have moves : ∀ step : Attempt Failure σ
      (Option { later : Span // span < later }),
      step.Bills (Paid stock called budget (stock node.included))
        node.included →
      (including step).Bills (fun answered reached =>
        Billed stock called budget left answered reached ∧
          (answered → Testing stock called budget left reached)) node := by
    intro step bills
    refine bills_within bills fun answered cursor paid => ?_
    have paid := paid.of_le (Nat.le_of_lt testing.included.2)
    refine ⟨⟨paid, testing.billed.excluded⟩, ?_⟩
    rintro rfl
    exact ⟨paid, testing.excluded⟩
  apply bills_look_bind
  cases node.clash with
  | inDocument =>
      exact moves _ (below.bills_nextDocument testing.included.1 span)
  | overlap _ _ =>
      exact moves _ (below.bills_nextBeyond testing.included.1 span)

theorem bills_settleFrom (below : Rationed stock called) {node : Without σ}
    (testing : Testing stock called budget left node) (span : Span) :
    (settleFrom span).Bills (Billed stock called budget left) node := by
  rw [settleFrom, Bills, Attempt.meets_bind]
  apply (billed_clashes below testing span).imp_answer
  intro clashes middle testing
  split
  · refine (bills_nextCandidate below testing span).bind
      (fun _ billed => billed.1) ?_
    rintro (_ | ⟨later, beyond⟩) reached ⟨billed, goesOn⟩
    · exact ⟨billed.included, billed.excluded⟩
    · have := Span.room_lt_room beyond
      exact bills_settleFrom below (goesOn rfl) later
  · exact ⟨testing.included, testing.billed.excluded⟩
termination_by span.room

theorem rationed (below : Rationed stock called) :
    Rationed (fun node : Without σ => stock node.included)
      (Called stock called bound) := by
  intro calls node isCalled move
  have goes : ∀ move : Move, (including (Cursor.go move) >>= keep).Bills
      (Billed stock called (bound + calls) (stock node.included)) node := by
    intro move
    have moved : (including (Cursor.go move)).Bills (fun answered reached =>
        Paid stock called (bound + calls) (stock node.included) answered
          reached.included ∧
            Affords stock called (bound + calls) reached.excluded) node :=
      bills_within (below.bills_go isCalled.included move)
        fun _ _ paid => ⟨paid, isCalled.excluded⟩
    refine moved.bind ?_ ?_
    · exact fun _ ⟨included, excluded⟩ =>
        ⟨included, excluded.mono (Nat.le_succ _)⟩
    · rintro span? reached ⟨included, excluded⟩
      cases span? with
      | none => exact ⟨included, excluded.mono (Nat.le_succ _)⟩
      | some span => exact bills_settleFrom below ⟨included, .inl excluded⟩ span
  have refused : Billed stock called (bound + calls) (stock node.included)
      false node :=
    ⟨⟨isCalled.included.mono (Nat.le_succ _), Nat.le_refl _⟩,
      isCalled.excluded.mono (Nat.le_succ _)⟩
  have bills := planned.bills refused (fun _ => goes .next)
    (fun target _ => goes (.seek target)) move
  exact bills.mono fun _ _ billed =>
    ⟨⟨billed.included.affords, billed.excluded⟩, billed.included.stock_le⟩

end Without

end PositionalSearch
