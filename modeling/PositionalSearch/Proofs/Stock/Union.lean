import Mathlib.Algebra.BigOperators.Fin
import Mathlib.Algebra.Order.BigOperators.Group.Finset
import PositionalSearch.Proofs.Lasting.Nodes
import PositionalSearch.Proofs.Stock.Basic

/-!
# The stock of a union

A head was paid for when its child answered it, and the union answers it once
later on.  So the stock of a union is the stock of its children and the heads
that it has not answered.
-/

namespace PositionalSearch

open Attempt (Bills bills_look_bind)
open Cursor (Affords Charged Paid Rationed)

namespace HeadQueue

variable {ι : Type} [LinearOrder ι]

theorem size_receive (queue : HeadQueue ι) (child : ι) (span? : Option Span) :
    (queue.receive child span?).size = queue.size + span?.isSome.toNat := by
  have length := (queue.receive_perm child span?).length_eq
  cases span? <;> simp_all [HeadQueue.size]

theorem size_exchange (queue : HeadQueue ι) (filled : 0 < queue.heads.size)
    (span? : Option Span) :
    (queue.exchange filled span?).size + 1 =
      queue.size + span?.isSome.toNat := by
  have length := (queue.exchange_perm filled span?).length_eq
  cases span? <;> simp_all [HeadQueue.size] <;> omega

end HeadQueue

namespace Union

variable {σ : Type} {size : Nat} {stock : σ → Nat} {called : Nat → σ → Prop}
  {budget left : Nat} {stood : Standing} {node : Union σ size}

/-- The stock of all children. -/
def childStock (stock : σ → Nat) (node : Union σ size) : Nat :=
  ∑ child : Fin size, stock node.children[child]

/-- The heads that the union has not answered: all but the one it stands on. -/
def pending (node : Union σ size) : Nat :=
  if size ≤ node.entered ∧
      node.standing.span? = node.queue.least?.map Head.span then
    node.queue.size - 1
  else node.queue.size

/-- What the union may still answer. -/
def supply (stock : σ → Nat) (node : Union σ size) : Nat :=
  node.childStock stock + node.pending

theorem pending_le (node : Union σ size) : node.pending ≤ node.queue.size := by
  unfold pending
  split
  · exact Nat.sub_le _ _
  · exact Nat.le_refl _

theorem le_pending (node : Union σ size) :
    node.queue.size ≤ node.pending + 1 := by
  unfold pending
  split <;> omega

/-- Where a child moved, the sum is lowered by what was taken from its stock. -/
theorem childStock_keep {child : Fin size} {cursor : σ} {spent : Nat}
    (lowers : stock cursor + spent ≤ stock node.children[child]) :
    (node.keep child cursor).childStock stock + spent ≤
      node.childStock stock := by
  have same : ∀ other ∈ Finset.univ.erase child,
      stock (node.keep child cursor).children[other] =
        stock node.children[other] := by
    intro other isOther
    simp only [keep]
    rw [Lineup.getElem_set_fin, if_neg (Finset.ne_of_mem_erase isOther).symm]
  have moved : (node.keep child cursor).children[child] = cursor := by
    simp only [keep]
    rw [Lineup.getElem_set_fin, if_pos rfl]
  unfold childStock
  rw [← Finset.add_sum_erase _ _ (Finset.mem_univ child),
    ← Finset.add_sum_erase _ _ (Finset.mem_univ child),
    Finset.sum_congr rfl same, moved]
  omega

/-- Between moves all children are within the budget. -/
structure Called (stock : σ → Nat) (called : Nat → σ → Prop) (budget : Nat)
    (node : Union σ size) : Prop where
  seats : Seats (fun _ _ => True) node
  children : Each (fun _ => Affords stock called budget) node.children
  entered : ∀ span, node.standing = .on span → size ≤ node.entered

/--
A move of the union goes on.  The children that it may still call are within
the budget; the others ended, and with that went one call beyond it.
-/
structure Going (stock : σ → Nat) (called : Nat → σ → Prop)
    (budget left : Nat) (standing : Standing) (node : Union σ size) : Prop where
  seats : Seats (fun _ => Affords stock called budget) node
  children : Each (fun _ => Affords stock called (budget + 1)) node.children
  stands : node.standing = standing
  entered : ∀ span, standing = .on span → size ≤ node.entered
  within : node.supply stock ≤ left

theorem Called.going (isCalled : node.Called stock called budget) :
    Going stock called budget (node.supply stock) node.standing node where
  seats := ⟨fun head _ => isCalled.children head.child, isCalled.seats.apart,
    isCalled.seats.within, fun child _ => isCalled.children child⟩
  children child := (isCalled.children child).mono (Nat.le_succ _)
  stands := rfl
  entered := isCalled.entered
  within := Nat.le_refl _

namespace Going

variable (going : Going stock called budget left stood node)
include going

theorem isCalled : Called stock called (budget + 1) node where
  seats := ⟨fun _ _ => trivial, going.seats.apart, going.seats.within,
    fun _ _ => trivial⟩
  children := going.children
  entered := going.stands ▸ going.entered

/-- The union fails with the child that it moves. -/
theorem failed {child : Fin size} {cursor : σ}
    (paid : Paid stock called budget (stock node.children[child]) false
      cursor) :
    Charged (supply stock) (Called stock called) (budget + 1) left false
      (node.keep child cursor) := by
  have lowers : (node.keep child cursor).childStock stock + 0 ≤
      node.childStock stock := childStock_keep paid.2
  refine ⟨⟨⟨fun _ _ => trivial, going.seats.apart, going.seats.within,
    fun _ _ => trivial⟩, going.children.set paid.1, going.isCalled.entered⟩,
    ?_⟩
  have within := going.within
  have same : (node.keep child cursor).pending = node.pending := rfl
  simp only [supply, same] at within ⊢
  exact Nat.le_trans (Nat.add_le_add_right lowers _) within

/-- The next child was entered. -/
theorem enters (inside : node.entered < size) {cursor : σ}
    {span? : Option Span}
    (paid : Paid stock called budget
      (stock node.children[(⟨node.entered, inside⟩ : Fin size)]) span?.isSome
      cursor) :
    Going stock called budget left stood
      { node.keep ⟨node.entered, inside⟩ cursor with
        queue := node.queue.receive ⟨node.entered, inside⟩ span?
        entered := node.entered + 1 } := by
  refine ⟨going.seats.entered inside (HeadQueue.receive_perm _ _ span?) ?_,
    going.children.set paid.affords, going.stands,
    fun span isOn => Nat.le_succ_of_le (going.entered span isOn), ?_⟩
  · rintro span ⟨rfl⟩
    exact paid.1
  · have lowers := childStock_keep paid.stock_le
    have within := going.within
    have before : node.pending = node.queue.size :=
      if_neg fun current => Nat.not_le.mpr inside current.1
    have after := pending_le { node.keep ⟨node.entered, inside⟩ cursor with
      queue := node.queue.receive ⟨node.entered, inside⟩ span?
      entered := node.entered + 1 }
    rw [HeadQueue.size_receive] at after
    simp only [supply, childStock, before] at lowers within after ⊢
    omega

/-- The child of the least head was moved. -/
theorem moves (filled : 0 < node.queue.heads.size) {cursor : σ}
    {span? : Option Span}
    (paid : Paid stock called budget
      (stock node.children[node.queue.heads[0].child]) span?.isSome cursor) :
    Going stock called budget left stood
      { node.keep node.queue.heads[0].child cursor with
        queue := node.queue.exchange filled span? } := by
  refine ⟨going.seats.moved filled (HeadQueue.exchange_perm _ filled span?) ?_,
    going.children.set paid.affords, going.stands, going.entered, ?_⟩
  · rintro span ⟨rfl⟩
    exact paid.1
  · have lowers := childStock_keep paid.stock_le
    have within := going.within
    have before := le_pending node
    have after := pending_le { node.keep node.queue.heads[0].child cursor with
      queue := node.queue.exchange filled span? }
    have size := node.queue.size_exchange filled span?
    simp only [supply, childStock] at lowers within after ⊢
    omega

/--
The union settles on a head that it did not stand on before, or has none left.
-/
theorem bills_settle (entered : size ≤ node.entered)
    (other : ∀ least ∈ node.queue.least?,
      node.standing.span? ≠ some least.span) :
    settle.Bills (Charged (supply stock) (Called stock called) (budget + 1)
      left) node := by
  refine (Attempt.meets_of_ok (show settle node =
    (.ok (node.queue.least?.map Head.span), { node with
      standing := .after (node.queue.least?.map Head.span) }) from
    rfl)).mpr ?_
  have within := going.within
  refine ⟨⟨going.isCalled.seats.standing _, going.children,
    fun _ _ => entered⟩, ?_⟩
  have now : pending { node with
      standing := .after (node.queue.least?.map Head.span) } =
        node.queue.size - 1 := by
    refine if_pos ⟨entered, ?_⟩
    cases node.queue.least? <;> rfl
  rw [supply, now]
  cases isLeast : node.queue.least? with
  | none =>
      have empty : node.queue.size = 0 := by
        simpa [HeadQueue.least?, HeadQueue.size] using isLeast
      simp only [supply, childStock] at within ⊢
      simp only [empty, Option.map_none, Option.isSome_none,
        Bool.toNat_false]
      omega
  | some least =>
      obtain ⟨filled, _⟩ := Array.getElem?_eq_some_iff.mp isLeast
      have filled : 0 < node.queue.size := filled
      have before : node.pending = node.queue.size := by
        refine if_neg fun current => other least isLeast ?_
        rw [current.2, isLeast]
        rfl
      simp only [supply, childStock, before] at within ⊢
      simp only [Option.map_some, Option.isSome_some, Bool.toNat_true]
      omega

end Going

variable [Cursor σ] (below : Rationed stock called)
include below

/-- The children that were not entered are entered within the budget. -/
theorem charges_enterRest {node : Union σ size}
    (going : Going stock called budget left stood node)
    (target? : Option DocId) :
    (enterRest target?).Meets node
      (fun _ reached => Going stock called budget left stood reached ∧
        size ≤ reached.entered)
      fun failure reached => failure.Ordinary → Charged (supply stock)
        (Called stock called) (budget + 1) left false reached := by
  by_cases inside : node.entered < size
  · rw [meets_enterRest_of_lt inside]
    refine Attempt.Meets.mono (below.bills_enter (going.seats.rest
      ⟨node.entered, inside⟩ (Nat.le_refl _)) target?) ?_ ?_
    · intro span? cursor paid
      exact charges_enterRest (going.enters inside paid) target?
    · intro failure cursor paid ordinary
      exact going.failed (paid ordinary)
  · rw [meets_enterRest_of_le (Nat.not_lt.mp inside)]
    exact ⟨going, Nat.not_lt.mp inside⟩
termination_by size - node.entered

/-- The children that lag are moved within the budget. -/
theorem charges_moveLagging
    (going : Going stock called budget left stood node)
    (entered : size ≤ node.entered) (lags : Span → Bool) (move : Move)
    (moves : Nat) :
    (moveLagging lags (Cursor.go move) moves).Meets node
      (fun _ reached => Going stock called budget left stood reached ∧
        size ≤ reached.entered ∧
          ∀ least ∈ reached.queue.least?, lags least.span = false)
      fun failure reached => failure.Ordinary → Charged (supply stock)
        (Called stock called) (budget + 1) left false reached := by
  induction moves generalizing node with
  | zero =>
      rcases node.queue.exists_or_forall_least (lags ·.span) with
        ⟨filled, lagging⟩ | settled
      · rw [Attempt.meets_of_error
          (moveLagging_zero_of_lagging filled lagging)]
        exact fun ordinary => absurd rfl (ordinary _)
      · rw [meets_moveLagging_of_settled settled]
        exact ⟨going, entered, settled⟩
  | succ moves ih =>
      rcases node.queue.exists_or_forall_least (lags ·.span) with
        ⟨filled, lagging⟩ | settled
      · rw [meets_moveLagging_succ filled lagging]
        refine Attempt.Meets.mono (below.bills_go (going.seats.placed
          node.queue.heads[0] (by simp)) move) ?_ ?_
        · intro span? cursor paid
          exact ih (going.moves filled paid) entered
        · intro failure cursor paid ordinary
          exact going.failed (paid ordinary)
      · rw [meets_moveLagging_of_settled settled]
        exact ⟨going, entered, settled⟩

theorem bills_onward (going : Going stock called budget left stood node) :
    onward.Bills (Charged (supply stock) (Called stock called) (budget + 1)
      left) node := by
  apply bills_look_bind
  have stands := going.stands
  split
  · rename_i inside
    rw [Bills, Attempt.meets_bind]
    apply (charges_enterRest below going none).imp_answer
    rintro _ reached ⟨goingOn, entered⟩
    refine goingOn.bills_settle entered fun least _ isOn => ?_
    have isOn := Standing.span?_eq_some_iff.mp isOn
    exact Nat.not_le.mpr inside
      (going.entered _ (goingOn.stands.symm.trans isOn))
  · rename_i all
    have entered := Nat.not_lt.mp all
    cases isSpan : node.standing.span? with
    | none =>
        refine going.bills_settle entered fun least _ isOn => ?_
        rw [isSpan] at isOn
        cases isOn
    | some span =>
        simp only [movePast, Bills, Attempt.meets_bind, Attempt.meets_look]
        apply (charges_moveLagging below going entered _ .next _).imp_answer
        rintro _ reached ⟨goingOn, enteredOn, past⟩
        refine goingOn.bills_settle enteredOn fun least isLeast isOn => ?_
        rw [goingOn.stands, ← stands, isSpan] at isOn
        cases isOn
        simpa using past least isLeast

theorem bills_forward (going : Going stock called budget left stood node)
    {target : DocId} (goes : node.standing.planSeek target = .ok .forward) :
    (forward target).Bills (Charged (supply stock) (Called stock called)
      (budget + 1) left) node := by
  have stands := going.stands
  simp only [forward, seekLagging, Bills, Attempt.meets_bind,
    Attempt.meets_look]
  apply (charges_enterRest below going (some target)).imp_answer
  rintro _ middle ⟨goingOn, entered⟩
  apply (charges_moveLagging below goingOn entered _ (.seek target)
    _).imp_answer
  rintro _ reached ⟨goingOn, enteredOn, landed⟩
  refine goingOn.bills_settle enteredOn fun least isLeast isOn => ?_
  rw [goingOn.stands, ← stands, Standing.span?_eq_some_iff] at isOn
  have landed := landed least isLeast
  rw [isOn] at goes
  simp [Standing.doc_lt_of_planSeek goes] at landed

theorem rationed (bound : Nat) :
    Rationed (supply stock : Union σ size → Nat)
      fun calls => Called stock called (bound + calls) := by
  intro calls node isCalled move
  have going := isCalled.going
  exact planned.bills ⟨going.isCalled, Nat.le_refl _⟩
    (fun _ => bills_onward below going)
    (fun _ goes => bills_forward below going goes) move

end Union

end PositionalSearch
