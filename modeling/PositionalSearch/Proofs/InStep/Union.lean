import PositionalSearch.Proofs.InStep.Candor
import PositionalSearch.Proofs.Order.Union

/-!
# Unions are candid

A union asks a child only for documents after that of its head, and enters a
child anywhere.  So as long as no child is in a later document than its head,
and those not entered yet are in none, no child is asked to go back.
-/

namespace PositionalSearch

open Attempt (Upholds upholds_look_bind)
open Cursor (Admits Candid Seen)

namespace Union

variable {σ : Type} [Cursor σ] {fit : σ → Prop} {size : Nat}
  {node : Union σ size}

/-- The children keep pace with their heads, if the union goes on. -/
def InStep (fit : σ → Prop) (node : Union σ size) : Prop :=
  node.standing.planNext = .ok true → node.Seats (Seen fit)

theorem upholds_enterRest (below : Candid fit) {node : Union σ size}
    (seats : node.Seats (Seen fit)) (target? : Option DocId) :
    (enterRest target?).Upholds (Seats (Seen fit)) node := by
  unfold Upholds
  by_cases inside : node.entered < size
  · rw [meets_enterRest_of_lt inside]
    have seen := seats.rest ⟨node.entered, inside⟩ (Nat.le_refl _)
    apply (below.meets_enter seen target?).imp_answer
    intro span? cursor answered
    refine upholds_enterRest below (seats.entered inside
      (HeadQueue.receive_perm _ _ span?) ?_) target?
    rintro _ ⟨rfl⟩
    exact answered
  · rw [meets_enterRest_of_le (Nat.not_lt.mp inside)]
    exact seats
termination_by size - node.entered

/-- Children that lag are moved by steps that refuse none of them. -/
theorem upholds_moveLagging {lags : Span → Bool}
    {step : Attempt Failure σ (Option Span)}
    (steps : ∀ {span : Span} {cursor : σ}, lags span →
      Seen fit (some span) cursor →
        step.Meets cursor (Seen fit)
          (fun failure _ => failure.isRefusal = false))
    (seats : node.Seats (Seen fit)) (moves : Nat) :
    (moveLagging lags step moves).Upholds (Seats (Seen fit)) node := by
  unfold Upholds
  induction moves generalizing node with
  | zero =>
      cases behind : node.queue.least?.any fun head => lags head.span with
      | true =>
          refine (Attempt.meets_of_error (show moveLagging lags step 0 node =
            (.error (.breach .backwardMove), node) by
              simp only [moveLagging, behind, ↓reduceIte])).mpr ?_
          rfl
      | false =>
          refine (Attempt.meets_of_ok (show moveLagging lags step 0 node =
            (.ok (), node) by
              simp only [moveLagging, behind, Bool.false_eq_true,
                ↓reduceIte])).mpr ?_
          exact seats
  | succ moves ih =>
      rcases node.queue.exists_or_forall_least (lags ·.span) with
        ⟨filled, lagging⟩ | settled
      · rw [meets_moveLagging_succ filled lagging]
        have seen := seats.placed node.queue.heads[0] (by simp)
        apply (steps lagging seen).imp_answer
        intro span? cursor answered
        apply ih
        apply seats.moved filled (HeadQueue.exchange_perm _ filled span?)
        rintro _ ⟨rfl⟩
        exact answered
      · rw [meets_moveLagging_of_settled settled]
        exact seats

theorem upholds_movePast (below : Candid fit) (seats : node.Seats (Seen fit))
    (span : Span) : (movePast span).Upholds (Seats (Seen fit)) node := by
  apply upholds_look_bind
  exact upholds_moveLagging (fun _ seen => below.meets_next seen) seats _

theorem upholds_seekLagging (below : Candid fit)
    (seats : node.Seats (Seen fit)) (target : DocId) :
    (seekLagging target).Upholds (Seats (Seen fit)) node := by
  apply upholds_look_bind
  apply upholds_moveLagging _ seats
  intro span cursor lags seen
  apply below.meets_seek seen
  rintro _ ⟨rfl⟩
  exact UInt64.le_of_lt (of_decide_eq_true lags)

theorem admits_settle (seats : node.Seats (Seen fit)) :
    Admits (InStep fit) settle node :=
  ⟨fun _ => seats.standing _, rfl⟩

theorem admits_onward (below : Candid fit) (seats : node.Seats (Seen fit)) :
    Admits (InStep fit) onward node := by
  have goesOn : ∀ {work : Attempt Failure (Union σ size) Unit},
      work.Upholds (Seats (Seen fit)) node →
        Admits (InStep fit) (do work; settle) node := by
    intro work upholds
    rw [Admits, Attempt.meets_bind]
    exact upholds.imp_answer fun _ _ seatsOn => admits_settle seatsOn
  rw [Admits, onward, Attempt.meets_bind, Attempt.meets_look]
  split
  · exact goesOn (upholds_enterRest below seats none)
  · cases node.standing.span? with
    | none => exact admits_settle seats
    | some span => exact goesOn (upholds_movePast below seats span)

theorem admits_forward (below : Candid fit) (seats : node.Seats (Seen fit))
    (target : DocId) : Admits (InStep fit) (forward target) node := by
  simp only [Admits, forward, Attempt.meets_bind]
  apply (upholds_enterRest below seats (some target)).imp_answer
  intro _ middle seatsOn
  exact (upholds_seekLagging below seatsOn target).imp_answer
    fun _ _ seatsLast => admits_settle seatsLast

theorem candid (below : Candid fit) :
    Candid (InStep fit : Union σ size → Prop) := by
  apply planned.candid
  · exact fun inStep goes => admits_onward below (inStep goes)
  · intro node target inStep goes
    exact admits_forward below (inStep (Standing.planNext_of_planSeek goes))
      target
  · intro node failure failed
    refine Standing.isRefusal_requireSpan failed fun refused => ?_
    cases least : node.queue.least? with
    | none =>
        simp only [least] at refused
        cases refused
    | some head =>
        simp only [least] at refused
        exact below.payloads refused
  · exact fun isClosed goes =>
      absurd goes (Standing.not_planNext_of_closed isClosed)

theorem inStep_ofCursors {cursors : Vector σ size}
    (seen : ∀ child : Fin size, Seen fit none cursors[child]) :
    InStep fit (ofCursors cursors) :=
  fun _ => ⟨nofun, .nil, nofun, fun child _ => seen child⟩

end Union

end PositionalSearch
