import PositionalSearch.Proofs.Exact.Basic
import PositionalSearch.Proofs.Lasting.Nodes

/-!
# Unions are exact

A child of a union stands on its head in the queue, or was not entered yet, or
has ended and has no head.  Only children with a head are moved, and those not
entered yet are entered.
-/

namespace PositionalSearch

open Cursor (Arrives Guided Left Stands Reliable)

namespace Union

variable {σ : Type} [Cursor σ] {fit : σ → Prop} {size : Nat}
  {node : Union σ size}

/-- All children are fit, and those with a head stand on it. -/
structure Manned (fit : σ → Prop) (node : Union σ size) : Prop where
  each : Each (fun _ => fit) node.children
  seats : node.Seats (Stands fit)

/-- The children stand where the union saw them, if the union goes on. -/
structure Exact (fit : σ → Prop) (node : Union σ size) : Prop where
  each : Each (fun _ => fit) node.children
  seats : node.standing.planNext = .ok true → node.Seats (Stands fit)

theorem Exact.manned (exact : node.Exact fit)
    (goes : node.standing.planNext = .ok true) : node.Manned fit :=
  ⟨exact.each, exact.seats goes⟩

theorem guided_enterRest (guided : Guided fit) {node : Union σ size}
    (manned : node.Manned fit) (target? : Option DocId) :
    (enterRest target?).Meets node (fun _ => Manned fit) fun _ _ => True := by
  by_cases inside : node.entered < size
  · rw [meets_enterRest_of_lt inside]
    have waits := manned.seats.rest ⟨node.entered, inside⟩ (Nat.le_refl _)
    apply (guided.meets_enter waits target?).mono
    · intro span? cursor left
      refine guided_enterRest guided ⟨manned.each.set left.fit, ?_⟩ target?
      refine manned.seats.entered inside
        (HeadQueue.receive_perm _ _ span?) ?_
      rintro _ ⟨rfl⟩
      exact left.stands
    · exact fun _ _ _ => trivial
  · rw [meets_enterRest_of_le (Nat.not_lt.mp inside)]
    exact manned
termination_by size - node.entered

/-- Children that lag are moved by steps that leave them where they answer. -/
theorem guided_moveLagging {lags : Span → Bool}
    {step : Attempt Failure σ (Option Span)}
    (steps : ∀ {span : Span} {cursor : σ}, lags span →
      Stands fit (some span) cursor →
        step.Meets cursor (Left fit) fun _ _ => True)
    (manned : node.Manned fit) (moves : Nat) :
    (moveLagging lags step moves).Meets node (fun _ => Manned fit)
      fun _ _ => True := by
  induction moves generalizing node with
  | zero =>
      cases behind : node.queue.least?.any fun head => lags head.span with
      | true =>
          refine (Attempt.meets_of_error (show moveLagging lags step 0 node =
            (.error (.breach .backwardMove), node) by
              simp only [moveLagging, behind, ↓reduceIte])).mpr ?_
          trivial
      | false =>
          refine (Attempt.meets_of_ok (show moveLagging lags step 0 node =
            (.ok (), node) by
              simp only [moveLagging, behind, Bool.false_eq_true,
                ↓reduceIte])).mpr ?_
          exact manned
  | succ moves ih =>
      rcases node.queue.exists_or_forall_least (lags ·.span) with
        ⟨filled, lagging⟩ | settled
      · rw [meets_moveLagging_succ filled lagging]
        have stands := manned.seats.placed node.queue.heads[0] (by simp)
        apply (steps lagging stands).mono
        · intro span? cursor left
          refine ih ⟨manned.each.set left.fit, ?_⟩
          apply manned.seats.moved filled
            (HeadQueue.exchange_perm _ filled span?)
          rintro _ ⟨rfl⟩
          exact left.stands
        · exact fun _ _ _ => trivial
      · rw [meets_moveLagging_of_settled settled]
        exact manned

theorem arrives_settle (manned : node.Manned fit) :
    Arrives (Exact fit) settle node :=
  ⟨⟨manned.each, fun _ => manned.seats.standing _⟩, rfl⟩

theorem arrives_onward (guided : Guided fit) (manned : node.Manned fit) :
    Arrives (Exact fit) onward node := by
  rw [Arrives, onward, Attempt.meets_bind, Attempt.meets_look]
  split
  · rw [Attempt.meets_bind]
    exact (guided_enterRest guided manned none).imp_answer
      fun _ _ mannedOn => arrives_settle mannedOn
  · cases node.standing.span? with
    | none => exact arrives_settle manned
    | some span =>
        rw [Attempt.meets_bind, movePast, Attempt.meets_bind,
          Attempt.meets_look]
        exact (guided_moveLagging (fun _ stands => guided.meets_next stands)
          manned _).imp_answer fun _ _ mannedOn => arrives_settle mannedOn

theorem arrives_forward (guided : Guided fit) (manned : node.Manned fit)
    (target : DocId) : Arrives (Exact fit) (forward target) node := by
  simp only [Arrives, forward, seekLagging, Attempt.meets_bind,
    Attempt.meets_look]
  apply (guided_enterRest guided manned (some target)).imp_answer
  intro _ middle mannedOn
  refine (guided_moveLagging (fun lags stands => ?_) mannedOn _).imp_answer
    fun _ _ mannedLast => arrives_settle mannedLast
  apply guided.meets_seek stands
  rintro _ ⟨rfl⟩
  exact UInt64.le_of_lt (of_decide_eq_true lags)

theorem reliable (guided : Guided fit) :
    Reliable (Exact fit : Union σ size → Prop) :=
  planned.reliable
    (fun exact goes => arrives_onward guided (exact.manned goes))
    fun exact goes => arrives_forward guided
      (exact.manned (Standing.planNext_of_planSeek goes)) _

theorem exact_ofCursors {cursors : Vector σ size}
    (stands : ∀ child : Fin size, Stands fit none cursors[child]) :
    Exact fit (ofCursors cursors) :=
  ⟨fun child => (stands child).fit,
    fun _ => ⟨nofun, .nil, nofun, fun child _ => stands child⟩⟩

theorem Exact.closed (exact : node.Exact fit)
    (closes : ∀ cursor : σ, fit cursor → fit (Cursor.close cursor)) :
    Exact fit (close node) := by
  unfold close
  split
  · exact exact
  · exact ⟨exact.each.map closes, nofun⟩

/-- On a span of the node the child that is shown stands on its head. -/
theorem Exact.stands_least (exact : node.Exact fit) {span : Span}
    (isOn : node.standing = .on span) {head : Head (Fin size)}
    (least : node.queue.least? = some head) :
    Stands fit (some head.span) node.children[head.child] := by
  apply (exact.seats (by rw [isOn]; rfl)).placed head
  exact Array.mem_toList_iff.mpr (Array.mem_of_getElem? least)

end Union

end PositionalSearch
