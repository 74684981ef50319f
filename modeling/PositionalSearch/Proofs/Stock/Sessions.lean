import PositionalSearch.Proofs.Lawful.Sessions
import PositionalSearch.Proofs.Stock.Tree

/-!
# What is counted in a session

The counts of an opened query grow with the uses of its session: by one for
each move that answers nothing, and by no more for all those that answer spans
than there are entries stored, once for each level.
-/

namespace PositionalSearch

open Cursor (Affords Paid Rationed)

/-! ## Walks -/

namespace Walk

variable {σ : Type} [Cursor σ] {stock : σ → Nat} {called : Nat → σ → Prop}
  {budget left : Nat}

/-- The root is within the budget, and each visit was taken out of the stock. -/
structure Charged (stock : σ → Nat) (called : Nat → σ → Prop)
    (budget left : Nat) (progress : Progress σ) : Prop where
  affords : Affords stock called budget progress.root
  within : stock progress.root + progress.visits.size ≤ left

omit [Cursor σ] in
theorem Charged.relax {progress : Progress σ}
    (charged : Charged stock called budget left progress) :
    Charged stock called (budget + 1) left progress :=
  ⟨charged.affords.mono (Nat.le_succ _), charged.within⟩

omit [Cursor σ] in
/-- The root was moved. -/
theorem Charged.moved {answered : Bool} {progress : Progress σ}
    (charged : Charged stock called budget left progress) {root : σ}
    (paid : Paid stock called budget (stock progress.root) answered root) :
    Charged stock called (budget + 1) left { progress with root := root } := by
  have stock_le := paid.stock_le
  have within := charged.within
  exact ⟨paid.affords, by dsimp only; omega⟩

omit [Cursor σ] in
theorem Charged.checks {progress : Progress σ}
    (charged : Charged stock called budget left progress) :
    checkDeadline.Meets progress (fun _ => Charged stock called budget left)
      fun _ => Charged stock called budget left := by
  obtain ⟨root, visits, deadline?⟩ := progress
  cases deadline? with
  | none => exact charged
  | some deadline =>
      unfold Attempt.Meets Attempt.run checkDeadline
      dsimp only
      cases Deadline.check deadline with
      | mk outcome checked => cases outcome <;> exact ⟨charged.1, charged.2⟩

variable (below : Rationed stock called) (plan : Plan)
include below

theorem charges_follow {span : Span} {progress : Progress σ}
    (affords : Affords stock called budget progress.root)
    (within : stock progress.root + progress.visits.size < left) :
    (follow plan span).Meets progress
      (fun _ => Charged stock called (budget + 1) left)
      fun failure reached => failure.Ordinary →
        Charged stock called (budget + 1) left reached := by
  have here : Charged stock called budget left progress :=
    ⟨affords, Nat.le_of_lt within⟩
  rw [follow]
  simp only [Attempt.meets_bind, Attempt.meets_look]
  split
  · exact here.relax
  simp only [visit, Attempt.meets_bind, Attempt.meets_look,
    Attempt.meets_ofExcept, Attempt.meets_update]
  refine ⟨fun payloads _ => ?_, fun _ _ _ => here.relax⟩
  have visited : Charged stock called budget left
      { progress with visits := progress.visits.push ⟨span, payloads⟩ } := by
    refine ⟨affords, ?_⟩
    rw [Array.size_push]
    exact within
  refine visited.checks.mono ?_ fun _ _ checked _ => checked.relax
  intro _ checked charged
  rw [moving, Attempt.meets_within]
  refine Attempt.Meets.mono (below.bills_nextBeyond charged.affords span) ?_
    fun _ _ paid ordinary => charged.moved (paid ordinary)
  rintro (_ | ⟨later, beyond⟩) root paid
  · exact charged.moved paid
  · have := Span.room_lt_room beyond
    have within := charged.within
    have lowers : stock root < stock checked.root := paid.2
    exact charges_follow paid.1 (by dsimp only; omega)
termination_by span.room

theorem charges_begin {progress : Progress σ}
    (charged : Charged stock called budget left progress) :
    (begin plan).Meets progress
      (fun _ => Charged stock called (budget + 1) left)
      fun failure reached => failure.Ordinary →
        Charged stock called (budget + 1) left reached := by
  rw [begin, Attempt.meets_bind, moving, Attempt.meets_within]
  refine Attempt.Meets.mono (below.bills_enter charged.affords plan.startDoc?)
    ?_ fun _ _ paid ordinary => charged.moved (paid ordinary)
  intro span? root paid
  cases span? with
  | none => exact charged.moved paid
  | some span =>
      have within := charged.within
      have lowers : stock root < stock progress.root := paid.2
      exact charges_follow below plan paid.1 (by dsimp only; omega)

omit below in
/-- A walk that does not fail reports how many visits it made. -/
theorem visits_eq_length {root : σ} {summary : Summary}
    (isSummary : (run plan root).outcome = .ok summary) :
    summary.visits = (run plan root).visits.length := by
  have ends : ∀ ended : Except Failure Bool × Progress σ,
      (Result.ofEnd ended).outcome = .ok summary →
        summary.visits = (Result.ofEnd ended).visits.length := by
    rintro ⟨_ | truncated, progress⟩ isSummary
    · cases isSummary
    · cases isSummary
      exact Array.length_toList.symm
  by_cases timely : plan.Timely
  · rw [run_of_timely timely] at isSummary ⊢
    exact ends _ isSummary
  · rw [run_of_not_timely timely] at isSummary
    cases isSummary

end Walk

/-! ## Trees in use -/

namespace Tree

variable {height bound budget : Nat} {tree : Tree height}

/-- The tree is fit, and within a budget; no more is left than was stored. -/
structure Budgeted (bound budget : Nat) (tree : Tree height) : Prop where
  fit : tree.Fit
  affords : Affords supply (Called bound) budget tree
  supply_le : tree.supply ≤ bound

namespace Budgeted

theorem mono {more : Nat} (budgeted : tree.Budgeted bound budget)
    (covers : budget ≤ more) : tree.Budgeted bound more :=
  ⟨budgeted.fit, budgeted.affords.mono covers, budgeted.supply_le⟩

/-- An answer costs nothing, and any other outcome one call. -/
theorem meets_go (budgeted : tree.Budgeted bound budget) (move : Move) :
    (Cursor.go move).Meets tree
      (fun span? => Budgeted bound (budget + (!span?.isSome).toNat))
      fun _ => Budgeted bound (budget + 1) := by
  refine Attempt.Meets.mono (Attempt.Meets.and
    (rationed.bills_go budgeted.affords move)
    (budgeted.fit.abides_go move)) ?_ ?_
  · rintro span? reached ⟨paid, fit⟩
    cases span? with
    | none => exact ⟨fit, paid.1, Nat.le_trans paid.2 budgeted.supply_le⟩
    | some span =>
        exact ⟨fit, paid.1, Nat.le_trans (Nat.le_of_lt paid.2)
          budgeted.supply_le⟩
  · rintro failure reached ⟨paid, ordinary, fit⟩
    have paid := paid ordinary
    exact ⟨fit, paid.1, Nat.le_trans paid.2 budgeted.supply_le⟩

theorem go (budgeted : tree.Budgeted bound budget) (move : Move) :
    Budgeted bound (budget + 1) (Cursor.go move tree).2 := by
  have goes := budgeted.meets_go move
  cases went : Cursor.go move tree with
  | mk outcome reached =>
      cases outcome with
      | error failure => exact goes.of_error went
      | ok span? =>
          refine (goes.of_ok went).mono ?_
          have := Bool.toNat_le (!span?.isSome)
          omega

/-- Spans are taken at the cost of the one that is not. -/
theorem take (limit : Nat) {tree : Tree height}
    (budgeted : tree.Budgeted bound budget) :
    Budgeted bound (budget + 1) (Cursor.take limit tree).2 := by
  induction limit generalizing tree with
  | zero => exact budgeted.mono (Nat.le_succ _)
  | succ limit ih =>
      have goes := budgeted.meets_go .next
      simp only [Cursor.take]
      cases went : (Cursor.next : Attempt Failure (Tree height) _) tree with
      | mk outcome reached =>
          cases outcome with
          | error failure => exact goes.of_error went
          | ok span? =>
              have budgetedOn := goes.of_ok went
              cases span? with
              | none => exact budgetedOn
              | some span =>
                  dsimp only
                  cases Cursor.payloads reached with
                  | error failure => exact budgetedOn.mono (Nat.le_succ _)
                  | ok stored => exact ih budgetedOn

theorem close (budgeted : tree.Budgeted bound budget) :
    Budgeted bound (budget + 1) (Cursor.close tree) :=
  ⟨budgeted.fit.close, frugal_close.affords budgeted.affords,
    Nat.le_trans (frugal_close.stock_le budgeted.affords) budgeted.supply_le⟩

theorem arm (budgeted : tree.Budgeted bound budget) (name : String)
    (fault? : Option ProbeFault) :
    Budgeted bound budget (tree.arm name fault?) :=
  ⟨budgeted.fit.arm name fault?,
    (frugal_arm name fault?).affords budgeted.affords,
    Nat.le_trans ((frugal_arm name fault?).stock_le budgeted.affords)
      budgeted.supply_le⟩

/-- What a meter is taken off is in the same budget, and so is its reading. -/
theorem child {node : Metered (Tree height)}
    (budgeted : @Tree.Budgeted (height + 1) bound budget (.metered node)) :
    node.child.Budgeted bound budget ∧
      node.reading.nexts + node.reading.seeks ≤ budget := by
  obtain ⟨fit, ⟨calls, within, isCalled⟩, supply_le⟩ := budgeted
  have isCalled : Metered.Called (Called bound) calls node := isCalled
  have within : calls + node.child.supply ≤ budget := within
  exact ⟨⟨fit.child, ⟨calls, within, isCalled.child⟩, supply_le⟩,
    Nat.le_trans isCalled.shown (by omega)⟩

/-- No more spans are visited than are stored, and two calls answer none. -/
theorem walk (budgeted : tree.Budgeted bound budget) (plan : Walk.Plan) :
    (Walk.run plan tree).visits.length ≤ bound ∧
      Budgeted bound (budget + 2) (Walk.run plan tree).root := by
  by_cases timely : plan.Timely
  · have begins : (Walk.begin plan).Abides
        (Walk.Charged supply (Called bound) (budget + 1) bound)
        (.start plan tree) := by
      refine Attempt.Meets.mono (Attempt.Meets.and
        (Walk.charges_begin rationed plan
          ⟨budgeted.affords, budgeted.supply_le⟩)
        (Walk.abides_start plan budgeted.fit)) (fun _ _ met => met.1) ?_
      exact fun _ _ ⟨charged, ordinary, _⟩ => ⟨ordinary, charged ordinary⟩
    obtain ⟨affords, within⟩ := begins.reached
    have fit := Walk.fit_run plan budgeted.fit
    rw [Walk.run_of_timely timely] at fit ⊢
    refine ⟨?_, fit, frugal_close.affords affords, ?_⟩
    · have visits_le := Nat.le_trans (Nat.le_add_left _ _) within
      simpa [Walk.runUntil, Walk.Result.ofEnd, Walk.Progress.start]
        using visits_le
    · exact Nat.le_trans (frugal_close.stock_le affords)
        (Nat.le_trans (Nat.le_add_right _ _) within)
  · rw [Walk.run_of_not_timely timely]
    exact ⟨Nat.zero_le _, budgeted.mono (Nat.le_add_right _ _)⟩

end Budgeted

theorem budgeted_openTree (query : Query) :
    query.openTree.Budgeted query.entries query.entries := by
  obtain ⟨isCalled, supply_le⟩ := query.called_openAt query.height
    (Nat.le_refl _) (Nat.le_refl query.entries)
  exact ⟨fit_openTree query, ⟨0, by rwa [Nat.zero_add], isCalled⟩, supply_le⟩

end Tree

/-! ## Sessions -/

namespace Session

/-- The calls of the root that a step makes and no answered span pays for. -/
def stepCalls : Step → Nat
  | .next | .seek _ | .take _ | .close => 1
  | .payloads | .hasPayload | .current | .doc | .start | .stop | .atEnd => 0
  | .estimate | .describe | .tally | .arm _ _ | .unwrap => 0

/-- The calls of the root that a use makes and no answered span pays for. -/
def Use.calls : Use → Nat
  | .step made => stepCalls made
  | .walk _ => 2

/-- The root and the meters that were taken off it are within a budget. -/
structure Budgeted (bound levels budget : Nat) (session : Session) : Prop where
  root : session.root.Budgeted bound budget
  levels : session.height ≤ levels
  detached : ∀ meter ∈ session.detached,
    meter.reading.nexts + meter.reading.seeks ≤ budget

variable {bound levels budget : Nat} {session : Session}

/-- The root was moved, or not; no meter was taken off. -/
theorem Budgeted.rooted (budgeted : session.Budgeted bound levels budget)
    {root : Tree session.height} {more : Nat}
    (rootBudgeted : root.Budgeted bound (budget + more)) :
    Budgeted bound levels (budget + more) { session with root := root } :=
  ⟨rootBudgeted, budgeted.levels, fun meter member =>
    Nat.le_trans (budgeted.detached meter member) (Nat.le_add_right _ _)⟩

theorem Budgeted.unwrap (budgeted : session.Budgeted bound levels budget) :
    session.unwrap.2.Budgeted bound levels budget := by
  obtain ⟨root, detached⟩ := session
  rename_i height
  match height, root with
  | _ + 1, .metered node =>
      obtain ⟨child, shown⟩ := budgeted.root.child
      refine ⟨child, Nat.le_of_succ_le budgeted.levels, fun meter member => ?_⟩
      rcases List.mem_append.mp member with before | added
      · exact budgeted.detached meter before
      · rw [List.mem_singleton.mp added]
        exact shown
  | _ + 1, .nothing leaf => exact budgeted
  | _ + 1, .listed leaf => exact budgeted
  | _ + 1, .term leaf => exact budgeted
  | _ + 1, .scripted name leaf => exact budgeted
  | _ + 1, .probe leaf => exact budgeted
  | _ + 1, .proximity node => exact budgeted
  | _ + 1, .union node => exact budgeted
  | _ + 1, .without node => exact budgeted
  | _ + 1, .region node => exact budgeted

theorem Budgeted.perform (budgeted : session.Budgeted bound levels budget)
    (step : Step) :
    (session.perform step).2.Budgeted bound levels
      (budget + stepCalls step) := by
  cases step with
  | next => exact budgeted.rooted (budgeted.root.go .next)
  | seek target =>
      have moved := budgeted.rooted (budgeted.root.go (.seek target))
      simpa only [Session.perform, moving, Cursor.land_eq, stepCalls]
        using moved
  | take limit => exact budgeted.rooted (budgeted.root.take limit)
  | close => exact budgeted.rooted budgeted.root.close
  | arm name fault? => exact budgeted.rooted (budgeted.root.arm name fault?)
  | unwrap => exact budgeted.unwrap
  | payloads => exact budgeted
  | hasPayload => exact budgeted
  | current => exact budgeted
  | doc => exact budgeted
  | start => exact budgeted
  | stop => exact budgeted
  | atEnd => exact budgeted
  | estimate => exact budgeted
  | describe => exact budgeted
  | tally => exact budgeted

theorem Budgeted.afterUses (budgeted : session.Budgeted bound levels budget)
    (uses : List Use) :
    (session.afterUses uses).Budgeted bound levels
      (budget + (uses.map Use.calls).sum) := by
  induction uses generalizing session budget with
  | nil => exact budgeted
  | cons use rest ih =>
      rw [List.map_cons, List.sum_cons, ← Nat.add_assoc]
      cases use with
      | step step => exact ih (budgeted.perform step)
      | walk plan => exact ih (budgeted.rooted (budgeted.root.walk plan).2)

theorem budgeted_ofQuery (query : Query) :
    (ofQuery query).Budgeted query.entries query.height query.entries :=
  ⟨Tree.budgeted_openTree query, Nat.le_refl _, nofun⟩

/-- All counts are within the budget of the root and the entries of each level. -/
theorem Budgeted.tally_atMost (budgeted : session.Budgeted bound levels
    (bound + budget)) : session.tally.AtMost (budget + levels * bound) := by
  obtain ⟨calls, within, isCalled⟩ := budgeted.root.affords
  have deeper := Nat.mul_le_mul_right bound budgeted.levels
  have ofRoot : session.root.tally.AtMost (budget + levels * bound) :=
    isCalled.tally_atMost (by omega)
  have bound_le : bound ≤ levels * bound := by
    obtain ⟨root, detached⟩ := session
    rename_i height
    match height, root with
    | _ + 1, _ =>
        exact Nat.le_mul_of_pos_left bound
          (Nat.lt_of_lt_of_le (Nat.succ_pos _) budgeted.levels)
  refine Tally.All.append ⟨nofun, fun meter member => ?_, nofun⟩ ofRoot
  have shown := budgeted.detached meter member
  omega

end Session

/--
Whatever was done with an opened query, step by step and walk by walk and with
whatever faults, each place and each count in the tree is in range.  Each count
of a probe or a meter is at most the number of calls that the uses make and no
answered span pays for, and the number of stored entries once for each level;
no counter overflows that can hold this sum.  Steps are then all taken and
answered without a breach, and a drain does not end in one.  A walk ends in one
exactly if the clock does not count to the end of its time budget; it counts the
checks of its deadline within its interval, and no more visits than there are
entries.
-/
theorem Query.sessions_break_no_rule (query : Query)
    (uses : List Session.Use) :
    let session := (Session.ofQuery query).afterUses uses
    session.root.InRange ∧
    session.tally.AtMost
      ((uses.map Session.Use.calls).sum + query.height * query.entries) ∧
    (∀ steps : List Step,
      (session.performAll steps).1.map Answer.breached =
          List.replicate steps.length false ∧
        (session.performAll steps).2.root.InRange) ∧
    (∀ plan : Walk.Plan,
      (Unbreached (session.walk plan).1.outcome ↔ plan.Timely) ∧
        (session.walk plan).2.root.InRange ∧
        (∀ deadline ∈ (Walk.begin plan (.start plan session.root)).2.deadline?,
          deadline.checks < deadline.interval) ∧
        (session.walk plan).1.visits.length ≤ query.entries ∧
        ∀ summary, (session.walk plan).1.outcome = .ok summary →
          summary.visits ≤ query.entries) ∧
    Unbreached (Walk.drain session.root) := by
  intro session
  have budgeted : session.Budgeted query.entries query.height
      (query.entries + (uses.map Session.Use.calls).sum) :=
    (Session.budgeted_ofQuery query).afterUses uses
  have fit := budgeted.root.fit
  refine ⟨fit.inRange, budgeted.tally_atMost, fun steps => ?_, fun plan => ?_,
    ?_⟩
  · exact (Session.fit_performAll fit steps).imp_right Tree.Fit.inRange
  · have visits_le := (budgeted.root.walk plan).1
    refine ⟨Walk.unbreached_run_iff plan fit, (Walk.fit_run plan fit).inRange,
      Walk.timely_begin plan fit, visits_le, fun summary isSummary => ?_⟩
    exact Walk.visits_eq_length plan isSummary ▸ visits_le
  · exact ((Walk.unbreached_run_iff .all fit).mpr
      (Walk.Plan.timely_of_untimed rfl)).map _

end PositionalSearch
