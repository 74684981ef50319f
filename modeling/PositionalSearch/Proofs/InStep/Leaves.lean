import PositionalSearch.Leaf.Probe
import PositionalSearch.Proofs.InStep.Candor

/-!
# Leaves are candid

A leaf has no child to refuse for it: it refuses the seeks that its own
standing tells it to refuse, and nothing else.
-/

namespace PositionalSearch

open Cursor (Admits Candid)

variable {π α : Type}

theorem Nothing.candid : Candid fun _ : Nothing => True := by
  have ends : ∀ leaf : Nothing, Admits (fun _ => True) finish leaf :=
    fun _ => ⟨trivial, rfl⟩
  refine planned.candid (fun _ _ => ends _) (fun _ _ => ends _) ?_
    fun _ => trivial
  exact fun failed => Standing.isRefusal_requireSpan failed nofun

namespace Listed

theorem admits_standAt (place : Nat) (cursor : Listed) :
    Admits (fun _ => True) (standAt place) cursor := by
  simp only [Admits, Attempt.Meets, Attempt.run, standAt]
  cases cursor.listing.entry? place with
  | none => exact ⟨trivial, rfl⟩
  | some entry => exact ⟨trivial, rfl⟩

theorem candid : Candid fun _ : Listed => True := by
  refine planned.candid (fun _ _ => admits_standAt _ _)
    (fun _ _ => admits_standAt _ _) ?_ fun _ => trivial
  intro cursor failure failed
  refine Standing.isRefusal_requireSpan failed fun refused => ?_
  cases offset : cursor.offset with
  | zero =>
      rw [stored, offset] at refused
      cases refused
      rfl
  | succ place =>
      rw [stored, offset] at refused
      cases refused

end Listed

namespace Term

variable [Postings π]

omit [Postings π] in
/-- What cannot be read is no refusal. -/
theorem meets_reading (call : Attempt ReadFault π α) (term : Term π) :
    (reading call).Meets term (fun _ _ => True)
      (fun failure _ => failure.isRefusal = false) := by
  simp only [reading, Attempt.meets_mapFailure, Attempt.meets_within]
  cases outcome : call term.postings with
  | mk result postings =>
      cases result with
      | ok value => exact (Attempt.meets_of_ok outcome).mpr trivial
      | error fault => exact (Attempt.meets_of_error outcome).mpr rfl

theorem admits_takePosition (doc : DocId) (term : Term π) :
    Admits (fun _ => True) (takePosition doc) term := by
  simp only [Admits, takePosition, Attempt.meets_bind, Attempt.meets_update,
    Attempt.meets_pure]
  exact (meets_reading _ term).imp_answer fun _ _ _ => ⟨trivial, rfl⟩

theorem admits_finish (term : Term π) :
    Admits (fun _ => True) finish term := ⟨trivial, rfl⟩

theorem admits_advance (doc : DocId) (term : Term π) :
    Admits (fun _ => True) (advance doc) term := by
  rw [advance]
  simp only [Admits, Attempt.meets_bind, Attempt.meets_look]
  split
  · exact admits_takePosition doc term
  · simp only [Attempt.meets_bind]
    apply (meets_reading _ term).imp_answer
    intro later? reached _
    cases later? with
    | none => exact admits_finish reached
    | some later =>
        dsimp only
        split
        · rename_i forward
          have := DocId.room_lt_room forward
          exact admits_advance later _
        · rfl
termination_by doc.room

theorem admits_arrive (doc? : Option DocId) (term : Term π) :
    Admits (fun _ => True) (arrive doc?) term := by
  cases doc? with
  | none => exact admits_finish term
  | some doc => exact admits_advance doc _

theorem admits_onward {term : Term π}
    (goes : term.standing.planNext = .ok true) :
    Admits (fun _ => True) onward term := by
  cases standing : term.standing with
  | on span => exact (Attempt.meets_congr (by
      simp only [onward, standing])).mpr (admits_advance span.doc term)
  | atDocument doc => exact (Attempt.meets_congr (by
      simp only [onward, standing])).mpr (admits_advance doc term)
  | unstarted =>
      refine (Attempt.meets_congr (by simp only [onward, standing])).mpr
        (Attempt.meets_bind.mpr ((meets_reading Postings.nextDocument
          term).imp_answer fun doc? reached _ => admits_arrive doc? reached))
  | exhausted =>
      rw [standing] at goes
      cases goes
  | closed =>
      rw [standing] at goes
      cases goes

theorem admits_forward (target : DocId) (term : Term π) :
    Admits (fun _ => True) (forward target) term := by
  simp only [Admits, forward, Attempt.meets_bind, Attempt.meets_look]
  split
  · exact admits_advance target term
  · simp only [Attempt.meets_bind]
    exact (meets_reading _ term).imp_answer
      fun doc? reached _ => admits_arrive doc? reached

theorem candid : Candid fun _ : Term π => True := by
  refine planned.candid (fun _ goes => admits_onward goes)
    (fun _ _ => admits_forward _ _) ?_ fun _ => trivial
  exact fun failed => Standing.isRefusal_requireSpan failed nofun

end Term

namespace Probe

theorem admits_stepOn (probe : Probe) :
    Admits (fun _ => True) stepOn probe := by
  simp only [Admits, Attempt.Meets, Attempt.run, stepOn]
  cases probe.listing.entry? probe.offset with
  | some entry => exact ⟨trivial, rfl⟩
  | none =>
      cases probe.fault? with
      | none => exact ⟨trivial, rfl⟩
      | some fault => cases fault <;> rfl

theorem candid : Candid fun _ : Probe => True where
  moves := by
    intro probe _ move
    -- Only a failure of the plan itself can be a refusal.
    have stepped : ∀ probe : Probe, stepOn.Meets probe
        (fun span? reached => True ∧
          Cursor.standing reached = .after span?)
        (fun failure reached => ∀ current target,
          failure = .behindCurrent current target →
            True ∧ move = .seek target ∧ Cursor.doc probe = .ok current ∧
              target < current) := by
      intro probe
      apply (admits_stepOn probe).imp_failure
      rintro _ reached notRefused current target rfl
      cases notRefused
    cases move with
    | next =>
        simp only [Cursor.go, Cursor.next, Attempt.meets_bind,
          Attempt.meets_update, Attempt.meets_look]
        cases plan : probe.standing.planNext with
        | error failure =>
            rintro current target rfl
            cases Standing.isRefusal_planNext plan
        | ok goes =>
            cases goes with
            | false =>
                exact ⟨trivial, Standing.planNext_eq_false_iff.mp plan⟩
            | true => exact stepped _
    | seek asked =>
        simp only [Cursor.go, Cursor.seek, Attempt.meets_bind,
          Attempt.meets_update, Attempt.meets_look]
        cases plan : probe.standing.planSeek asked with
        | error failure =>
            rintro current target rfl
            obtain ⟨rfl, isCurrent, before⟩ :=
              Standing.of_planSeek_eq_behindCurrent plan
            exact ⟨trivial, rfl, isCurrent, before⟩
        | ok choice =>
            cases choice with
            | finished =>
                exact ⟨trivial, Standing.planSeek_eq_finished_iff.mp plan⟩
            | stepOn => exact stepped _
            | forward => exact stepped _
  payloads := by
    intro probe failure failed
    refine Standing.isRefusal_requireSpan failed fun refused => ?_
    cases offset : probe.offset with
    | zero =>
        rw [stored, offset] at refused
        cases refused
        rfl
    | succ place =>
        rw [stored, offset] at refused
        cases refused
  refuses := by
    intro probe current target isCurrent before
    have refused : probe.standing.planSeek target =
        .error (.behindCurrent current target) :=
      Standing.planSeek_eq_behindCurrent_iff.mpr ⟨isCurrent, before⟩
    change (Attempt.run (Cursor.seek target) probe).1 = _
    simp [Cursor.seek, refused]
  closed _ := trivial

end Probe

end PositionalSearch
