import PositionalSearch.Proofs.Closed
import PositionalSearch.Proofs.Lasting.Query
import PositionalSearch.Session

/-!
# Sessions that answer alike

Of two cursors that follow one plain cursor no caller can tell which is which:
they answer every sequence of moves, looks and closings alike.
-/

namespace PositionalSearch

/-- The step uses the root as a cursor, and does not ask for its estimate. -/
def Step.isPlain : Step → Bool
  | .next => true
  | .seek _ => true
  | .take _ => true
  | .payloads => true
  | .hasPayload => true
  | .current => true
  | .doc => true
  | .start => true
  | .stop => true
  | .atEnd => true
  | .close => true
  | .estimate => false
  | .describe => false
  | .tally => false
  | .arm _ _ => false
  | .unwrap => false

namespace Cursor

variable {σ τ : Type} [Cursor σ] [Cursor τ]

/-- A likeness between cursors that whatever is done to both preserves. -/
structure Alike (like : σ → τ → Prop) : Prop where
  standing_eq : ∀ {first second}, like first second →
    standing first = standing second
  payloads_eq : ∀ {first second}, like first second →
    payloads first = payloads second
  moves : ∀ {first second}, like first second → ∀ move : Move,
    (go move first).1 = (go move second).1 ∧
      like (go move first).2 (go move second).2
  closes : ∀ {first second}, like first second →
    like (close first) (close second)

variable {like : σ → τ → Prop} {first : σ} {second : τ}

/-- Cursors that are alike yield the same spans and payloads. -/
theorem Alike.take (alike : Alike like) (related : like first second)
    (limit : Nat) :
    (take limit first).1 = (take limit second).1 ∧
      like (take limit first).2 (take limit second).2 := by
  induction limit generalizing first second with
  | zero => exact ⟨rfl, related⟩
  | succ limit ih =>
      obtain ⟨same, still⟩ := alike.moves related .next
      simp only [go] at same still
      simp only [Cursor.take]
      cases wentFirst : (next : Attempt Failure σ _) first with
      | mk outcome reached =>
          cases wentSecond : (next : Attempt Failure τ _) second with
          | mk other reachedToo =>
              rw [wentFirst, wentSecond] at same still
              obtain rfl : outcome = other := same
              cases outcome with
              | error failure => exact ⟨rfl, still⟩
              | ok span? =>
                  cases span? with
                  | none => exact ⟨rfl, still⟩
                  | some span =>
                      dsimp only at still ⊢
                      rw [alike.payloads_eq still]
                      cases payloads reachedToo with
                      | error failure => exact ⟨rfl, still⟩
                      | ok stored =>
                          obtain ⟨sameRest, last⟩ := ih still
                          exact ⟨congrArg (fun taken =>
                            (⟨span, stored⟩ :: taken.1, taken.2)) sameRest,
                            last⟩

/-- Both follow one plain cursor. -/
def FollowOne (first : σ) (second : τ) : Prop :=
  ∃ plain, Follows first plain ∧ Follows second plain

theorem Follows.go_eq {plain : Plain} (follows : Follows first plain)
    (move : Move) :
    (go move first).1 = (go move plain).1 ∧
      Follows (go move first).2 (go move plain).2 := by
  have met := Follows.mirrors.moves follows move
  cases went : go move first with
  | mk outcome reached =>
      cases outcome with
      | error failure =>
          obtain ⟨same, still⟩ := met.of_error went
          exact ⟨same.symm, still⟩
      | ok span? =>
          obtain ⟨same, still⟩ := met.of_ok went
          exact ⟨same.symm, still⟩

end Cursor

/-- A landing is what a seek reaches, compared with what was asked for. -/
theorem Cursor.land_eq {σ : Type} [Cursor σ] (target : DocId) (cursor : σ) :
    land target cursor =
      ((go (.seek target) cursor).1.map (Option.map (Landing.of target)),
        (go (.seek target) cursor).2) := by
  have mapped := Attempt.run_map (Option.map (Landing.of target))
    (seek target : Attempt Failure σ _) cursor
  refine mapped.trans ?_
  simp only [Attempt.run, go]
  cases (seek target : Attempt Failure σ _) cursor with
  | mk outcome reached => cases outcome <;> rfl

namespace Tree

variable {height depth : Nat}

/-- Trees that follow one plain cursor are alike. -/
theorem alike_followOne :
    Cursor.Alike (Cursor.FollowOne : Tree height → Tree depth → Prop) where
  standing_eq := by
    rintro first second ⟨plain, follows, followsToo⟩
    exact follows.standing_eq.trans followsToo.standing_eq.symm
  payloads_eq := by
    rintro first second ⟨plain, follows, followsToo⟩
    exact follows.payloads_eq.trans followsToo.payloads_eq.symm
  moves := by
    rintro first second ⟨plain, follows, followsToo⟩ move
    obtain ⟨same, still⟩ := follows.go_eq move
    obtain ⟨sameToo, stillToo⟩ := followsToo.go_eq move
    exact ⟨same.trans sameToo.symm, _, still, stillToo⟩
  closes := by
    rintro first second -
    exact ⟨.closed, follows_closed (standing_close first),
      follows_closed (standing_close second)⟩

/-- So are they if they are of one estimate as well. -/
theorem alike_followOne_estimate :
    Cursor.Alike fun (first : Tree height) (second : Tree depth) =>
      Cursor.FollowOne first second ∧
        Cursor.estimate first = Cursor.estimate second where
  standing_eq related := alike_followOne.standing_eq related.1
  payloads_eq related := alike_followOne.payloads_eq related.1
  moves := by
    rintro first second ⟨related, same⟩ move
    obtain ⟨answers, still⟩ := alike_followOne.moves related move
    refine ⟨answers, still, ?_⟩
    rw [(lasts_go first move).estimate, (lasts_go second move).estimate, same]
  closes := by
    rintro first second ⟨related, same⟩
    refine ⟨alike_followOne.closes related, ?_⟩
    rw [estimate_close, estimate_close, same]

end Tree

namespace Session

variable {height depth : Nat} {like : Tree height → Tree depth → Prop}
  {first : Tree height} {second : Tree depth}

/-- A step answers alike in sessions of roots that are alike. -/
theorem perform_alike (alike : Cursor.Alike like)
    (related : like first second) (detached others : List MeterTally)
    {step : Step}
    (shows : step.isPlain ∨ step = .estimate ∧ ∀ first second,
      like first second → Cursor.estimate first = Cursor.estimate second) :
    ∃ outcome reached reachedToo,
      perform ⟨first, detached⟩ step = (outcome, ⟨reached, detached⟩) ∧
      perform ⟨second, others⟩ step = (outcome, ⟨reachedToo, others⟩) ∧
      like reached reachedToo := by
  have stands := alike.standing_eq related
  have shown := alike.payloads_eq related
  have current : Cursor.current first = Cursor.current second :=
    congrArg Standing.span stands
  cases step with
  | next =>
      obtain ⟨same, still⟩ := alike.moves related .next
      exact ⟨_, _, _, rfl, Prod.ext (congrArg (Except.map Reply.span)
        same.symm) rfl, still⟩
  | seek target =>
      obtain ⟨same, still⟩ := alike.moves related (.seek target)
      refine ⟨((Cursor.go (.seek target) first).1.map
        (Option.map (Landing.of target))).map Reply.landing, _, _, ?_, ?_,
        still⟩
      · simp only [perform, moving, Cursor.land_eq]
      · simp only [perform, moving, Cursor.land_eq, same]
  | take limit =>
      obtain ⟨same, still⟩ := alike.take related limit
      refine ⟨_, _, _, rfl, Prod.ext ?_ rfl, still⟩
      simp only [perform, same]
  | payloads =>
      refine ⟨_, _, _, rfl, ?_, related⟩
      simp only [perform, shown]
  | hasPayload =>
      refine ⟨_, _, _, rfl, ?_, related⟩
      simp only [perform, Cursor.hasPayload, shown]
  | current =>
      refine ⟨_, _, _, rfl, ?_, related⟩
      simp only [perform, current]
  | doc =>
      refine ⟨_, _, _, rfl, ?_, related⟩
      simp only [perform, Cursor.doc, stands]
  | start =>
      refine ⟨_, _, _, rfl, ?_, related⟩
      simp only [perform, Cursor.start, current]
  | stop =>
      refine ⟨_, _, _, rfl, ?_, related⟩
      simp only [perform, Cursor.stop, current]
  | atEnd =>
      refine ⟨_, _, _, rfl, ?_, related⟩
      simp only [perform, Cursor.atEnd, stands]
  | close => exact ⟨_, _, _, rfl, rfl, alike.closes related⟩
  | estimate =>
      rcases shows with isPlain | ⟨_, same⟩
      · cases isPlain
      · refine ⟨_, _, _, rfl, ?_, related⟩
        simp only [perform, estimate, same _ _ related]
  | describe => simp [Step.isPlain] at shows
  | tally => simp [Step.isPlain] at shows
  | arm name fault? => simp [Step.isPlain] at shows
  | unwrap => simp [Step.isPlain] at shows

/-- Sessions of roots that are alike answer all steps alike. -/
theorem performAll_alike (alike : Cursor.Alike like)
    (related : like first second) (detached others : List MeterTally)
    {steps : List Step}
    (shows : ∀ step ∈ steps, step.isPlain ∨ step = .estimate ∧
      ∀ first second, like first second →
        Cursor.estimate first = Cursor.estimate second) :
    (performAll ⟨first, detached⟩ steps).1 =
      (performAll ⟨second, others⟩ steps).1 := by
  induction steps generalizing first second with
  | nil => rfl
  | cons step rest ih =>
      obtain ⟨outcome, reached, reachedToo, took, tookToo, still⟩ :=
        perform_alike alike related detached others
          (shows step List.mem_cons_self)
      have stands : standing ⟨reached, detached⟩ =
          standing ⟨reachedToo, others⟩ := alike.standing_eq still
      have later := ih still fun step member =>
        shows step (List.mem_cons_of_mem _ member)
      simp only [performAll, took, tookToo, stands]
      split
      · rfl
      · exact congrArg (List.cons _) later

end Session

end PositionalSearch
