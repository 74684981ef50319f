import PositionalSearch.Proofs.Lasting.Basic
import PositionalSearch.Proofs.Order.Discipline

/-!
# Lawful cursors

A breach says that a rule of use was broken, and no caller should ever see one.
A cursor is lawful if none of its moves ends in a breach, nor a look at its
payloads, whatever it went through before.  What a node relies on is more: its
children go on in order as well, so that what it demands of them is not
refused.
-/

namespace PositionalSearch

/-- The failure does not say that a rule of use was broken. -/
def Failure.Ordinary (failure : Failure) : Prop :=
  ∀ rule : Breach, failure ≠ .breach rule

namespace Standing

/-- A move refused for where a cursor stands breaks no rule. -/
theorem ordinary_of_planNext {standing : Standing} {failure : Failure}
    (refused : standing.planNext = .error failure) : failure.Ordinary := by
  cases standing <;> cases refused
  exact nofun

theorem ordinary_of_planSeek {standing : Standing} {target : DocId}
    {failure : Failure} (refused : standing.planSeek target = .error failure) :
    failure.Ordinary := by
  unfold planSeek at refused
  grind [Failure.Ordinary]

/-- Nor does a look that is refused for it. -/
theorem ordinary_of_requireSpan {α : Type} {standing : Standing}
    {rest : Unit → Except Failure α} {failure : Failure}
    (refused : (standing.requireSpan >>= rest) = .error failure)
    (shows : ∀ span, standing = .on span → rest () = .error failure →
      failure.Ordinary) : failure.Ordinary := by
  cases standing with
  | on span => exact shows span rfl refused
  | unstarted => cases refused; exact nofun
  | atDocument doc => cases refused; exact nofun
  | exhausted => cases refused; exact nofun
  | closed => cases refused; exact nofun

end Standing

namespace Attempt

variable {τ α β : Type} {holds : τ → Prop}

/-- A condition is left standing, and a failure is not a breach. -/
def Abides (holds : τ → Prop) (attempt : Attempt Failure τ α) (state : τ) :
    Prop :=
  attempt.Meets state (fun _ => holds)
    fun failure reached => failure.Ordinary ∧ holds reached

theorem Abides.weaken {weaker : τ → Prop} {attempt : Attempt Failure τ α}
    {state : τ} (abides : attempt.Abides holds state)
    (implies : ∀ reached, holds reached → weaker reached) :
    attempt.Abides weaker state :=
  Meets.mono abides (fun _ => implies) fun _ reached failed =>
    ⟨failed.1, implies reached failed.2⟩

theorem Abides.reached {attempt : Attempt Failure τ α} {state : τ}
    (abides : attempt.Abides holds state) : holds (attempt state).2 := by
  cases outcome : attempt state with
  | mk result reached =>
      cases result with
      | ok value => exact Meets.of_ok abides outcome
      | error failure => exact (Meets.of_error abides outcome).2

theorem Abides.ordinary {attempt : Attempt Failure τ α} {state : τ}
    {failure : Failure} (abides : attempt.Abides holds state)
    (failed : (attempt state).1 = .error failure) : failure.Ordinary :=
  (Meets.of_error abides (Prod.ext failed rfl)).1

/-- What follows an attempt that abides may depend on what that came to. -/
theorem Meets.abides_bind {first : Attempt Failure τ α}
    {rest : α → Attempt Failure τ β} {state : τ} {answered : α → τ → Prop}
    (meets : first.Meets state answered
      fun failure reached => failure.Ordinary ∧ holds reached)
    (goesOn : ∀ value reached, answered value reached →
      (rest value).Abides holds reached) :
    (first >>= rest).Abides holds state := by
  rw [Abides, meets_bind]
  exact meets.imp_answer goesOn

theorem abides_look_bind {rest : τ → Attempt Failure τ β} {state : τ}
    (abides : (rest state).Abides holds state) :
    (look >>= rest).Abides holds state := abides

theorem abides_pure {state : τ} (held : holds state) (value : α) :
    (pure value : Attempt Failure τ α).Abides holds state := held

/-- What is sustained whatever fails abides if no failure is a breach. -/
theorem Sustains.abides {attempt : Attempt Failure τ α} {state : τ}
    (sustains : attempt.Sustains (fun _ => True) holds state)
    (ordinary : attempt.Abides (fun _ => True) state) :
    attempt.Abides holds state :=
  (Meets.and sustains ordinary).mono (fun _ _ met => met.1)
    fun _ _ failed => ⟨failed.2.1, failed.1 trivial⟩

end Attempt

open Attempt (Abides)

namespace Cursor

variable {ι σ τ : Type} [Cursor σ] [Cursor τ] {disturb : ι → σ → σ}
  {last? : Option Span} {cursor : σ}

/-- A condition under which no rule is broken, and which lasts. -/
structure Guards (disturb : ι → σ → σ) (holds : σ → Prop) : Prop where
  moves : ∀ {cursor : σ}, holds cursor → ∀ move : Move,
    (go move).Abides holds cursor
  payloads : ∀ {cursor : σ} {failure : Failure}, holds cursor →
    payloads cursor = .error failure → failure.Ordinary
  disturbed : ∀ {cursor : σ}, holds cursor → ∀ event : ι,
    holds (disturb event cursor)

/-- No rule is broken by what the cursor is used for from now on. -/
def Lawful (disturb : ι → σ → σ) (cursor : σ) : Prop :=
  ∃ holds, Guards disturb holds ∧ holds cursor

/-- To be lawful is itself such a condition. -/
theorem Lawful.guards : Guards disturb (Lawful disturb) where
  moves := by
    rintro cursor ⟨holds, guards, held⟩ move
    exact (guards.moves held move).weaken
      fun _ heldOn => ⟨holds, guards, heldOn⟩
  payloads := by
    rintro cursor failure ⟨holds, guards, held⟩ refused
    exact guards.payloads held refused
  disturbed := by
    rintro cursor ⟨holds, guards, held⟩ event
    exact ⟨holds, guards, guards.disturbed held event⟩

theorem lasting_lawful {spared : Failure → Prop} :
    Lasting spared (Lawful disturb) := fun _ lawful move =>
  Attempt.Meets.imp_failure (Lawful.guards.moves lawful move)
    fun _ _ failed _ => failed.2

theorem Lawful.abides_enter (lawful : Lawful disturb cursor)
    (target? : Option DocId) :
    (enter target?).Abides (Lawful disturb) cursor := by
  cases target? with
  | none => exact Lawful.guards.moves lawful .next
  | some target => exact Lawful.guards.moves lawful (.seek target)

/-- What carries a lawful cursor is lawful. -/
theorem Carries.lawful {wrap : σ → τ} (carries : Carries wrap)
    {disturbOuter : ι → τ → τ}
    (disturbs : ∀ event cursor, disturbOuter event (wrap cursor) =
      wrap (disturb event cursor))
    (lawful : Lawful disturb cursor) :
    Lawful disturbOuter (wrap cursor) := by
  refine ⟨fun outer => ∃ inner, outer = wrap inner ∧ Lawful disturb inner,
    ⟨?_, ?_, ?_⟩, cursor, rfl, lawful⟩
  · rintro _ ⟨inner, rfl, lawful⟩ move
    exact (carries.meets_go_iff move).mpr
      ((Lawful.guards.moves lawful move).weaken
        fun reached still => ⟨reached, rfl, still⟩)
  · rintro _ failure ⟨inner, rfl, lawful⟩ refused
    rw [carries.payloads_eq] at refused
    exact Lawful.guards.payloads lawful refused
  · rintro _ ⟨inner, rfl, lawful⟩ event
    exact ⟨_, disturbs event inner, Lawful.guards.disturbed lawful event⟩

/-- A cursor is lawful if what carries it is. -/
theorem Carries.lawful_of {wrap : σ → τ} (carries : Carries wrap)
    {disturbOuter : ι → τ → τ}
    (disturbs : ∀ event cursor, disturbOuter event (wrap cursor) =
      wrap (disturb event cursor))
    (lawful : Lawful disturbOuter (wrap cursor)) :
    Lawful disturb cursor := by
  refine ⟨fun inner => Lawful disturbOuter (wrap inner), ⟨?_, ?_, ?_⟩, lawful⟩
  · intro inner lawful move
    exact (carries.meets_go_iff move).mp (Lawful.guards.moves lawful move)
  · intro inner failure lawful refused
    rw [← carries.payloads_eq] at refused
    exact Lawful.guards.payloads lawful refused
  · intro inner lawful event
    exact disturbs event inner ▸ Lawful.guards.disturbed lawful event

/-- A planned cursor abides if both its ways to move do. -/
theorem Planned.abides {onward : Attempt Failure σ (Option Span)}
    {forward : DocId → Attempt Failure σ (Option Span)}
    (planned : Planned onward forward) {holds : σ → Prop}
    (held : holds cursor)
    (goesOn : (standing cursor).planNext = .ok true →
      onward.Abides holds cursor)
    (goesForward : ∀ target, (standing cursor).planSeek target = .ok .forward →
      (forward target).Abides holds cursor) (move : Move) :
    (go move).Abides holds cursor := by
  cases move with
  | next =>
      exact planned.meets_next (fun _ => ⟨nofun, held⟩) (fun _ => held) goesOn
  | seek target =>
      refine planned.meets_seek (fun _ => ⟨nofun, held⟩) (fun _ => held)
        (fun _ _ _ => ⟨nofun, held⟩) (fun span isOn _ => goesOn ?_)
        (goesForward target)
      rw [isOn]
      rfl

/-! ## Cursors that a node can rely on -/

/-- The cursor goes on in order and breaks no rule. -/
structure Trusted (disturb : ι → σ → σ) (last? : Option Span)
    (cursor : σ) : Prop where
  orderly : Orderly disturb last? cursor
  lawful : Lawful disturb cursor

namespace Trusted

/-- What a move comes to: an advance, or a failure without a breach. -/
theorem meets_go (trusted : Trusted disturb last? cursor) (move : Move) :
    (go move).Meets cursor (Advances (Trusted disturb) last? move.target?)
      fun failure reached => failure.Ordinary ∧
        Trusted disturb last? reached := by
  refine ((Orderly.disciplined.moves trusted.orderly move).and
    (Lawful.guards.moves trusted.lawful move)).mono ?_ ?_
  · rintro (_ | span) reached ⟨advances, lawful⟩
    · exact ⟨advances.1, advances.2, lawful⟩
    · obtain ⟨after, landed, stands, orderly⟩ := advances
      exact ⟨after, landed, stands, orderly, lawful⟩
  · rintro failure reached ⟨orderly, ordinary, lawful⟩
    exact ⟨ordinary, orderly, lawful⟩

theorem meets_next (trusted : Trusted disturb last? cursor) :
    (next : Attempt Failure σ _).Meets cursor
      (Advances (Trusted disturb) last? none)
      fun failure reached => failure.Ordinary ∧
        Trusted disturb last? reached :=
  trusted.meets_go .next

theorem meets_seek (trusted : Trusted disturb last? cursor) (target : DocId) :
    (seek target : Attempt Failure σ _).Meets cursor
      (Advances (Trusted disturb) last? (some target))
      fun failure reached => failure.Ordinary ∧
        Trusted disturb last? reached :=
  trusted.meets_go (.seek target)

theorem meets_enter (trusted : Trusted disturb last? cursor)
    (target? : Option DocId) :
    (enter target? : Attempt Failure σ _).Meets cursor
      (Advances (Trusted disturb) last? target?)
      fun failure reached => failure.Ordinary ∧
        Trusted disturb last? reached := by
  cases target? with
  | none => exact trusted.meets_next
  | some target => exact trusted.meets_seek target

/-- A demand for a later span is not refused. -/
theorem meets_nextBeyond {span : Span}
    (trusted : Trusted disturb (some span) cursor) :
    (nextBeyond span : Attempt Failure σ _).Meets cursor
      (fun later? reached =>
        Trusted disturb (some (later?.elim span Subtype.val)) reached)
      fun failure reached => failure.Ordinary ∧
        Trusted disturb (some span) reached := by
  simp only [nextBeyond, Attempt.meets_bind]
  apply trusted.meets_next.imp_answer
  intro span? reached advances
  exact advances.meets_demandBeyond.imp_failure fun _ _ refused => refused.elim

theorem meets_nextDocument {span : Span}
    (trusted : Trusted disturb (some span) cursor) :
    (nextDocument span : Attempt Failure σ _).Meets cursor
      (fun later? reached =>
        Trusted disturb (some (later?.elim span Subtype.val)) reached)
      fun failure reached => failure.Ordinary ∧
        Trusted disturb (some span) reached := by
  unfold nextDocument
  split
  · rename_i target _
    simp only [seekBeyond, Attempt.meets_bind]
    apply (trusted.meets_seek target).imp_answer
    intro span? reached advances
    exact advances.meets_demandBeyond.imp_failure
      fun _ _ refused => refused.elim
  · exact trusted

end Trusted

/--
A cursor that keeps an order is lawful if its moves abide where it keeps the
order and is sound, and leave it sound.
-/
theorem lawful_of_disciplined {keeps : Option Span → σ → Prop}
    {sound : σ → Prop} (disciplined : Disciplined disturb keeps)
    (moves : ∀ {last? : Option Span} {cursor : σ}, keeps last? cursor →
      sound cursor → ∀ move : Move, (go move).Abides sound cursor)
    (shows : ∀ {cursor : σ} {failure : Failure}, sound cursor →
      payloads cursor = .error failure → failure.Ordinary)
    (disturbs : ∀ {cursor : σ}, sound cursor → ∀ event : ι,
      sound (disturb event cursor))
    (kept : keeps last? cursor) (isSound : sound cursor) :
    Lawful disturb cursor := by
  refine ⟨fun cursor => (∃ last?, keeps last? cursor) ∧ sound cursor,
    ⟨?_, ?_, ?_⟩, ⟨last?, kept⟩, isSound⟩
  · rintro cursor ⟨⟨last?, kept⟩, isSound⟩ move
    refine ((disciplined.moves kept move).and (moves kept isSound move)).mono
      ?_ ?_
    · rintro (_ | span) reached ⟨advances, soundOn⟩
      · exact ⟨⟨last?, advances.2⟩, soundOn⟩
      · exact ⟨⟨some span, advances.2.2.2⟩, soundOn⟩
    · rintro failure reached ⟨keptOn, ordinary, soundOn⟩
      exact ⟨ordinary, ⟨last?, keptOn⟩, soundOn⟩
  · rintro cursor failure ⟨_, isSound⟩ refused
    exact shows isSound refused
  · rintro cursor ⟨⟨last?, kept⟩, isSound⟩ event
    exact ⟨⟨last?, (disciplined.disturbed kept event).1⟩,
      disturbs isSound event⟩

end Cursor

end PositionalSearch
