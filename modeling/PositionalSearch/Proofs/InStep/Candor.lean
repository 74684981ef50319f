import PositionalSearch.Proofs.Moves
import PositionalSearch.Proofs.Planned

/-!
# Candid cursors

A cursor is candid if it refuses a seek exactly when the seek asks it to go
back, and refuses nothing else.  The leaves are, wherever they stand.  A node
can refuse on behalf of a child, when the child is in a later document than
the one the node last saw it in; as long as no child is, the node is candid as
well.
-/

namespace PositionalSearch

/-- The failure of a seek that was asked to go back. -/
def Failure.isRefusal : Failure → Bool
  | .behindCurrent _ _ => true
  | .notPositioned | .closed | .unreadable _ | .timedOut | .breach _ => false

theorem Failure.exists_of_isRefusal {failure : Failure}
    (isRefusal : failure.isRefusal) :
    ∃ current target, failure = .behindCurrent current target := by
  cases failure with
  | behindCurrent current target => exact ⟨current, target, rfl⟩
  | notPositioned => cases isRefusal
  | closed => cases isRefusal
  | unreadable cause => cases isRefusal
  | timedOut => cases isRefusal
  | breach rule => cases isRefusal

theorem Standing.isRefusal_doc {standing : Standing} {failure : Failure}
    (failed : standing.doc = .error failure) : failure.isRefusal = false := by
  cases standing <;> cases failed <;> rfl

/-- To ask for what belongs to a span is not to seek. -/
theorem Standing.isRefusal_requireSpan {α : Type} {standing : Standing}
    {rest : Except Failure α} {failure : Failure}
    (failed : (do standing.requireSpan; rest) = .error failure)
    (plain : rest = .error failure → failure.isRefusal = false) :
    failure.isRefusal = false := by
  cases standing with
  | on span => exact plain failed
  | unstarted => cases failed; rfl
  | atDocument doc => cases failed; rfl
  | exhausted => cases failed; rfl
  | closed => cases failed; rfl

theorem Standing.isRefusal_planNext {standing : Standing} {failure : Failure}
    (failed : standing.planNext = .error failure) :
    failure.isRefusal = false := by
  cases standing with
  | closed => cases failed; rfl
  | unstarted => cases failed
  | on span => cases failed
  | atDocument doc => cases failed
  | exhausted => cases failed

/-- What is closed does not go on. -/
theorem Standing.not_planNext_of_closed {standing : Standing}
    (isClosed : standing = .closed) : ¬ standing.planNext = .ok true := by
  rw [isClosed]
  exact nofun

/-- What is refused is the target asked for. -/
theorem Standing.of_planSeek_eq_behindCurrent {standing : Standing}
    {current target asked : DocId}
    (refused : standing.planSeek asked =
      .error (.behindCurrent current target)) :
    asked = target ∧ standing.doc = .ok current ∧ target < current := by
  have same : asked = target := by
    cases standing with
    | unstarted => cases refused
    | exhausted => cases refused
    | closed => cases refused
    | atDocument doc =>
        rw [planSeek] at refused
        split at refused
        · cases refused
          rfl
        · cases refused
    | on span =>
        rw [planSeek] at refused
        split at refused
        · cases refused
          rfl
        · split at refused <;> cases refused
  subst same
  exact ⟨rfl, planSeek_eq_behindCurrent_iff.mp refused⟩

/-! ## Attempts that uphold a condition -/

namespace Attempt

variable {τ α β : Type} {holds : τ → Prop}

/-- An answer leaves a condition standing, and a failure is no refusal. -/
def Upholds (holds : τ → Prop) (attempt : Attempt Failure τ α) (state : τ) :
    Prop :=
  attempt.Meets state (fun _ => holds)
    fun failure _ => failure.isRefusal = false

theorem Upholds.bind {first : Attempt Failure τ α}
    {rest : α → Attempt Failure τ β} {state : τ}
    (upholds : first.Upholds holds state)
    (goesOn : ∀ value reached, holds reached →
      (rest value).Upholds holds reached) :
    (first >>= rest).Upholds holds state := by
  rw [Upholds, meets_bind]
  exact upholds.imp_answer goesOn

/-- What follows a look may depend on the state looked at. -/
theorem upholds_look_bind {rest : τ → Attempt Failure τ β} {state : τ}
    (upholds : (rest state).Upholds holds state) :
    (look >>= rest).Upholds holds state := upholds

/-- Work on a part that upholds a condition on the part. -/
theorem upholds_within {υ : Type} {part : τ → υ} {put : τ → υ → τ}
    {inner : Attempt Failure υ α} {holdsInner : υ → Prop} {state : τ}
    (upholds : inner.Upholds holdsInner (part state))
    (puts : ∀ reached, holdsInner reached → holds (put state reached)) :
    (within part put inner).Upholds holds state := by
  rw [Upholds, meets_within]
  exact upholds.imp_answer fun _ => puts

/-- To demand a later span is to breach a rule, but not to refuse a seek. -/
theorem meets_demandBeyond (span : Span) (span? : Option Span) (state : τ) :
    (Cursor.demandBeyond span span? : Attempt Failure τ _).Meets state
      (fun later? reached => reached = state ∧ later?.map Subtype.val = span?)
      (fun failure _ => failure.isRefusal = false) := by
  unfold Cursor.demandBeyond
  cases span? with
  | none => exact ⟨rfl, rfl⟩
  | some later =>
      dsimp only
      split
      · exact ⟨rfl, rfl⟩
      · rfl

end Attempt

namespace Cursor

variable {σ : Type} [Cursor σ] {fit : σ → Prop} {seen? : Option Span}
  {cursor : σ}

/-! ## Candor -/

/-- Only seeks that ask to go back are refused, in any state that is fit. -/
structure Candid (fit : σ → Prop) : Prop where
  moves : ∀ {cursor : σ}, fit cursor → ∀ move : Move,
    (go move).Meets cursor
      (fun span? reached => fit reached ∧ standing reached = .after span?)
      (fun failure reached => ∀ current target,
        failure = .behindCurrent current target →
          fit reached ∧ move = .seek target ∧ doc cursor = .ok current ∧
            target < current)
  payloads : ∀ {cursor : σ} {failure : Failure},
    payloads cursor = .error failure → failure.isRefusal = false
  refuses : ∀ {cursor : σ} {current target : DocId},
    doc cursor = .ok current → target < current →
      (seek target cursor).1 = .error (.behindCurrent current target)
  closed : ∀ {cursor : σ}, standing cursor = .closed → fit cursor

/--
An attempt to go on refuses nothing, and the cursor stands on what it answers.
-/
def Admits (fit : σ → Prop) (attempt : Attempt Failure σ (Option Span))
    (cursor : σ) : Prop :=
  attempt.Meets cursor
    (fun span? reached => fit reached ∧ standing reached = .after span?)
    (fun failure _ => failure.isRefusal = false)

/-- A child that is in no later document than the span it was seen on last. -/
structure Seen (fit : σ → Prop) (seen? : Option Span) (cursor : σ) : Prop where
  fit : fit cursor
  notAhead : ∀ current, doc cursor = .ok current →
    ∃ seen ∈ seen?, current ≤ seen.doc

/-- A child that is in no document is seen wherever its node saw it. -/
theorem Seen.of_none (seen : Seen fit none cursor) : Seen fit seen? cursor := by
  refine ⟨seen.fit, fun current isCurrent => ?_⟩
  obtain ⟨_, nowhere, _⟩ := seen.notAhead current isCurrent
  cases nowhere

theorem seen_after (isFit : fit cursor) {span? : Option Span}
    (stands : standing cursor = .after span?) : Seen fit span? cursor := by
  refine ⟨isFit, fun current isCurrent => ?_⟩
  rw [doc, stands] at isCurrent
  cases span? with
  | none => cases isCurrent
  | some span =>
      cases isCurrent
      exact ⟨span, rfl, UInt64.le_refl _⟩

/-- A child that is not asked to go back does not refuse. -/
theorem Candid.meets_go (candid : Candid fit) (seen : Seen fit seen? cursor)
    (move : Move)
    (onward : ∀ target ∈ move.target?, ∀ last ∈ seen?, last.doc ≤ target) :
    (go move).Meets cursor
      (fun span? reached => Seen fit span? reached ∧
        standing reached = .after span?)
      (fun failure _ => failure.isRefusal = false) := by
  apply (candid.moves seen.fit move).mono
  · intro span? reached answered
    exact ⟨seen_after answered.1 answered.2, answered.2⟩
  · intro failure reached refused
    cases failure with
    | behindCurrent current target =>
        obtain ⟨_, rfl, isCurrent, before⟩ := refused current target rfl
        obtain ⟨last, isLast, notAhead⟩ := seen.notAhead current isCurrent
        have reaches := UInt64.le_trans notAhead (onward target rfl last isLast)
        exact absurd before (UInt64.not_lt.mpr reaches)
    | notPositioned => rfl
    | closed => rfl
    | unreadable cause => rfl
    | timedOut => rfl
    | breach rule => rfl

theorem Candid.meets_next (candid : Candid fit)
    (seen : Seen fit seen? cursor) :
    (next : Attempt Failure σ _).Meets cursor (Seen fit)
      (fun failure _ => failure.isRefusal = false) :=
  (candid.meets_go seen .next nofun).imp_answer fun _ _ answered => answered.1

theorem Candid.meets_seek (candid : Candid fit) (seen : Seen fit seen? cursor)
    {target : DocId} (onward : ∀ last ∈ seen?, last.doc ≤ target) :
    (seek target : Attempt Failure σ _).Meets cursor (Seen fit)
      (fun failure _ => failure.isRefusal = false) := by
  refine (candid.meets_go seen (.seek target) ?_).imp_answer
    fun _ _ answered => answered.1
  rintro _ ⟨rfl⟩
  exact onward

/-- A child that was not seen yet can be entered anywhere. -/
theorem Candid.meets_enter (candid : Candid fit) (seen : Seen fit none cursor)
    (target? : Option DocId) :
    (enter target? : Attempt Failure σ _).Meets cursor (Seen fit)
      (fun failure _ => failure.isRefusal = false) := by
  cases target? with
  | none => exact candid.meets_next seen
  | some target => exact candid.meets_seek seen nofun

theorem Candid.meets_nextBeyond (candid : Candid fit)
    (seen : Seen fit seen? cursor) (span : Span) :
    (nextBeyond span : Attempt Failure σ _).Meets cursor
      (fun later? reached => Seen fit (later?.map Subtype.val) reached)
      (fun failure _ => failure.isRefusal = false) := by
  rw [nextBeyond, Attempt.meets_bind]
  refine (candid.meets_next seen).imp_answer fun span? reached answered => ?_
  apply (Attempt.meets_demandBeyond span span? reached).imp_answer
  rintro later? _ ⟨rfl, rfl⟩
  exact answered

/-- The document after that of a span is not behind the span. -/
theorem Candid.meets_nextDocument (candid : Candid fit) {span : Span}
    (seen : Seen fit (some span) cursor) :
    (nextDocument span : Attempt Failure σ _).Meets cursor
      (fun later? reached => ∀ later ∈ later?,
        Seen fit (some later.val) reached)
      (fun failure _ => failure.isRefusal = false) := by
  unfold nextDocument
  split
  · rename_i target isNext
    have onward : ∀ last ∈ some span, last.doc ≤ target := by
      rintro _ ⟨rfl⟩
      rw [UInt64.le_iff_toNat_le, DocId.after?_eq_some_iff.mp isNext]
      exact Nat.le_succ _
    rw [seekBeyond, Attempt.meets_bind]
    refine (candid.meets_seek seen onward).imp_answer
      fun span? reached answered => ?_
    apply (Attempt.meets_demandBeyond span span? reached).imp_answer
    rintro _ _ ⟨rfl, rfl⟩ later ⟨rfl⟩
    exact answered
  · exact nofun

/-! ## Planned cursors -/

section

variable {onward : Attempt Failure σ (Option Span)}
  {forward : DocId → Attempt Failure σ (Option Span)}

/-- By its plan a cursor refuses what asks it to go back. -/
theorem Planned.refuses (planned : Planned onward forward)
    {current target : DocId} (isCurrent : doc cursor = .ok current)
    (before : target < current) :
    (seek target cursor).1 = .error (.behindCurrent current target) := by
  have refused : (standing cursor).planSeek target =
      .error (.behindCurrent current target) :=
    Standing.planSeek_eq_behindCurrent_iff.mpr ⟨isCurrent, before⟩
  rw [planned.seek_eq]
  change ((_ : Attempt Failure σ _).run cursor).1 = _
  simp [refused]

/-- A planned cursor is candid if both its ways to move refuse nothing. -/
theorem Planned.candid (planned : Planned onward forward)
    (goesOn : ∀ {cursor : σ}, fit cursor →
      (standing cursor).planNext = .ok true → Admits fit onward cursor)
    (goesForward : ∀ {cursor : σ} {target : DocId}, fit cursor →
      (standing cursor).planSeek target = .ok .forward →
        Admits fit (forward target) cursor)
    (payloads : ∀ {cursor : σ} {failure : Failure},
      payloads cursor = .error failure → failure.isRefusal = false)
    (closed : ∀ {cursor : σ}, standing cursor = .closed → fit cursor) :
    Candid fit where
  moves := by
    intro cursor isFit move
    have admitted : ∀ {attempt : Attempt Failure σ (Option Span)},
        Admits fit attempt cursor →
        attempt.Meets cursor
          (fun span? reached => fit reached ∧
            standing reached = .after span?)
          (fun failure reached => ∀ current target,
            failure = .behindCurrent current target →
              fit reached ∧ move = .seek target ∧
                doc cursor = .ok current ∧ target < current) := by
      intro attempt admits
      apply admits.imp_failure
      rintro _ reached notRefused current target rfl
      cases notRefused
    cases move with
    | next =>
        exact planned.meets_next (fun _ => nofun)
          (fun stands => ⟨isFit, stands⟩)
          fun goes => admitted (goesOn isFit goes)
    | seek target =>
        refine planned.meets_seek (fun _ => nofun)
          (fun stands => ⟨isFit, stands⟩) ?_ ?_
          fun goes => admitted (goesForward isFit goes)
        · rintro current isCurrent before _ _ ⟨rfl, rfl⟩
          exact ⟨isFit, rfl, isCurrent, before⟩
        · intro span stands _
          exact admitted (goesOn isFit (by rw [stands]; rfl))
  payloads := payloads
  refuses := planned.refuses
  closed := closed

end

/-! ## Carried cursors -/

/-- A cursor that carries a candid one, and is fit where that one is. -/
inductive Carried {υ : Type} [Cursor υ] (fit : υ → Prop) : υ → Prop
  | intro {τ : Type} [Cursor τ] {wrap : τ → υ} {fitInner : τ → Prop}
      (carries : Carries wrap) (candid : Candid fitInner)
      (same : ∀ cursor, fit (wrap cursor) ↔ fitInner cursor) (cursor : τ) :
      Carried fit (wrap cursor)

/-- Cursors that carry candid ones are candid. -/
theorem Candid.of_carried (carried : ∀ cursor : σ, Carried fit cursor) :
    Candid fit where
  moves := by
    intro cursor isFit move
    obtain ⟨carries, candid, same, cursor⟩ := carried cursor
    rw [carries.meets_go_iff]
    apply (candid.moves ((same cursor).mp isFit) move).mono
    · rintro span? reached ⟨isFit, stands⟩
      exact ⟨(same reached).mpr isFit, (carries.standing_eq _).trans stands⟩
    · intro failure reached refused current target isRefusal
      obtain ⟨isFit, isSeek, isCurrent, before⟩ :=
        refused current target isRefusal
      refine ⟨(same reached).mpr isFit, isSeek, ?_, before⟩
      rw [doc, carries.standing_eq]
      exact isCurrent
  payloads := by
    intro cursor failure failed
    obtain ⟨carries, candid, same, cursor⟩ := carried cursor
    rw [carries.payloads_eq] at failed
    exact candid.payloads failed
  refuses := by
    intro cursor current target isCurrent before
    obtain ⟨carries, candid, same, cursor⟩ := carried cursor
    rw [doc, carries.standing_eq] at isCurrent
    exact (congrArg Prod.fst (carries.go_eq cursor (.seek target))).trans
      (candid.refuses isCurrent before)
  closed := by
    intro cursor isClosed
    obtain ⟨carries, candid, same, cursor⟩ := carried cursor
    rw [carries.standing_eq] at isClosed
    exact (same cursor).mpr (candid.closed isClosed)

end Cursor

end PositionalSearch
