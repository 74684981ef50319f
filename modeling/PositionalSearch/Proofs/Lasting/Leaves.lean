import PositionalSearch.Postings.Scripted
import PositionalSearch.Proofs.Lasting.Basic
import PositionalSearch.Proofs.Listing

/-!
# What lasts of leaves

A leaf reads what it was given and never changes it: its listing, the number
of positions it holds, the cost it announces.  Only closing is counted as such.
-/

namespace PositionalSearch

open Attempt (Sustains sustains_pure sustains_fail sustains_look_bind)
open Cursor (Concludes Lasting concludes_look_bind)

variable {spared : Failure → Prop}

/-! ## Listings -/

/-- The cursor without spans keeps to the rules of moving. -/
theorem Nothing.concludes_go (cursor : Nothing) (move : Move) :
    Concludes spared (fun standing reached => reached.standing = standing)
      cursor.standing (Cursor.go move) cursor := by
  have ended : Concludes spared
      (fun standing reached => reached.standing = standing)
      cursor.standing finish cursor := rfl
  exact planned.concludes rfl ended (fun _ => ended) move

namespace Listed

/-- The cursor reads the listing, and stands where it should. -/
structure Held (listing : Listing) (standing : Standing) (cursor : Listed) :
    Prop where
  listing : cursor.listing = listing
  stands : cursor.standing = standing

theorem concludes_standAt {listing : Listing} {stood : Standing}
    {cursor : Listed} (held : Held listing stood cursor) (place : Nat) :
    Concludes spared (Held listing) stood (standAt place) cursor := by
  cases found : cursor.listing.entry? place with
  | none =>
      exact (Attempt.meets_of_ok (standAt_of_end found)).mpr
        ⟨held.listing, rfl⟩
  | some entry =>
      exact (Attempt.meets_of_ok (standAt_of_entry found)).mpr
        ⟨held.listing, rfl⟩

theorem concludes_go (cursor : Listed) (move : Move) :
    Concludes spared (Held cursor.listing) cursor.standing (Cursor.go move)
      cursor := by
  have here : Held cursor.listing cursor.standing cursor := ⟨rfl, rfl⟩
  exact planned.concludes here (concludes_standAt here _)
    (fun _ => concludes_standAt here _) move

end Listed

namespace Probe

/-- The probe reads its listing and was closed as often as before. -/
structure Held (original : Probe) (standing : Standing) (probe : Probe) :
    Prop where
  name : probe.name = original.name
  listing : probe.listing = original.listing
  closes : probe.closes = original.closes
  stands : probe.standing = standing

variable {original probe : Probe} {stood : Standing}

theorem concludes_stepOn (held : Held original stood probe) :
    Concludes spared (Held original) stood stepOn probe := by
  cases found : probe.listing.entry? probe.offset with
  | some entry =>
      exact (Attempt.meets_of_ok (stepOn_of_entry found)).mpr
        ⟨held.name, held.listing, held.closes, rfl⟩
  | none =>
      cases armed : probe.fault? with
      | none =>
          exact (Attempt.meets_of_ok (stepOn_of_end found armed)).mpr
            ⟨held.name, held.listing, held.closes, rfl⟩
      | some fault =>
          exact (Attempt.meets_of_error (stepOn_of_fault found armed)).mpr
            fun _ => held

theorem concludes_go (probe : Probe) (move : Move) :
    Concludes spared (Held probe) probe.standing (Cursor.go move) probe := by
  cases move with
  | next =>
      have counted : Held probe probe.standing
          { probe with nexts := probe.nexts + 1 } := ⟨rfl, rfl, rfl, rfl⟩
      simp only [Concludes, Cursor.go, Cursor.next, Attempt.meets_bind,
        Attempt.meets_update, Attempt.meets_look]
      cases plan : probe.standing.planNext with
      | error failure => exact fun _ => counted
      | ok goes =>
          cases goes with
          | true => exact concludes_stepOn counted
          | false =>
              have ended := Standing.planNext_eq_false_iff.mp plan
              exact ⟨rfl, rfl, rfl, ended⟩
  | seek target =>
      have counted : Held probe probe.standing
          { probe with seeks := probe.seeks + 1 } := ⟨rfl, rfl, rfl, rfl⟩
      simp only [Concludes, Cursor.go, Cursor.seek, Attempt.meets_bind,
        Attempt.meets_update, Attempt.meets_look]
      cases plan : probe.standing.planSeek target with
      | error failure => exact fun _ => counted
      | ok choice =>
          cases choice with
          | stepOn => exact concludes_stepOn counted
          | finished =>
              have ended := Standing.planSeek_eq_finished_iff.mp plan
              exact ⟨rfl, rfl, rfl, ended⟩
          | forward =>
              have passed : Held probe probe.standing (passBefore target
                  { probe with seeks := probe.seeks + 1 }) :=
                ⟨rfl, rfl, rfl, rfl⟩
              exact concludes_stepOn passed

end Probe

/-! ## Postings -/

/-- Reading leaves the condition on the postings standing. -/
structure Postings.Constant {π : Type} [Postings π] (holds : π → Prop) :
    Prop where
  nextDocument : ∀ {postings : π}, holds postings →
    (Postings.nextDocument : Attempt ReadFault π _).Sustains (fun _ => True)
      holds postings
  seekDocument : ∀ {postings : π}, holds postings → ∀ target : DocId,
    (Postings.seekDocument target : Attempt ReadFault π _).Sustains
      (fun _ => True) holds postings
  nextPosition : ∀ {postings : π}, holds postings →
    (Postings.nextPosition : Attempt ReadFault π _).Sustains (fun _ => True)
      holds postings

/-- Postings in memory hold as many positions as at first. -/
theorem StoredPostings.constant_total (total : Nat) :
    Postings.Constant fun postings : StoredPostings =>
      postings.total = total where
  nextDocument held := held
  seekDocument held _ := held
  nextPosition := by
    intro postings held
    simp only [Sustains, Attempt.Meets, Attempt.run, Postings.nextPosition,
      nextPosition]
    split
    · rename_i outcome
      split at outcome <;> cases outcome
      exact held
    · rename_i outcome
      split at outcome <;> cases outcome
      exact fun _ => held

namespace ScriptedPostings

/-- The script is the same, and so is the number of positions and closings. -/
structure Held (original postings : ScriptedPostings) : Prop where
  script : postings.script = original.script
  total : postings.stored.total = original.stored.total
  closes : postings.calls.close = original.calls.close

variable {original postings : ScriptedPostings}

/-- The cost announced depends on the script and on what is stored. -/
theorem Held.cost_eq (held : Held original postings) :
    Postings.cost postings = Postings.cost original := by
  simp only [Postings.cost, held.script, held.total]

/-- To make a call but that of closing leaves the closings uncounted. -/
theorem sustains_perform {α : Type} {call : PostingsCall}
    {plain : Attempt ReadFault StoredPostings α}
    (held : Held original postings) (isRead : call ≠ .close)
    (sustains : plain.Sustains (fun _ => True)
      (fun stored => stored.total = original.stored.total) postings.stored) :
    (perform call plain).Sustains (fun _ => True) (Held original)
      postings := by
  have uncounted : (postings.calls.add call).close =
      postings.calls.close := by
    cases call with
    | close => exact absurd rfl isRead
    | nextDocument => rfl
    | seekDocument => rfl
    | nextPosition => rfl
  have closes := uncounted.trans held.closes
  simp only [Sustains, Attempt.Meets, Attempt.run, perform] at sustains ⊢
  cases postings.script.fault? call
      ((postings.calls.add call).count call) with
  | some fault => exact fun _ => ⟨held.script, held.total, closes⟩
  | none =>
      dsimp only
      cases outcome : plain postings.stored with
      | mk result stored =>
          rw [outcome] at sustains
          cases result with
          | ok value => exact ⟨held.script, sustains, closes⟩
          | error fault =>
              exact fun _ => ⟨held.script, sustains trivial, closes⟩

theorem sustains_performMove {call : PostingsCall}
    {plain : Attempt ReadFault StoredPostings (Option DocId)}
    (held : Held original postings) (isRead : call ≠ .close)
    (sustains : plain.Sustains (fun _ => True)
      (fun stored => stored.total = original.stored.total) postings.stored) :
    (performMove call plain).Sustains (fun _ => True) (Held original)
      postings :=
  (sustains_perform held isRead sustains).bind fun _ _ heldOn =>
    ⟨heldOn.script, heldOn.total, heldOn.closes⟩

theorem constant_held (original : ScriptedPostings) :
    Postings.Constant (Held original) where
  nextDocument held := sustains_performMove held nofun
    ((StoredPostings.constant_total _).nextDocument held.total)
  seekDocument held target := sustains_performMove held nofun
    ((StoredPostings.constant_total _).seekDocument held.total target)
  nextPosition held := sustains_perform held nofun
    ((StoredPostings.constant_total _).nextPosition held.total)

end ScriptedPostings

/-! ## Terms -/

namespace Term

variable {π : Type} [Postings π] {holds : π → Prop} {stays : Term π → Prop}
  {term : Term π}

/-- A condition on a term that its steps leave standing. -/
structure Steadfast (holds : π → Prop) (stays : Term π → Prop) : Prop where
  exchange : ∀ {term : Term π}, stays term → ∀ postings : π,
    stays { term with postings := postings }
  finish : ∀ {term : Term π}, stays term →
    stays { term with standing := .exhausted }
  standAt : ∀ {term : Term π}, stays term → holds term.postings →
    ∀ doc : DocId, stays (standAt doc term)
  take : ∀ {term : Term π}, stays term → term.taken < term.frequency →
    ∀ (payload? : Option Payload) (span : Span), stays { term with
      taken := term.taken + 1
      payload? := payload?
      standing := .on span }

/-- A term is not closed by any step of its own. -/
theorem steadfast_open (shut : Prop) :
    Steadfast holds fun term : Term π => term.standing = .closed → shut where
  exchange stays _ := stays
  finish _ := nofun
  standAt _ _ _ := nofun
  take _ _ _ _ := nofun

/-- The postings are as they should be, and so is the rest of the term. -/
structure Held (holds : π → Prop) (stays : Term π → Prop) (term : Term π) :
    Prop where
  postings : holds term.postings
  stays : stays term

variable (steadfast : Steadfast holds stays)
include steadfast

theorem sustains_reading {α : Type} {call : Attempt ReadFault π α}
    (held : Held holds stays term)
    (sustains : call.Sustains (fun _ => True) holds term.postings) :
    (reading call).Sustains spared (Held holds stays) term := by
  simp only [Sustains, reading, Attempt.meets_mapFailure,
    Attempt.meets_within]
  exact Attempt.Meets.mono sustains
    (fun _ _ kept => ⟨kept, steadfast.exchange held.stays _⟩)
    fun _ _ kept _ => ⟨kept trivial, steadfast.exchange held.stays _⟩

theorem sustains_finish (held : Held holds stays term) :
    finish.Sustains spared (Held holds stays) term :=
  ⟨held.postings, steadfast.finish held.stays⟩

theorem Held.standAt (held : Held holds stays term) (doc : DocId) :
    Held holds stays (standAt doc term) :=
  ⟨held.postings, steadfast.standAt held.stays held.postings doc⟩

variable (constant : Postings.Constant holds)
include constant

theorem sustains_takePosition (held : Held holds stays term)
    (left : term.taken < term.frequency) (doc : DocId) :
    (takePosition doc).Sustains spared (Held holds stays) term := by
  simp only [Sustains, takePosition, reading, Attempt.meets_bind,
    Attempt.meets_mapFailure, Attempt.meets_within, Attempt.meets_update,
    Attempt.meets_pure]
  refine Attempt.Meets.mono (constant.nextPosition held.postings) ?_ ?_
  · intro position postings kept
    exact ⟨kept,
      steadfast.take (steadfast.exchange held.stays postings) left _ _⟩
  · exact fun _ postings kept _ =>
      ⟨kept trivial, steadfast.exchange held.stays postings⟩

theorem sustains_advance {term : Term π} (held : Held holds stays term)
    (doc : DocId) :
    (advance doc).Sustains spared (Held holds stays) term := by
  rw [advance]
  apply sustains_look_bind
  split
  · rename_i left
    exact sustains_takePosition steadfast constant held left doc
  · refine (sustains_reading steadfast held
      (constant.nextDocument held.postings)).bind ?_
    intro later? reached heldOn
    cases later? with
    | none => exact sustains_finish steadfast heldOn
    | some later =>
        dsimp only
        split
        · rename_i forward
          have := DocId.room_lt_room forward
          exact sustains_advance (heldOn.standAt steadfast later) later
        · exact sustains_fail heldOn _
termination_by doc.room

theorem sustains_arrive (held : Held holds stays term)
    (doc? : Option DocId) :
    (arrive doc?).Sustains spared (Held holds stays) term := by
  cases doc? with
  | none => exact sustains_finish steadfast held
  | some doc =>
      exact sustains_advance steadfast constant (held.standAt steadfast doc) doc

theorem sustains_onward (held : Held holds stays term) :
    onward.Sustains spared (Held holds stays) term := by
  unfold Sustains
  cases stands : term.standing with
  | on span =>
      rw [Attempt.meets_congr (show onward term = advance span.doc term by
        simp only [onward, stands])]
      exact sustains_advance steadfast constant held span.doc
  | atDocument doc =>
      rw [Attempt.meets_congr (show onward term = advance doc term by
        simp only [onward, stands])]
      exact sustains_advance steadfast constant held doc
  | unstarted =>
      rw [Attempt.meets_congr (show onward term =
        (do arrive (← reading Postings.nextDocument) :
          Attempt Failure (Term π) _) term by simp only [onward, stands])]
      exact (sustains_reading steadfast held
        (constant.nextDocument held.postings)).bind fun doc? _ heldOn =>
          sustains_arrive steadfast constant heldOn doc?
  | exhausted =>
      exact (Attempt.meets_of_ok (show onward term = (.ok none, term) by
        simp only [onward, stands])).mpr held
  | closed =>
      exact (Attempt.meets_of_ok (show onward term = (.ok none, term) by
        simp only [onward, stands])).mpr held

theorem sustains_forward (held : Held holds stays term) (target : DocId) :
    (forward target).Sustains spared (Held holds stays) term := by
  apply sustains_look_bind
  split
  · exact sustains_advance steadfast constant held target
  · exact (sustains_reading steadfast held
      (constant.seekDocument held.postings target)).bind
        fun doc? _ heldOn => sustains_arrive steadfast constant heldOn doc?

/-- What reading the postings leaves standing lasts for the term. -/
theorem lasting : Lasting spared (Held holds stays : Term π → Prop) := by
  intro term held move
  cases move with
  | next =>
      exact planned.meets_next (fun _ _ => held) (fun _ => held)
        fun _ => sustains_onward steadfast constant held
  | seek target =>
      exact planned.meets_seek (fun _ _ => held) (fun _ => held)
        (fun _ _ _ _ => held)
        (fun _ _ _ => sustains_onward steadfast constant held)
        fun _ => sustains_forward steadfast constant held target

end Term

end PositionalSearch
