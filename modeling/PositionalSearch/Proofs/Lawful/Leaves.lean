import PositionalSearch.Proofs.Lawful.Basic
import PositionalSearch.Proofs.Order.Leaves

/-!
# Leaves are lawful

A cursor over a listing that stands on a span has passed an entry, which is the
one to show.  One over a term only reads on, and what it reads comes later in
the postings.
-/

namespace PositionalSearch

open Attempt (Abides)
open Cursor (Lawful lawful_of_disciplined)

variable {ι : Type}

/-- A cursor without spans has nothing to break. -/
theorem Nothing.lawful_fresh :
    Lawful (fun (_ : ι) (cursor : Nothing) => cursor) fresh := by
  have ended : ∀ cursor : Nothing,
      finish.Abides (fun _ => True) cursor := fun _ => trivial
  refine ⟨fun _ => True, ⟨fun held move => ?_, fun _ refused => ?_,
    fun held _ => held⟩, trivial⟩
  · exact planned.abides held (fun _ => ended _) (fun _ _ => ended _) move
  · exact Standing.ordinary_of_requireSpan refused nofun

/-! ## Listings -/

namespace Listed

/-- The cursor is within its listing, and on a span it has passed an entry. -/
structure InRange (cursor : Listed) : Prop where
  within : cursor.offset ≤ cursor.listing.size
  passed : ∀ span, cursor.standing = .on span → 0 < cursor.offset

theorem abides_standAt (cursor : Listed) (place : Nat) :
    (standAt place).Abides InRange cursor := by
  cases found : cursor.listing.entry? place with
  | none =>
      exact (Attempt.meets_of_ok (standAt_of_end found)).mpr
        ⟨Nat.le_refl _, nofun⟩
  | some entry =>
      obtain ⟨inside, _⟩ := Array.getElem?_eq_some_iff.mp found
      exact (Attempt.meets_of_ok (standAt_of_entry found)).mpr
        ⟨inside, fun _ _ => Nat.succ_pos place⟩

theorem abides_go {cursor : Listed} (inRange : cursor.InRange)
    (move : Move) : (Cursor.go move).Abides InRange cursor :=
  planned.abides inRange (fun _ => abides_standAt cursor _)
    (fun _ _ => abides_standAt cursor _) move

/-- On a span there is an entry to show. -/
theorem InRange.shows {cursor : Listed} {failure : Failure}
    (inRange : cursor.InRange)
    (refused : Cursor.payloads cursor = .error failure) :
    failure.Ordinary := by
  refine Standing.ordinary_of_requireSpan refused fun span isOn stored => ?_
  obtain ⟨place, isPlace⟩ :=
    Nat.exists_eq_succ_of_ne_zero (inRange.passed span isOn).ne'
  simp [Listed.stored, isPlace] at stored

theorem lawful_ofListing (listing : Listing) :
    Lawful (fun (_ : ι) (cursor : Listed) => cursor) (ofListing listing) :=
  ⟨InRange, ⟨abides_go, InRange.shows, fun inRange _ => inRange⟩,
    Nat.zero_le _, nofun⟩

end Listed

namespace Probe

/-- The probe is within its listing, and on a span it has passed an entry. -/
structure InRange (probe : Probe) : Prop where
  within : probe.offset ≤ probe.listing.size
  passed : ∀ span, probe.standing = .on span → 0 < probe.offset

variable {probe : Probe}

theorem abides_stepOn (inRange : probe.InRange) :
    stepOn.Abides InRange probe := by
  cases found : probe.listing.entry? probe.offset with
  | some entry =>
      obtain ⟨inside, _⟩ := Array.getElem?_eq_some_iff.mp found
      exact (Attempt.meets_of_ok (stepOn_of_entry found)).mpr
        ⟨inside, fun _ _ => Nat.succ_pos _⟩
  | none =>
      cases armed : probe.fault? with
      | none =>
          exact (Attempt.meets_of_ok (stepOn_of_end found armed)).mpr
            ⟨inRange.within, nofun⟩
      | some fault =>
          refine (Attempt.meets_of_error (stepOn_of_fault found armed)).mpr
            ⟨?_, inRange⟩
          cases fault <;> exact nofun

/-- Entries are only passed, and none beyond the last one. -/
theorem InRange.passBefore (inRange : probe.InRange) (target : DocId) :
    (passBefore target probe).InRange := by
  rw [passBefore_eq]
  constructor
  · exact Bisection.boundary_le _ _ _ _ (Nat.le_refl _) inRange.within
  · intro span isOn
    exact Nat.lt_of_lt_of_le (inRange.passed span isOn)
      (probe.listing.le_placeFrom _ _)

theorem abides_go (inRange : probe.InRange) (move : Move) :
    (Cursor.go move).Abides InRange probe := by
  cases move with
  | next =>
      have counted : InRange { probe with nexts := probe.nexts + 1 } :=
        ⟨inRange.within, inRange.passed⟩
      simp only [Abides, Cursor.go, Cursor.next, Attempt.meets_bind,
        Attempt.meets_update, Attempt.meets_look]
      cases plan : probe.standing.planNext with
      | error failure => exact ⟨Standing.ordinary_of_planNext plan, counted⟩
      | ok goes =>
          cases goes with
          | false => exact counted
          | true => exact abides_stepOn counted
  | seek target =>
      have counted : InRange { probe with seeks := probe.seeks + 1 } :=
        ⟨inRange.within, inRange.passed⟩
      simp only [Abides, Cursor.go, Cursor.seek, Attempt.meets_bind,
        Attempt.meets_update, Attempt.meets_look]
      cases plan : probe.standing.planSeek target with
      | error failure => exact ⟨Standing.ordinary_of_planSeek plan, counted⟩
      | ok choice =>
          cases choice with
          | finished => exact counted
          | stepOn => exact abides_stepOn counted
          | forward => exact abides_stepOn (counted.passBefore target)

theorem InRange.shows {failure : Failure} (inRange : probe.InRange)
    (refused : Cursor.payloads probe = .error failure) :
    failure.Ordinary := by
  refine Standing.ordinary_of_requireSpan refused fun span isOn stored => ?_
  obtain ⟨place, isPlace⟩ :=
    Nat.exists_eq_succ_of_ne_zero (inRange.passed span isOn).ne'
  simp [Probe.stored, isPlace] at stored

theorem InRange.arm (inRange : probe.InRange) (name : String)
    (fault? : Option ProbeFault) : (probe.arm name fault?).InRange := by
  unfold Probe.arm
  split
  · exact ⟨inRange.within, inRange.passed⟩
  · exact inRange

theorem inRange_ofListing (name : String) (listing : Listing)
    (fault? : Option ProbeFault) :
    (ofListing name listing fault?).InRange := ⟨Nat.zero_le _, nofun⟩

theorem lawful_ofListing (name : String) (listing : Listing)
    (fault? : Option ProbeFault) :
    Lawful disturb (ofListing name listing fault?) :=
  ⟨InRange, ⟨abides_go, InRange.shows,
    fun inRange event => inRange.arm event.1 event.2⟩,
    inRange_ofListing name listing fault?⟩

end Probe

/-! ## Terms -/

namespace Term

variable {π : Type} [Postings π]
  {marks : Option DocId → Option Position → π → Prop} {last? : Option Span}
  {term : Term π}

omit [Postings π] in
/-- What is read from the postings may depend on where they stand then. -/
theorem abides_reading_bind {α β : Type} {call : Attempt ReadFault π α}
    {rest : α → Attempt Failure (Term π) β} {answered : α → π → Prop}
    {failed : ReadFault → π → Prop}
    (meets : call.Meets term.postings answered failed)
    (goesOn : ∀ value postings, answered value postings →
      (rest value).Abides (fun _ => True) { term with postings := postings }) :
    (reading call >>= rest).Abides (fun _ => True) term := by
  simp only [Abides, reading, Attempt.meets_bind, Attempt.meets_mapFailure,
    Attempt.meets_within]
  exact meets.mono goesOn fun _ _ _ => ⟨by rintro _ ⟨⟩, trivial⟩

theorem abides_takePosition (steady : Postings.Steady marks) {doc : DocId}
    {position? : Option Position}
    (inside : InDocument marks last? doc position? term) :
    (takePosition doc).Abides (fun _ => True) term :=
  abides_reading_bind (steady.nextPosition inside.marked)
    fun _ _ _ => trivial

/-- The document after the current one is a later one. -/
theorem abides_advance (steady : Postings.Steady marks) {term : Term π}
    {doc : DocId} {position? : Option Position}
    (inside : InDocument marks last? doc position? term) :
    (advance doc).Abides (fun _ => True) term := by
  rw [advance]
  apply Attempt.abides_look_bind
  split
  · exact abides_takePosition steady inside
  · refine abides_reading_bind (steady.nextDocument inside.marked) ?_
    rintro (_ | later) postings further
    · trivial
    · obtain ⟨after, marked⟩ := further later rfl
      have forward := after doc rfl
      have kept : Keeps marks last?
          (standAt later { term with postings := postings }) :=
        ⟨fun last isLast =>
          UInt64.lt_of_le_of_lt (inside.reached last isLast) forward, marked⟩
      obtain ⟨_, entered⟩ := kept.inDocument later rfl
      have := DocId.room_lt_room forward
      dsimp only
      rw [dif_pos forward]
      exact abides_advance steady entered
termination_by doc.room

theorem abides_arrive (steady : Postings.Steady marks) {doc? : Option DocId}
    (reached : ∀ doc ∈ doc?, (∀ last ∈ last?, last.doc < doc) ∧
      marks (some doc) none term.postings) :
    (arrive doc?).Abides (fun _ => True) term := by
  cases doc? with
  | none => trivial
  | some doc =>
      have kept : Keeps marks last? (standAt doc term) := reached doc rfl
      obtain ⟨_, entered⟩ := kept.inDocument doc rfl
      exact abides_advance steady entered

theorem abides_onward (steady : Postings.Steady marks)
    (kept : Keeps marks last? term) (goes : term.standing.planNext = .ok true) :
    onward.Abides (fun _ => True) term := by
  cases stands : term.standing with
  | on span =>
      obtain ⟨_, inside⟩ := kept.inDocument span.doc (by rw [stands]; rfl)
      rw [Abides, Attempt.meets_congr
        (show onward term = advance span.doc term by
          simp only [onward, stands])]
      exact abides_advance steady inside
  | atDocument doc =>
      obtain ⟨_, inside⟩ := kept.inDocument doc (by rw [stands]; rfl)
      rw [Abides, Attempt.meets_congr
        (show onward term = advance doc term by simp only [onward, stands])]
      exact abides_advance steady inside
  | unstarted =>
      simp only [Keeps, stands] at kept
      obtain ⟨rfl, marked⟩ := kept
      rw [Abides, Attempt.meets_congr (show onward term =
        (do arrive (← reading Postings.nextDocument) :
          Attempt Failure (Term π) _) term by simp only [onward, stands])]
      refine abides_reading_bind (steady.nextDocument marked) ?_
      intro doc? postings further
      have reached : ∀ doc ∈ doc?, (∀ last ∈ (none : Option Span),
          last.doc < doc) ∧ marks (some doc) none postings :=
        fun doc isDoc => ⟨by simp, (further doc isDoc).2⟩
      exact abides_arrive steady reached
  | exhausted =>
      rw [stands] at goes
      cases goes
  | closed =>
      rw [stands] at goes
      cases goes

theorem abides_forward (steady : Postings.Steady marks)
    (kept : Keeps marks last? term) {target : DocId}
    (goes : term.standing.planSeek target = .ok .forward) :
    (forward target).Abides (fun _ => True) term := by
  apply Attempt.abides_look_bind
  split
  · rename_i stands
    obtain ⟨_, inside⟩ := kept.inDocument target (by rw [stands]; rfl)
    exact abides_advance steady inside
  · rename_i elsewhere
    obtain ⟨_, _, marked, before, _⟩ := kept.beforeSeek goes elsewhere
    refine abides_reading_bind (steady.seekDocument marked target) ?_
    intro doc? postings further
    have reached : ∀ doc ∈ doc?, (∀ last ∈ last?, last.doc < doc) ∧
        marks (some doc) none postings := by
      intro doc isDoc
      obtain ⟨⟨_, entered⟩, landed⟩ := further doc isDoc
      exact ⟨fun last isLast =>
        UInt64.lt_of_lt_of_le (before last isLast) landed, entered⟩
    exact abides_arrive steady reached

theorem lawful_ofPostings (steady : Postings.Steady marks) {postings : π}
    (marked : marks none none postings) :
    Lawful (fun (_ : ι) (term : Term π) => term) (ofPostings postings) := by
  refine lawful_of_disciplined (disciplined steady)
    (fun kept isSound => planned.abides isSound
      (abides_onward steady kept) fun _ => abides_forward steady kept)
    (fun _ refused => ?_) (fun isSound _ => isSound)
    (show Keeps marks none (ofPostings postings) from ⟨rfl, marked⟩) trivial
  exact Standing.ordinary_of_requireSpan refused nofun

end Term

end PositionalSearch
