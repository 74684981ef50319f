import PositionalSearch.Inspection
import PositionalSearch.Proofs.Listing
import PositionalSearch.Proofs.Order.Discipline
import PositionalSearch.Proofs.Postings

/-!
# Leaves are disciplined

The cursors that have no children answer their spans in order.  A cursor over
a listing stands before the entry that comes next, one over a term in the
document that its postings stand in.
-/

namespace PositionalSearch

open Cursor (Disciplined Orderly Advances)

variable {ι : Type} {last? : Option Span}

/-! ## No spans, or those of a listing -/

namespace Nothing

theorem disciplined :
    Disciplined (fun (_ : ι) (cursor : Nothing) => cursor)
      (fun _ cursor => cursor.standing.span? = none) :=
  planned.disciplined
    (fun {_ cursor span} kept isOn => by
      change cursor.standing = .on span at isOn
      rw [isOn] at kept
      cases kept)
    (fun _ _ => ⟨rfl, rfl⟩)
    (fun _ _ => ⟨rfl, rfl⟩)
    (fun kept _ => ⟨kept, rfl⟩)

theorem orderly_fresh :
    Orderly (fun (_ : ι) (cursor : Nothing) => cursor) none fresh :=
  ⟨_, disciplined, rfl⟩

end Nothing

namespace Listed

/-- All entries to come lie after the last span. -/
structure Keeps (last? : Option Span) (cursor : Listed) : Prop where
  ahead : cursor.listing.Ahead cursor.offset last?
  last : ∀ span, cursor.standing = .on span → last? = some span

theorem meets_standAt {cursor : Listed} (kept : Keeps last? cursor)
    {place : Nat} (forward : cursor.offset ≤ place) {floor? : Option DocId}
    (floor : ∀ target ∈ floor?,
      ∀ inside : place < cursor.listing.entries.size,
        target ≤ cursor.listing.entries[place].span.doc) :
    (standAt place).Meets cursor (Advances Keeps last? floor?)
      (fun _ reached => Keeps last? reached) := by
  cases found : cursor.listing.entry? place with
  | none =>
      refine (Attempt.meets_of_ok (standAt_of_end found)).mpr ⟨rfl, ?_, nofun⟩
      intro last isLast later inside passed
      exact absurd inside (Nat.not_lt.mpr passed)
  | some entry =>
      obtain ⟨inside, rfl⟩ := Array.getElem?_eq_some_iff.mp found
      refine (Attempt.meets_of_ok (standAt_of_entry found)).mpr
        ⟨?_, ?_, rfl, ?_, ?_⟩
      · exact fun last isLast => kept.ahead last isLast place inside forward
      · exact fun target isTarget => floor target isTarget inside
      · exact cursor.listing.ahead_succ found
      · rintro span ⟨rfl⟩
        rfl

theorem disciplined :
    Disciplined (fun (_ : ι) (cursor : Listed) => cursor) Keeps :=
  planned.disciplined
    (fun kept isOn => kept.last _ isOn)
    (fun kept _ => meets_standAt kept (Nat.le_refl _) nofun)
    (fun {_ cursor target} kept _ => meets_standAt kept
      (cursor.listing.le_placeFrom cursor.offset target) (by
        rintro _ ⟨rfl⟩ inside
        exact cursor.listing.target_le_of_placeFrom_le (Nat.le_refl _)
          inside))
    (fun kept _ => ⟨kept, rfl⟩)

theorem orderly_ofListing (listing : Listing) :
    Orderly (fun (_ : ι) (cursor : Listed) => cursor) none
      (ofListing listing) :=
  ⟨Keeps, disciplined, listing.ahead_none 0, nofun⟩

end Listed

namespace Probe

/-- All entries to come lie after the last span. -/
structure Keeps (last? : Option Span) (probe : Probe) : Prop where
  ahead : probe.listing.Ahead probe.offset last?
  last : ∀ span, probe.standing = .on span → last? = some span

theorem meets_stepOn {probe : Probe} (kept : Keeps last? probe)
    {floor? : Option DocId}
    (floor : ∀ target ∈ floor?,
      ∀ inside : probe.offset < probe.listing.entries.size,
        target ≤ probe.listing.entries[probe.offset].span.doc) :
    stepOn.Meets probe (Advances Keeps last? floor?)
      (fun _ reached => Keeps last? reached) := by
  cases found : probe.listing.entry? probe.offset with
  | none =>
      cases armed : probe.fault? with
      | none =>
          refine (Attempt.meets_of_ok (stepOn_of_end found armed)).mpr
            ⟨rfl, kept.ahead, nofun⟩
      | some fault =>
          exact (Attempt.meets_of_error (stepOn_of_fault found armed)).mpr kept
  | some entry =>
      obtain ⟨inside, rfl⟩ := Array.getElem?_eq_some_iff.mp found
      refine (Attempt.meets_of_ok (stepOn_of_entry found)).mpr
        ⟨?_, ?_, rfl, ?_, ?_⟩
      · exact fun last isLast =>
          kept.ahead last isLast probe.offset inside (Nat.le_refl _)
      · exact fun target isTarget => floor target isTarget inside
      · exact probe.listing.ahead_succ found
      · rintro span ⟨rfl⟩
        rfl

/-- A probe that may be armed with a fault, or disarmed, at any time. -/
def disturb (event : String × Option ProbeFault) (probe : Probe) : Probe :=
  probe.arm event.1 event.2

theorem Keeps.arm {probe : Probe} (kept : Keeps last? probe)
    (event : String × Option ProbeFault) :
    Keeps last? (disturb event probe) ∧
      (disturb event probe).standing = probe.standing := by
  unfold disturb Probe.arm
  split
  · exact ⟨⟨kept.ahead, kept.last⟩, rfl⟩
  · exact ⟨kept, rfl⟩

theorem meets_go {probe : Probe} (kept : Keeps last? probe) (move : Move) :
    (Cursor.go move).Meets probe (Advances Keeps last? move.target?)
      (fun _ reached => Keeps last? reached) := by
  cases move with
  | next =>
      have counted : Keeps last? { probe with nexts := probe.nexts + 1 } :=
        ⟨kept.ahead, kept.last⟩
      simp only [Cursor.go, Cursor.next, Attempt.meets_bind,
        Attempt.meets_update, Attempt.meets_look]
      cases plan : probe.standing.planNext with
      | error failure => exact counted
      | ok goes =>
          cases goes with
          | false =>
              exact ⟨Standing.planNext_eq_false_iff.mp plan, counted⟩
          | true => exact meets_stepOn counted (by nofun)
  | seek target =>
      have counted : Keeps last? { probe with seeks := probe.seeks + 1 } :=
        ⟨kept.ahead, kept.last⟩
      simp only [Cursor.go, Cursor.seek, Attempt.meets_bind,
        Attempt.meets_update, Attempt.meets_look]
      cases plan : probe.standing.planSeek target with
      | error failure => exact counted
      | ok choice =>
          cases choice with
          | finished =>
              exact ⟨Standing.planSeek_eq_finished_iff.mp plan, counted⟩
          | stepOn =>
              obtain ⟨span, stands, rfl⟩ :=
                Standing.planSeek_eq_stepOn_iff.mp plan
              refine meets_stepOn counted ?_
              rintro _ ⟨rfl⟩ inside
              exact Span.doc_le_of_lt (counted.ahead span
                (counted.last span stands) _ inside (Nat.le_refl _))
          | forward =>
              simp only [Attempt.meets_ofExcept_ok, Attempt.meets_bind,
                Attempt.meets_update, passBefore_eq]
              have passed : Keeps last?
                  { probe with
                    seeks := probe.seeks + 1
                    offset := probe.listing.placeFrom probe.offset target } :=
                ⟨kept.ahead.mono (probe.listing.le_placeFrom _ _), kept.last⟩
              refine meets_stepOn passed ?_
              rintro _ ⟨rfl⟩ inside
              exact probe.listing.target_le_of_placeFrom_le (Nat.le_refl _)
                inside

theorem disciplined : Disciplined disturb Keeps where
  moves := meets_go
  finished := by
    intro last? probe kept stands move
    change probe.standing = .exhausted at stands
    cases move <;>
      simp [Cursor.go, Cursor.next, Cursor.seek, Standing.planNext,
        Standing.planSeek, stands]
  disturbed := Keeps.arm

theorem orderly_ofListing (name : String) (listing : Listing)
    (fault? : Option ProbeFault) :
    Orderly disturb none (ofListing name listing fault?) :=
  ⟨Keeps, disciplined, listing.ahead_none 0, nofun⟩

end Probe

/-! ## The positions of a term -/

namespace Term

variable {π : Type} {marks : Option DocId → Option Position → π → Prop}

/-- The postings stand where the cursor does, after the last span. -/
def Keeps (marks : Option DocId → Option Position → π → Prop)
    (last? : Option Span) (term : Term π) : Prop :=
  match term.standing with
  | .unstarted => last? = none ∧ marks none none term.postings
  | .on span => last? = some span ∧
      marks (some span.doc) (some span.start) term.postings
  | .atDocument doc => (∀ last ∈ last?, last.doc < doc) ∧
      marks (some doc) none term.postings
  | .exhausted => True
  | .closed => True

/-- A cursor that stands in a document of its postings. -/
structure InDocument (marks : Option DocId → Option Position → π → Prop)
    (last? : Option Span) (doc : DocId) (position? : Option Position)
    (term : Term π) : Prop where
  marked : marks (some doc) position? term.postings
  /-- The next position comes after the last span. -/
  after : ∀ position, (∀ taken ∈ position?, taken < position) →
    ∀ last ∈ last?, last < Span.ofToken doc position
  reached : ∀ last ∈ last?, last.doc ≤ doc
  /-- The postings can be exchanged for others that stand alike. -/
  exchange : ∀ postings, marks (some doc) position? postings →
    Keeps marks last? { term with postings := postings }

theorem Keeps.inDocument {term : Term π} (kept : Keeps marks last? term)
    (doc : DocId) (stands : term.standing.doc = .ok doc) :
    ∃ position?, InDocument marks last? doc position? term := by
  unfold Keeps at kept
  split at kept <;> rename_i isStanding <;> rw [isStanding] at stands <;>
    cases stands
  · rename_i span
    obtain ⟨rfl, marked⟩ := kept
    refine ⟨_, marked, ?_, ?_, fun postings marked => ?_⟩
    · rintro position later _ ⟨rfl⟩
      exact .inr ⟨by simp, .inl (by simpa using later)⟩
    · rintro _ ⟨rfl⟩
      exact UInt64.le_refl _
    · simp only [Keeps, isStanding]
      exact ⟨trivial, marked⟩
  · obtain ⟨before, marked⟩ := kept
    refine ⟨_, marked, ?_, ?_, fun postings marked => ?_⟩
    · exact fun position _ last isLast =>
        .inl (by simpa using before last isLast)
    · exact fun last isLast => UInt64.le_of_lt (before last isLast)
    · simp only [Keeps, isStanding]
      exact ⟨before, marked⟩

/-- Before a seek that goes forward the last span lies before the target. -/
theorem Keeps.beforeSeek {term : Term π} (kept : Keeps marks last? term)
    {target : DocId} (goes : term.standing.planSeek target = .ok .forward)
    (elsewhere : term.standing ≠ .atDocument target) :
    ∃ doc? position?, marks doc? position? term.postings ∧
      (∀ last ∈ last?, last.doc < target) ∧
        ∀ postings, marks doc? position? postings →
          Keeps marks last? { term with postings := postings } := by
  rcases Standing.planSeek_eq_forward_iff.mp goes with
    stands | ⟨doc, stands, notAfter⟩ | ⟨span, stands, before⟩
  · simp only [Keeps, stands] at kept ⊢
    obtain ⟨rfl, marked⟩ := kept
    exact ⟨none, none, marked, nofun, fun postings marked =>
      ⟨rfl, marked⟩⟩
  · rw [stands] at elsewhere
    have earlier : doc < target := by grind
    simp only [Keeps, stands] at kept ⊢
    obtain ⟨passed, marked⟩ := kept
    exact ⟨some doc, none, marked, fun last isLast =>
      UInt64.lt_trans (passed last isLast) earlier, fun postings marked =>
        ⟨passed, marked⟩⟩
  · simp only [Keeps, stands] at kept ⊢
    obtain ⟨rfl, marked⟩ := kept
    refine ⟨some span.doc, some span.start, marked, ?_, fun postings marked =>
      ⟨rfl, marked⟩⟩
    rintro _ ⟨rfl⟩
    exact before

variable [Postings π]

theorem meets_finish {term : Term π} {floor? : Option DocId} :
    finish.Meets term (Advances (Keeps marks) last? floor?)
      (fun _ reached => Keeps marks last? reached) := by
  simp [finish, Advances, Cursor.standing, Keeps]

/-- The next position of a document comes after the last span. -/
theorem meets_takePosition (steady : Postings.Steady marks)
    {term : Term π} {doc : DocId} {position? : Option Position}
    (inside : InDocument marks last? doc position? term) :
    (takePosition doc).Meets term (Advances (Keeps marks) last? (some doc))
      (fun _ reached => Keeps marks last? reached) := by
  simp only [takePosition, reading, Attempt.meets_bind,
    Attempt.meets_mapFailure, Attempt.meets_within, Attempt.meets_update,
    Attempt.meets_pure]
  refine (steady.nextPosition inside.marked).mono ?_ ?_
  · rintro position postings ⟨later, marked⟩
    refine ⟨inside.after position later, ?_, rfl, rfl, ?_⟩
    · rintro _ ⟨rfl⟩
      simp
    · simpa using marked
  · exact fun fault postings marked => inside.exchange postings marked

/-- To go on in a document is to take its next position or a later one. -/
theorem meets_advance (steady : Postings.Steady marks) {term : Term π}
    {doc : DocId} {position? : Option Position}
    (inside : InDocument marks last? doc position? term) :
    (advance doc).Meets term (Advances (Keeps marks) last? (some doc))
      (fun _ reached => Keeps marks last? reached) := by
  rw [advance]
  simp only [Attempt.meets_bind, Attempt.meets_look]
  split
  · exact meets_takePosition steady inside
  · simp only [reading, Attempt.meets_bind, Attempt.meets_mapFailure,
      Attempt.meets_within]
    refine (steady.nextDocument inside.marked).mono ?_ ?_
    · rintro (_ | later) postings further
      · exact meets_finish
      · obtain ⟨after, marked⟩ := further later rfl
        have forward := after doc rfl
        simp only [forward, ↓reduceDIte, Attempt.meets_bind,
          Attempt.meets_update]
        have before : ∀ last ∈ last?, last.doc < later := fun last isLast =>
          UInt64.lt_of_le_of_lt (inside.reached last isLast) forward
        have kept : Keeps marks last?
            (standAt later { term with postings := postings }) :=
          ⟨before, marked⟩
        obtain ⟨_, entered⟩ := kept.inDocument later rfl
        have := DocId.room_lt_room forward
        apply (meets_advance steady entered).imp_answer
        rintro (_ | span) reached advances
        · exact advances
        · obtain ⟨passed, landed, rest⟩ := advances
          refine ⟨passed, ?_, rest⟩
          rintro _ ⟨rfl⟩
          exact UInt64.le_trans (UInt64.le_of_lt forward) (landed later rfl)
    · exact fun fault postings marked => inside.exchange postings marked
termination_by doc.room

/-- To arrive in a document is to read on from its start. -/
theorem meets_arrive (steady : Postings.Steady marks) {term : Term π}
    {doc? : Option DocId} {floor? : Option DocId}
    (reached : ∀ doc ∈ doc?, (∀ last ∈ last?, last.doc < doc) ∧
      marks (some doc) none term.postings ∧ ∀ floor ∈ floor?, floor ≤ doc) :
    (arrive doc?).Meets term (Advances (Keeps marks) last? floor?)
      (fun _ reached => Keeps marks last? reached) := by
  cases doc? with
  | none => exact meets_finish
  | some doc =>
      obtain ⟨before, marked, notBefore⟩ := reached doc rfl
      have kept : Keeps marks last? (standAt doc term) := ⟨before, marked⟩
      obtain ⟨_, entered⟩ := kept.inDocument doc rfl
      simp only [arrive, Attempt.meets_bind, Attempt.meets_update]
      apply (meets_advance steady entered).imp_answer
      rintro (_ | span) reached advances
      · exact advances
      · obtain ⟨passed, landed, rest⟩ := advances
        refine ⟨passed, fun floor isFloor => ?_, rest⟩
        exact UInt64.le_trans (notBefore floor isFloor) (landed doc rfl)

/-- To go on from where the cursor stands is to go on in order. -/
theorem meets_onward (steady : Postings.Steady marks) {term : Term π}
    (kept : Keeps marks last? term)
    (goes : term.standing.planNext = .ok true) :
    onward.Meets term (Advances (Keeps marks) last? none)
      (fun _ reached => Keeps marks last? reached) := by
  have unbounded : ∀ (floor? : Option DocId) (span? : Option Span)
      (reached : Term π), Advances (Keeps marks) last? floor? span? reached →
        Advances (Keeps marks) last? none span? reached := by
    rintro floor? (_ | span) reached advances
    · exact advances
    · exact ⟨advances.1, by simp, advances.2.2⟩
  cases stands : term.standing with
  | on span =>
      obtain ⟨_, inside⟩ := kept.inDocument span.doc (by rw [stands]; rfl)
      rw [Attempt.meets_congr (show onward term = advance span.doc term by
        simp only [onward, stands])]
      exact (meets_advance steady inside).mono (unbounded _) fun _ _ kept =>
        kept
  | atDocument doc =>
      obtain ⟨_, inside⟩ := kept.inDocument doc (by rw [stands]; rfl)
      rw [Attempt.meets_congr (show onward term = advance doc term by
        simp only [onward, stands])]
      exact (meets_advance steady inside).mono (unbounded _) fun _ _ kept =>
        kept
  | unstarted =>
      simp only [Keeps, stands] at kept
      obtain ⟨rfl, marked⟩ := kept
      rw [Attempt.meets_congr (show onward term =
        (do arrive (← reading Postings.nextDocument) :
          Attempt Failure (Term π) _) term by simp only [onward, stands])]
      simp only [reading, Attempt.meets_bind, Attempt.meets_mapFailure,
        Attempt.meets_within]
      refine (steady.nextDocument marked).mono ?_ ?_
      · intro doc? postings further
        exact meets_arrive steady fun doc isDoc =>
          ⟨by simp, (further doc isDoc).2, by simp⟩
      · intro fault postings marked
        simp [Keeps, stands, marked]
  | exhausted =>
      rw [stands] at goes
      cases goes
  | closed =>
      rw [stands] at goes
      cases goes

/-- To go forward is to seek in the postings, unless already there. -/
theorem meets_forward (steady : Postings.Steady marks) {term : Term π}
    (kept : Keeps marks last? term) {target : DocId}
    (goes : term.standing.planSeek target = .ok .forward) :
    (forward target).Meets term
      (Advances (Keeps marks) last? (some target))
      (fun _ reached => Keeps marks last? reached) := by
  simp only [forward, Attempt.meets_bind, Attempt.meets_look]
  split
  · rename_i stands
    obtain ⟨_, inside⟩ := kept.inDocument target (by rw [stands]; rfl)
    exact meets_advance steady inside
  · rename_i elsewhere
    obtain ⟨doc?, position?, marked, before, exchange⟩ :=
      kept.beforeSeek goes elsewhere
    simp only [reading, Attempt.meets_bind, Attempt.meets_mapFailure,
      Attempt.meets_within]
    refine (steady.seekDocument marked target).mono ?_ ?_
    · intro later? postings further
      refine meets_arrive steady fun later isLater => ?_
      obtain ⟨⟨_, entered⟩, landed⟩ := further later isLater
      refine ⟨fun last isLast => ?_, entered, ?_⟩
      · exact UInt64.lt_of_lt_of_le (before last isLast) landed
      · rintro _ ⟨rfl⟩
        exact landed
    · exact fun fault postings marked => exchange postings marked

theorem disciplined (steady : Postings.Steady marks) :
    Disciplined (fun (_ : ι) (term : Term π) => term) (Keeps marks) := by
  refine planned.disciplined ?_ ?_ ?_ fun kept _ => ⟨kept, rfl⟩
  · intro last? term span kept stands
    change term.standing = .on span at stands
    simp only [Keeps, stands] at kept
    exact kept.1
  · exact fun kept goes => meets_onward steady kept goes
  · exact fun kept goes => meets_forward steady kept goes

theorem orderly_ofPostings (steady : Postings.Steady marks) {postings : π}
    (marked : marks none none postings) :
    Orderly (fun (_ : ι) (term : Term π) => term) none
      (ofPostings postings) :=
  ⟨Keeps marks, disciplined steady, rfl, marked⟩

end Term

end PositionalSearch
