import PositionalSearch.Proofs.Follow.Entering
import PositionalSearch.Proofs.Follow.Terms
import PositionalSearch.Proofs.Order.Leaves

/-!
# Terms that are read again

A cursor over a term whose postings could not be read has left what it had
left before, so the next move goes on from there.  The script decides which
readings fail; what a cursor has left does not depend on it.
-/

namespace PositionalSearch

open Cursor (Enters Seeks Served Serves Settles)

/-! ## The spans of tokens -/

/-- A span of one token. -/
def Span.IsToken (span : Span) : Prop :=
  span = .ofToken span.doc span.start

theorem Span.isToken_ofToken (doc : DocId) (position : Position) :
    (ofToken doc position).IsToken := by
  rw [IsToken, doc_ofToken, start_ofToken]

/-- In a document a later token starts later, and does not stop sooner. -/
theorem Span.IsToken.start_lt {earlier later : Span} (isToken : earlier.IsToken)
    (isLaterToken : later.IsToken) (before : earlier < later)
    (same : earlier.doc = later.doc) :
    earlier.start < later.start ∧ earlier.stop ≤ later.stop := by
  have starts : earlier.start < later.start := by
    apply UInt32.lt_of_le_of_ne (start_le_of_lt before same)
    intro sameStart
    rw [IsToken, same, sameStart, ← isLaterToken] at isToken
    exact lt_irrefl _ (isToken ▸ before)
  refine ⟨starts, ?_⟩
  rw [isToken, isLaterToken, UInt32.le_iff_toNat_le, toNat_stop_ofToken,
    toNat_stop_ofToken]
  have := UInt32.lt_iff_toNat_lt.mp starts
  omega

theorem PostedDocument.isToken_of_mem_visits {posted : PostedDocument}
    {visit : Visit} (member : visit ∈ posted.visits) : visit.span.IsToken := by
  obtain ⟨⟨position, payload?⟩, _, rfl⟩ := List.mem_map.mp member
  exact Span.isToken_ofToken _ _

namespace Term

variable {π : Type}
  {stands : π → Option PostedDocument → Nat → List PostedDocument → Prop}
  {fails : Prop} {left : Visits}

/-- A cursor over a term has only tokens left. -/
theorem Holds.isToken {term : Term π} (holds : Holds stands left term)
    {visit : Visit} (member : visit ∈ left) : visit.span.IsToken := by
  have reciting : ∀ {rest : List PostedDocument},
      visit ∈ rest.flatMap PostedDocument.visits → visit.span.IsToken := by
    intro rest isRest
    obtain ⟨posted, _, inPosted⟩ := List.mem_flatMap.mp isRest
    exact PostedDocument.isToken_of_mem_visits inPosted
  have reading : ∀ {posted : PostedDocument} {rest : List PostedDocument},
      left = PostedDocument.ahead term.taken posted rest →
        visit.span.IsToken := by
    rintro posted rest rfl
    rcases List.mem_append.mp member with here | later
    · exact PostedDocument.isToken_of_mem_visits (List.mem_of_mem_drop here)
    · exact reciting later
  unfold Holds at holds
  split at holds
  · obtain ⟨_, _, rest, _, rfl⟩ := holds
    exact reciting member
  · obtain ⟨_, _, _, isLeft⟩ := holds
    exact reading isLeft
  · obtain ⟨_, _, _, isLeft⟩ := holds
    exact reading isLeft
  · rw [holds] at member
    exact absurd member List.not_mem_nil
  · exact holds.elim

variable [Postings π]

/-- To move on is to take the first of the visits left, or to lose none. -/
theorem yields_next {term : Term π} (recites : Postings.Recites fails stands)
    (holds : Holds stands left term) :
    (Cursor.next : Attempt Failure (Term π) _).Meets term
      (Yields stands left) (fun _ reached => Holds stands left reached) := by
  apply planned.meets_next
  · intro isClosed
    exact holds
  · intro isExhausted
    change term.standing = .exhausted at isExhausted
    unfold Holds at holds
    rw [isExhausted] at holds
    cases holds
    refine ⟨rfl, ?_, isExhausted, nofun⟩
    simp only [Holds, isExhausted, List.tail_nil]
  · intro goes
    exact (yields_onward recites holds goes).imp_failure
      fun _ _ failed => failed.2

/-- To seek a later document is to take the first visit from there. -/
theorem yields_seek {term : Term π} (recites : Postings.Recites fails stands)
    (holds : Holds stands left term) {target : DocId}
    (ahead : ∀ span, term.standing = .on span → span.doc < target) :
    (Cursor.seek target : Attempt Failure (Term π) _).Meets term
      (Yields stands (left.since target))
      (fun _ reached => Holds stands left reached ∨
        Holds stands (left.since target) reached) := by
  apply planned.meets_seek
  · exact fun _ => .inl holds
  · intro isExhausted
    change term.standing = .exhausted at isExhausted
    unfold Holds at holds
    rw [isExhausted] at holds
    cases holds
    refine ⟨rfl, ?_, isExhausted, nofun⟩
    simp only [Holds, isExhausted, Visits.since, List.filter_nil, List.tail_nil]
  · exact fun _ _ _ => .inl holds
  · rintro span isOn rfl
    exact absurd (ahead span isOn) (UInt64.lt_irrefl _)
  · intro goes
    exact (yields_forward recites holds goes).imp_failure
      fun _ _ failed => failed.2

/-! ## Terms over scripted postings -/

/-- After the last span a term has some visits left, whatever failed before. -/
structure Persists (last? : Option Span) (left : Visits)
    (term : Term ScriptedPostings) : Prop where
  holds : ∃ faults, Holds (ScriptedPostings.Stands faults) left term
  keeps : Keeps ScriptedPostings.Marks last? term

/-- A term is on the first of some visits, whatever failed before. -/
def Upon (visits : Visits) (term : Term ScriptedPostings) : Prop :=
  ∃ visit ∈ visits.head?, visit.span.IsToken ∧
    Persists (some visit.span) visits.tail term

variable {last? : Option Span} {term : Term ScriptedPostings}

theorem Upon.isToken {visits : Visits} (upon : Upon visits term)
    {visit : Visit} (member : visit ∈ visits) : visit.span.IsToken := by
  obtain ⟨first, isFirst, isToken, persists⟩ := upon
  obtain ⟨rest, rfl⟩ := List.head?_eq_some_iff.mp isFirst
  obtain ⟨_, holds⟩ := persists.holds
  rcases List.mem_cons.mp member with rfl | later
  · exact isToken
  · exact holds.isToken later

/-- What a move takes is what a term is on afterwards. -/
theorem served_upon {faults : List PlannedFault} {span? : Option Span}
    {reached : Term ScriptedPostings} {floor? : Option DocId}
    (tokens : ∀ visit ∈ left, visit.span.IsToken)
    (yields : Yields (ScriptedPostings.Stands faults) left span? reached)
    (advances : Cursor.Advances (Keeps ScriptedPostings.Marks) last? floor?
      span? reached) :
    Served Upon left span? reached := by
  obtain ⟨rfl, holds, _, _⟩ := yields
  refine ⟨rfl, fun some => ?_⟩
  cases left with
  | nil => exact absurd rfl some
  | cons visit rest =>
      obtain ⟨_, _, _, keeps⟩ := advances
      exact ⟨visit, rfl, tokens visit List.mem_cons_self, ⟨faults, holds⟩,
        keeps⟩

theorem Persists.meets_next (persists : Persists last? left term) :
    (Cursor.next : Attempt Failure (Term ScriptedPostings) _).Meets term
      (Served Upon left) (fun _ reached => Persists last? left reached) := by
  obtain ⟨⟨faults, holds⟩, keeps⟩ := persists
  have forward := (disciplined ScriptedPostings.steady_marks
    (ι := Empty)).moves keeps .next
  refine ((yields_next (ScriptedPostings.recites faults) holds).and
    forward).mono ?_ ?_
  · rintro span? reached ⟨yields, advances⟩
    exact served_upon (fun visit => holds.isToken) yields advances
  · rintro failure reached ⟨still, kept⟩
    exact ⟨⟨faults, still⟩, kept⟩

/-- Terms over scripted postings serve their visits, if some calls may fail. -/
theorem serves_upon : Serves True Upon where
  next := by
    rintro visit rest cursor ⟨_, ⟨rfl⟩, isToken, persists⟩ _
    refine persists.meets_next.imp_failure ?_
    exact fun _ reached still => ⟨trivial, visit, rfl, isToken, still⟩
  seek := by
    rintro visit rest cursor ⟨_, ⟨rfl⟩, isToken, ⟨faults, holds⟩, keeps⟩ _
      target ahead
    have forward := (disciplined ScriptedPostings.steady_marks
      (ι := Empty)).moves keeps (.seek target)
    have onFirst : ∀ span, cursor.standing = .on span → span.doc < target := by
      intro span isOn
      have kept := keeps
      simp only [Keeps, isOn, Option.some.injEq] at kept
      rw [← kept.1]
      exact ahead
    refine ((yields_seek (ScriptedPostings.recites faults) holds
      onFirst).and forward).mono ?_ ?_
    · rintro span? reached ⟨yields, advances⟩
      refine served_upon (fun visit member => ?_) yields advances
      exact holds.isToken (Visits.mem_since.mp member).1
    · rintro failure reached ⟨still, kept⟩
      refine ⟨trivial, still.imp ?_ ?_⟩
      · exact fun still => ⟨visit, rfl, isToken, ⟨faults, still⟩, kept⟩
      · exact fun still => ⟨visit, rfl, isToken, ⟨faults, still⟩, kept⟩

/-- A term that could not be entered is entered again. -/
theorem enters_upon : Enters True (Persists none) Upon none where
  enter := by
    intro all cursor persists _
    refine persists.meets_next.imp_failure ?_
    exact fun _ _ still => ⟨trivial, still⟩

/-- A term that was not entered seeks a document, at once or later. -/
theorem seeks_upon : Seeks True (Persists none) Upon where
  seek := by
    intro all cursor persists _ target
    obtain ⟨⟨faults, holds⟩, keeps⟩ := persists
    have forward := (disciplined ScriptedPostings.steady_marks
      (ι := Empty)).moves keeps (.seek target)
    have onNone : ∀ span, cursor.standing = .on span → span.doc < target := by
      intro span isOn
      simp [Keeps, isOn] at keeps
    refine ((yields_seek (ScriptedPostings.recites faults) holds
      onNone).and forward).mono ?_ ?_
    · intro span? reached answered
      refine served_upon (fun visit member => ?_) answered.1 answered.2
      exact holds.isToken (Visits.mem_since.mp member).1
    · intro failure reached failed
      refine ⟨trivial, failed.1.imp ?_ ?_⟩
      · exact fun still => ⟨⟨faults, still⟩, failed.2⟩
      · exact fun still => ⟨⟨faults, still⟩, failed.2⟩

/-- A term stands where a move that answers has led it. -/
theorem Persists.settles (persists : Persists last? left term) (move : Move) :
    (Cursor.go move : Attempt Failure (Term ScriptedPostings) _).Meets term
      (fun span? reached => Cursor.standing reached = .after span?)
      (fun _ _ => True) := by
  refine ((disciplined ScriptedPostings.steady_marks
    (ι := Empty)).moves persists.keeps move).mono ?_ fun _ _ _ => trivial
  intro span? reached advances
  cases span? with
  | none => exact advances.1
  | some span => exact advances.2.2.1

theorem settles_upon : Settles Upon where
  go := by
    intro visits cursor upon move
    obtain ⟨_, _, _, persists⟩ := upon
    exact persists.settles move

/-- A term that stands on a span stands on its last one. -/
theorem Persists.last_eq (persists : Persists last? left term) {span : Span}
    (isOn : Cursor.standing term = .on span) : last? = some span := by
  have keeps := persists.keeps
  change term.standing = .on span at isOn
  simp only [Keeps, isOn] at keeps
  exact keeps.1

theorem persists_ofPostings {script : Script}
    (frequencies : script.frequencies = []) (occurrences : List Occurrence) :
    Persists none (Occurrence.visits occurrences)
      (ofPostings (.ofOccurrences script occurrences)) := by
  constructor
  · exact ⟨script.faults, _, 0, _,
      ScriptedPostings.stands_ofOccurrences frequencies occurrences, rfl⟩
  · exact ⟨rfl, ScriptedPostings.marks_ofOccurrences script occurrences⟩

end Term

end PositionalSearch
