import Mathlib.Algebra.Order.BigOperators.Group.List
import Mathlib.Algebra.Order.Ring.Nat
import PositionalSearch.Postings.Scripted
import PositionalSearch.Proofs.Listing
import PositionalSearch.Proofs.Postings
import PositionalSearch.Proofs.Stock.Basic

/-!
# The stock of a leaf

A leaf goes through what it was given once, so its stock is what it has not
passed: the entries of a listing from its place on, and the positions of a term
that were not taken, those of later documents included.
-/

namespace PositionalSearch

open Attempt (Bills)
open Cursor (Charged)

/-! ## Listings -/

/-- A cursor without spans has none to answer. -/
theorem Nothing.rationed :
    Cursor.Rationed (fun _ : Nothing => 0) fun _ _ => True := by
  intro calls cursor _ move
  have ended : ∀ cursor : Nothing, finish.Bills
      (Charged (fun _ => 0) (fun _ _ => True) (calls + 1) 0) cursor :=
    fun _ => ⟨trivial, Nat.le_refl 0⟩
  exact planned.bills ⟨trivial, Nat.le_refl 0⟩ (fun _ => ended _)
    (fun _ _ => ended _) move

namespace Listed

/-- The entries that come from the place of the cursor on. -/
def stock (cursor : Listed) : Nat := cursor.listing.size - cursor.offset

theorem bills_standAt {cursor : Listed} {place calls : Nat}
    (forward : cursor.offset ≤ place) :
    (standAt place).Bills (Charged stock (fun _ _ => True) calls cursor.stock)
      cursor := by
  cases found : cursor.listing.entry? place with
  | none =>
      refine (Attempt.meets_of_ok (standAt_of_end found)).mpr ⟨trivial, ?_⟩
      simp [stock]
  | some entry =>
      obtain ⟨inside, _⟩ := Array.getElem?_eq_some_iff.mp found
      have inside : place < cursor.listing.size := inside
      refine (Attempt.meets_of_ok (standAt_of_entry found)).mpr ⟨trivial, ?_⟩
      simp only [stock, Option.isSome_some, Bool.toNat_true]
      omega

theorem rationed : Cursor.Rationed stock fun _ _ => True := by
  intro calls cursor _ move
  exact planned.bills ⟨trivial, Nat.le_refl _⟩
    (fun _ => bills_standAt (Nat.le_refl _))
    (fun _ _ => bills_standAt (cursor.listing.le_placeFrom _ _)) move

end Listed

namespace Probe

/-- The entries that come from the place of the probe on. -/
def stock (probe : Probe) : Nat := probe.listing.size - probe.offset

/-- No more calls are counted than were made. -/
def Called (calls : Nat) (probe : Probe) : Prop :=
  probe.nexts + probe.seeks + probe.closes ≤ calls

theorem bills_stepOn {probe : Probe} {calls left : Nat}
    (called : Called calls probe) (within : probe.stock ≤ left) :
    stepOn.Bills (Charged stock Called calls left) probe := by
  cases found : probe.listing.entry? probe.offset with
  | some entry =>
      obtain ⟨inside, _⟩ := Array.getElem?_eq_some_iff.mp found
      have inside : probe.offset < probe.listing.size := inside
      refine (Attempt.meets_of_ok (stepOn_of_entry found)).mpr ⟨called, ?_⟩
      simp only [stock, Option.isSome_some, Bool.toNat_true] at within ⊢
      omega
  | none =>
      cases armed : probe.fault? with
      | none =>
          exact (Attempt.meets_of_ok (stepOn_of_end found armed)).mpr
            ⟨called, within⟩
      | some fault =>
          exact (Attempt.meets_of_error (stepOn_of_fault found armed)).mpr
            fun _ => ⟨called, within⟩

theorem rationed : Cursor.Rationed stock Called := by
  intro calls probe called move
  unfold Called at called
  cases move with
  | next =>
      have counted : Called (calls + 1)
          { probe with nexts := probe.nexts + 1 } := by
        unfold Called
        dsimp only
        omega
      have refused : Charged stock Called (calls + 1) probe.stock false
          { probe with nexts := probe.nexts + 1 } :=
        ⟨counted, Nat.le_refl _⟩
      simp only [Bills, Cursor.go, Cursor.next, Attempt.meets_bind,
        Attempt.meets_update, Attempt.meets_look]
      cases probe.standing.planNext with
      | error failure => exact fun _ => refused
      | ok goes =>
          cases goes with
          | false => exact refused
          | true => exact bills_stepOn counted (Nat.le_refl _)
  | seek target =>
      have counted : Called (calls + 1)
          { probe with seeks := probe.seeks + 1 } := by
        unfold Called
        dsimp only
        omega
      have refused : Charged stock Called (calls + 1) probe.stock false
          { probe with seeks := probe.seeks + 1 } :=
        ⟨counted, Nat.le_refl _⟩
      simp only [Bills, Cursor.go, Cursor.seek, Attempt.meets_bind,
        Attempt.meets_update, Attempt.meets_look]
      cases probe.standing.planSeek target with
      | error failure => exact fun _ => refused
      | ok choice =>
          cases choice with
          | finished => exact refused
          | stepOn => exact bills_stepOn counted (Nat.le_refl _)
          | forward =>
              have passed : (passBefore target
                  { probe with seeks := probe.seeks + 1 }).stock ≤
                    probe.stock := by
                rw [passBefore_eq]
                exact Nat.sub_le_sub_left (probe.listing.le_placeFrom _ _) _
              exact bills_stepOn counted passed

end Probe

/-! ## Postings -/

/--
Reading takes out of what is left, a position for each one answered, and closing
adds nothing to it.
-/
structure Postings.Draws {π : Type} [Postings π] (left : π → Nat) : Prop where
  nextDocument : ∀ postings : π,
    (Postings.nextDocument : Attempt ReadFault π _).Meets postings
      (fun _ reached => left reached ≤ left postings)
      fun _ reached => left reached ≤ left postings
  seekDocument : ∀ (postings : π) (target : DocId),
    (Postings.seekDocument target : Attempt ReadFault π _).Meets postings
      (fun _ reached => left reached ≤ left postings)
      fun _ reached => left reached ≤ left postings
  nextPosition : ∀ postings : π,
    (Postings.nextPosition : Attempt ReadFault π _).Meets postings
      (fun _ reached => left reached < left postings)
      fun _ reached => left reached ≤ left postings
  close : ∀ postings : π, left (Postings.close postings) ≤ left postings

namespace Occurrence

/-- An occurrence is added, or takes the place of one that was there. -/
theorem length_file_le (added : Occurrence) (filed : List Occurrence) :
    (file added filed).length ≤ filed.length + 1 := by
  induction filed with
  | nil => exact Nat.le_refl 1
  | cons first rest ih =>
      unfold file
      split
      · exact Nat.le_refl _
      · split
        · exact Nat.succ_le_succ ih
        · exact Nat.le_succ _

theorem length_collate_le (occurrences : List Occurrence) :
    (collate occurrences).length ≤ occurrences.length := by
  suffices general : ∀ filed : List Occurrence,
      (occurrences.foldl (fun filed added => file added filed) filed).length ≤
        filed.length + occurrences.length by
    simpa [collate] using general []
  induction occurrences with
  | nil => exact fun filed => Nat.le_refl _
  | cons first rest ih =>
      intro filed
      have added := length_file_le first filed
      have rest := ih (file first filed)
      rw [List.foldl_cons, List.length_cons]
      omega

end Occurrence

namespace StoredPostings

/-- The positions of the documents from a place on. -/
def positionsFrom (postings : StoredPostings) (place : Nat) : Nat :=
  ((postings.documents.toList.drop place).map (·.positions.size)).sum

/-- The positions that were not taken yet. -/
def left (postings : StoredPostings) : Nat :=
  (postings.current?.elim 0 fun posted =>
    posted.positions.size - postings.taken) +
    postings.positionsFrom postings.nextPlace

/-- At the start of a document the rest is to come. -/
theorem left_moveTo (postings : StoredPostings) (place : Nat) :
    (postings.moveTo place).left = postings.positionsFrom place := by
  have split : postings.positionsFrom (min place postings.documents.size) =
      (postings.moveTo place).left := by
    rw [positionsFrom, List.drop_eq_getElem?_toList_append, List.map_append,
      List.sum_append]
    simp only [left, moveTo, current?, nextPlace, Option.bind_some,
      Array.getElem?_toList, positionsFrom]
    cases postings.documents[min place postings.documents.size]? with
    | none => rfl
    | some posted => simp
  rw [← split, positionsFrom, positionsFrom]
  by_cases inside : place ≤ postings.documents.size
  · rw [Nat.min_eq_left inside]
  · rw [Nat.min_eq_right (Nat.le_of_not_le inside), List.drop_eq_nil_of_le,
      List.drop_eq_nil_of_le]
    · simpa using Nat.le_of_not_le inside
    · simp

theorem positionsFrom_le {postings : StoredPostings} {first second : Nat}
    (later : first ≤ second) :
    postings.positionsFrom second ≤ postings.positionsFrom first := by
  have dropped := List.drop_sublist_drop_left postings.documents.toList later
  exact (dropped.map _).sum_le_sum fun _ _ => Nat.zero_le _

/-- A move to a later document skips what is left of the current one. -/
theorem left_moveTo_le {postings : StoredPostings} {place : Nat}
    (later : postings.nextPlace ≤ place) :
    (postings.moveTo place).left ≤ postings.left := by
  rw [left_moveTo]
  exact Nat.le_trans (positionsFrom_le later) (Nat.le_add_left _ _)

/-- At first all positions are left, one for each place. -/
theorem left_ofOccurrences_le (occurrences : List Occurrence) :
    (ofOccurrences occurrences).left ≤ occurrences.length := by
  have gathered : ∀ groups : List (DocId × List (Position × Option Payload)),
      (groups.map fun group => group.2.length).sum =
        (groups.flatMap PostedDocument.occurrences).length := by
    intro groups
    simp [List.length_flatMap, PostedDocument.occurrences]
  have all : (ofOccurrences occurrences).left =
      (Occurrence.collate occurrences).length := by
    rw [← PostedDocument.flatMap_occurrences_gather
      (Occurrence.collate occurrences), ← gathered]
    simp [left, positionsFrom, nextPlace, current?, ofOccurrences,
      PostedDocument.ofSorted, Function.comp_def]
  exact all ▸ Occurrence.length_collate_le occurrences

theorem draws : Postings.Draws left where
  nextDocument postings := left_moveTo_le (Nat.le_refl _)
  seekDocument postings target := by
    refine (Attempt.meets_of_ok (postings.seekDocument_eq target)).mpr ?_
    by_cases inside : postings.placeFrom target < postings.documents.size
    · exact left_moveTo_le (postings.nextPlace_le_placeFrom target inside)
    · rw [left_moveTo, positionsFrom, List.drop_eq_nil_of_le]
      · exact Nat.zero_le _
      · simpa using Nat.not_lt.mp inside
  nextPosition postings := by
    cases found : postings.current?.bind fun posted =>
        posted.positions[postings.taken]? with
    | none =>
        refine (Attempt.meets_of_error (show nextPosition postings =
          (.error noPositionLeft, postings) by
            simp only [nextPosition, found])).mpr (Nat.le_refl _)
    | some entry =>
        refine (Attempt.meets_of_ok (show nextPosition postings =
          (.ok entry.1, { postings with taken := postings.taken + 1 }) by
            simp only [nextPosition, found])).mpr ?_
        obtain ⟨posted, isCurrent, isEntry⟩ := Option.bind_eq_some_iff.mp found
        obtain ⟨inside, _⟩ := Array.getElem?_eq_some_iff.mp isEntry
        have same : StoredPostings.current? { postings with
          taken := postings.taken + 1 } = some posted := isCurrent
        refine Nat.add_lt_add_right ?_ _
        rw [same, isCurrent]
        simp only [Option.elim_some]
        omega
  close postings := by
    have emptied : (Postings.close postings).left = 0 := by
      simp [Postings.close, close, left, current?, positionsFrom]
    exact emptied ▸ Nat.zero_le _

end StoredPostings

namespace ScriptedPostings

/-- A script takes nothing out of the stored postings. -/
def left (postings : ScriptedPostings) : Nat := postings.stored.left

theorem draws : Postings.Draws left where
  nextDocument postings := Attempt.meets_bind.mpr <| meets_perform
    (StoredPostings.draws.nextDocument postings.stored) fun _ => Nat.le_refl _
  seekDocument postings target := Attempt.meets_bind.mpr <| meets_perform
    (StoredPostings.draws.seekDocument postings.stored target)
    fun _ => Nat.le_refl _
  nextPosition postings := meets_perform
    (StoredPostings.draws.nextPosition postings.stored) fun _ => Nat.le_refl _
  close postings := StoredPostings.draws.close postings.stored

end ScriptedPostings

/-! ## Terms -/

namespace Term

variable {π : Type} {left : π → Nat} {bound : Nat}

/-- What is left of the postings. -/
def stock (left : π → Nat) (term : Term π) : Nat := left term.postings

/-- No more was answered than was taken out of the postings. -/
def Drawn (left : π → Nat) (bound : Nat) (answered : Bool) (term : Term π) :
    Prop :=
  term.stock left + answered.toNat ≤ bound

variable [Postings π] {term : Term π}

omit [Postings π] in
/-- A fault leaves the postings with what they had at most. -/
theorem bills_reading_bind {α : Type} {call : Attempt ReadFault π α}
    {rest : α → Attempt Failure (Term π) (Option Span)}
    {answered : π → Prop} (within : term.stock left ≤ bound)
    (meets : call.Meets term.postings (fun _ => answered)
      fun _ reached => left reached ≤ left term.postings)
    (goesOn : ∀ value postings, answered postings →
      (rest value).Bills (Drawn left bound)
        { term with postings := postings }) :
    (reading call >>= rest).Bills (Drawn left bound) term := by
  simp only [Bills, reading, Attempt.meets_bind, Attempt.meets_mapFailure,
    Attempt.meets_within]
  exact meets.mono goesOn fun _ _ atMost _ => Nat.le_trans atMost within

variable (draws : Postings.Draws left)
include draws

theorem bills_takePosition (within : term.stock left ≤ bound) (doc : DocId) :
    (takePosition doc).Bills (Drawn left bound) term :=
  bills_reading_bind within (draws.nextPosition term.postings)
    fun _ _ lowers => Nat.lt_of_lt_of_le lowers within

theorem bills_advance {term : Term π} (within : term.stock left ≤ bound)
    (doc : DocId) : (advance doc).Bills (Drawn left bound) term := by
  rw [advance]
  apply Attempt.bills_look_bind
  split
  · exact bills_takePosition draws within doc
  · refine bills_reading_bind within (draws.nextDocument term.postings) ?_
    intro later? postings atMost
    have within : left postings ≤ bound := Nat.le_trans atMost within
    cases later? with
    | none => exact within
    | some later =>
        dsimp only
        split
        · rename_i forward
          have := DocId.room_lt_room forward
          have moved : (standAt later
            { term with postings := postings }).stock left ≤ bound := within
          exact bills_advance moved later
        · exact fun _ => within
termination_by doc.room

theorem bills_arrive (within : term.stock left ≤ bound)
    (doc? : Option DocId) : (arrive doc?).Bills (Drawn left bound) term := by
  cases doc? with
  | none => exact within
  | some doc =>
      have moved : (standAt doc term).stock left ≤ bound := within
      exact bills_advance draws moved doc

theorem bills_onward (within : term.stock left ≤ bound) :
    onward.Bills (Drawn left bound) term := by
  cases stands : term.standing with
  | on span =>
      rw [Bills, Attempt.meets_congr
        (show onward term = advance span.doc term by
          simp only [onward, stands])]
      exact bills_advance draws within span.doc
  | atDocument doc =>
      rw [Bills, Attempt.meets_congr
        (show onward term = advance doc term by simp only [onward, stands])]
      exact bills_advance draws within doc
  | unstarted =>
      rw [Bills, Attempt.meets_congr (show onward term =
        (do arrive (← reading Postings.nextDocument) :
          Attempt Failure (Term π) _) term by simp only [onward, stands])]
      exact bills_reading_bind within (draws.nextDocument term.postings)
        fun doc? postings atMost =>
          have within : Term.stock left { term with postings := postings } ≤
            bound := Nat.le_trans atMost within
          bills_arrive draws within doc?
  | exhausted =>
      rw [Bills, Attempt.meets_of_ok (show onward term = (.ok none, term) by
        simp only [onward, stands])]
      exact within
  | closed =>
      rw [Bills, Attempt.meets_of_ok (show onward term = (.ok none, term) by
        simp only [onward, stands])]
      exact within

theorem bills_forward (within : term.stock left ≤ bound) (target : DocId) :
    (forward target).Bills (Drawn left bound) term := by
  apply Attempt.bills_look_bind
  split
  · exact bills_advance draws within target
  · exact bills_reading_bind within (draws.seekDocument term.postings target)
      fun doc? postings atMost =>
        have within : Term.stock left { term with postings := postings } ≤
          bound := Nat.le_trans atMost within
        bills_arrive draws within doc?

theorem rationed : Cursor.Rationed (stock left) fun _ _ => True := by
  intro calls term _ move
  have bills : (Cursor.go move).Bills (Drawn left (term.stock left)) term :=
    planned.bills (Nat.le_refl _)
      (fun _ => bills_onward draws (Nat.le_refl _))
      (fun target _ => bills_forward draws (Nat.le_refl _) target) move
  exact bills.mono fun _ _ drawn => ⟨trivial, drawn⟩

theorem stock_close_le (term : Term π) :
    (Cursor.close term).stock left ≤ term.stock left := by
  change stock left (if term.standing = .closed then term else _) ≤ _
  split
  · exact Nat.le_refl _
  · exact draws.close term.postings

end Term

end PositionalSearch
