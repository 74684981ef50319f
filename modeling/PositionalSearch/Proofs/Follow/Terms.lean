import PositionalSearch.Proofs.Follow.Listings
import PositionalSearch.Proofs.Postings

/-!
# Cursors over terms follow plain ones

Postings recite their documents one after the other, and of each document its
positions.  A reading that fails changes nothing, so whatever a cursor over a
term has left is still left after a failure; without failures it follows the
plain cursor over all positions.
-/

namespace PositionalSearch

open Cursor (Follows Mirrors Takes)

/-! ## Postings that recite documents -/

namespace PostedDocument

/-- What a term yields in a document: as many positions as are announced. -/
def visits (posted : PostedDocument) : Visits :=
  (posted.positions.toList.take StoredPostings.frequencyLimit).map
    fun (position, payload?) =>
      ⟨.ofToken posted.doc position, payload?.toList⟩

/-- The number of positions that are announced. -/
def announced (posted : PostedDocument) : Nat :=
  min posted.positions.size StoredPostings.frequencyLimit

@[simp] theorem length_visits (posted : PostedDocument) :
    posted.visits.length = posted.announced := by
  simp [visits, announced, Nat.min_comm]

theorem doc_of_mem_visits {posted : PostedDocument} {visit : Visit}
    (member : visit ∈ posted.visits) : visit.doc = posted.doc := by
  obtain ⟨⟨position, payload?⟩, _, rfl⟩ := List.mem_map.mp member
  exact Span.doc_ofToken _ _

/-- The visit at an announced place is that of the position there. -/
theorem getElem?_visits {posted : PostedDocument} {place : Nat}
    (announced : place < posted.announced)
    (inside : place < posted.positions.size) :
    posted.visits[place]? =
      some ⟨.ofToken posted.doc posted.positions[place].1,
        posted.positions[place].2.toList⟩ := by
  have listed : place < StoredPostings.frequencyLimit :=
    Nat.lt_of_lt_of_le announced (Nat.min_le_right _ _)
  simp [visits, listed, inside]

end PostedDocument

/--
Postings that stand in a document, a number of its positions taken, with other
documents to come.  If reading may fail, a failure changes nothing.
-/
structure Postings.Recites {π : Type} [Postings π] (fails : Prop)
    (stands : π → Option PostedDocument → Nat → List PostedDocument → Prop) :
    Prop where
  ascending : ∀ {postings current? taken rest},
    stands postings current? taken rest →
      (current?.toList ++ rest).Pairwise (·.doc < ·.doc)
  nextDocument : ∀ {postings current? taken rest},
    stands postings current? taken rest →
      (Postings.nextDocument : Attempt ReadFault π _).Meets postings
        (fun doc? reached => doc? = rest.head?.map PostedDocument.doc ∧
          stands reached rest.head? 0 rest.tail)
        (fun _ reached => fails ∧ stands reached current? taken rest)
  seekDocument : ∀ {postings current? taken rest},
    stands postings current? taken rest → ∀ target : DocId,
      (Postings.seekDocument target : Attempt ReadFault π _).Meets postings
        (fun doc? reached =>
          doc? = (rest.dropWhile (·.doc < target)).head?.map
            PostedDocument.doc ∧
          stands reached (rest.dropWhile (·.doc < target)).head? 0
            (rest.dropWhile (·.doc < target)).tail)
        (fun _ reached => fails ∧ stands reached current? taken rest)
  nextPosition : ∀ {postings posted taken rest},
    stands postings (some posted) taken rest →
      ∀ inside : taken < posted.positions.size,
        (Postings.nextPosition : Attempt ReadFault π _).Meets postings
          (fun position reached => position = posted.positions[taken].1 ∧
            Postings.payload? reached = posted.positions[taken].2 ∧
            stands reached (some posted) (taken + 1) rest)
          (fun _ reached => fails ∧ stands reached (some posted) taken rest)
  frequency : ∀ {postings posted taken rest},
    stands postings (some posted) taken rest →
      Postings.frequency postings = posted.announced

namespace StoredPostings

/-- Where stored postings stand. -/
structure Stands (postings : StoredPostings)
    (current? : Option PostedDocument) (taken : Nat)
    (rest : List PostedDocument) : Prop where
  sorted : postings.Sorted
  current : postings.current? = current?
  taken : postings.taken = taken
  rest : postings.documents.toList.drop postings.nextPlace = rest

/-- After a move the document at the place is current. -/
theorem Stands.moveTo {postings : StoredPostings}
    {current? : Option PostedDocument} {taken : Nat}
    {rest later : List PostedDocument}
    (stands : postings.Stands current? taken rest) {place : Nat}
    (isLater : postings.documents.toList.drop place = later) :
    (postings.moveTo place).Stands later.head? 0 later.tail := by
  refine ⟨⟨stands.sorted.documents, stands.sorted.positions⟩, ?_, rfl, ?_⟩
  · rw [← isLater, List.head?_drop]
    by_cases inside : place < postings.documents.size
    · simp [StoredPostings.moveTo, StoredPostings.current?,
        Nat.min_eq_left (Nat.le_of_lt inside)]
    · have passed := Nat.not_lt.mp inside
      simp [StoredPostings.moveTo, StoredPostings.current?, passed]
  · rw [← isLater, List.tail_drop]
    by_cases inside : place < postings.documents.size
    · simp [StoredPostings.moveTo, nextPlace,
        Nat.min_eq_left (Nat.le_of_lt inside)]
    · have passed := Nat.not_lt.mp inside
      rw [List.drop_eq_nil_of_le, List.drop_eq_nil_of_le]
      · simpa using Nat.le_succ_of_le passed
      · simp [StoredPostings.moveTo, nextPlace, Nat.min_eq_right passed]

theorem Stands.drop_placeFrom {postings : StoredPostings}
    {current? : Option PostedDocument} {taken : Nat}
    {rest : List PostedDocument}
    (stands : postings.Stands current? taken rest) (target : DocId) :
    postings.documents.toList.drop (postings.placeFrom target) =
      rest.dropWhile (·.doc < target) := by
  rw [placeFrom, Bisection.drop_boundary (stands.sorted.split target),
    ← stands.rest]
  by_cases inside : postings.nextPlace < postings.documents.size
  · rw [Nat.min_eq_left (Nat.le_of_lt inside)]
  · have passed := Nat.not_lt.mp inside
    rw [Nat.min_eq_right passed, List.drop_eq_nil_of_le (by simp),
      List.drop_eq_nil_of_le (by simpa using passed)]

theorem recites : Postings.Recites False Stands where
  ascending := by
    intro postings current? taken rest stands
    refine List.Pairwise.sublist ?_ stands.sorted.documents
    rw [← stands.rest, ← stands.current]
    cases isPlace : postings.place with
    | none =>
        simp only [StoredPostings.current?, isPlace, Option.bind_none,
          Option.toList_none, List.nil_append]
        exact List.drop_sublist _ _
    | some place =>
        simp only [StoredPostings.current?, nextPlace, isPlace,
          Option.bind_some]
        by_cases inside : place < postings.documents.size
        · simp only [inside, Array.getElem?_eq_getElem, Option.toList_some,
            List.singleton_append, ← Array.getElem_toList]
          rw [← List.drop_eq_getElem_cons]
          exact List.drop_sublist _ _
        · rw [Array.getElem?_eq_none (Nat.not_lt.mp inside)]
          exact List.drop_sublist _ _
  nextDocument := by
    intro postings current? taken rest stands
    refine (Attempt.meets_of_ok postings.nextDocument_eq).mpr ?_
    have moved := stands.moveTo stands.rest
    exact ⟨by rw [moved.current], moved⟩
  seekDocument := by
    intro postings current? taken rest stands target
    refine (Attempt.meets_of_ok (postings.seekDocument_eq target)).mpr ?_
    have moved := stands.moveTo (stands.drop_placeFrom target)
    exact ⟨by rw [moved.current], moved⟩
  nextPosition := by
    rintro postings posted taken rest ⟨sorted, current, rfl, rfl⟩ inside
    have taken : nextPosition postings =
        (.ok posted.positions[postings.taken].1,
          { postings with taken := postings.taken + 1 }) := by
      simp [nextPosition, current, inside]
    refine (Attempt.meets_of_ok taken).mpr
      ⟨rfl, ?_, ⟨sorted.documents, sorted.positions⟩, current, rfl, rfl⟩
    · change StoredPostings.payload? { postings with
        taken := postings.taken + 1 } = _
      have same : StoredPostings.current? { postings with
        taken := postings.taken + 1 } = some posted := current
      simp [payload?, same, inside]
  frequency := by
    intro postings posted taken rest stands
    change StoredPostings.frequency postings = _
    rw [StoredPostings.frequency, stands.current]
    rfl

/-- Before the first reading all documents are to come. -/
theorem stands_ofOccurrences (occurrences : List Occurrence) :
    (ofOccurrences occurrences).Stands none 0
      (ofOccurrences occurrences).documents.toList :=
  ⟨sorted_ofOccurrences occurrences, rfl, rfl, rfl⟩

end StoredPostings

namespace ScriptedPostings

/-- Where the stored postings stand, no other frequencies being announced. -/
structure Stands (faults : List PlannedFault) (postings : ScriptedPostings)
    (current? : Option PostedDocument) (taken : Nat)
    (rest : List PostedDocument) : Prop where
  faults : postings.script.faults = faults
  frequencies : postings.script.frequencies = []
  stored : postings.stored.Stands current? taken rest

variable {faults : List PlannedFault} {postings : ScriptedPostings}
  {current? : Option PostedDocument} {taken : Nat}
  {rest : List PostedDocument}

/-- A call answers as on the stored postings, or fails as planned. -/
theorem Stands.meets_perform {α : Type} {call : PostingsCall}
    {plain : Attempt ReadFault StoredPostings α}
    {answered : α → StoredPostings → Prop}
    (stands : postings.Stands faults current? taken rest)
    (meets : plain.Meets postings.stored answered (fun _ _ => False)) :
    (perform call plain).Meets postings
      (fun value reached => reached.script = postings.script ∧
        answered value reached.stored)
      (fun _ reached => faults ≠ [] ∧
        reached.Stands faults current? taken rest) := by
  obtain ⟨value, stored, went, holds⟩ := meets.exists_ok
  simp only [Attempt.Meets, Attempt.run, perform]
  cases planned : postings.script.fault? call
      ((postings.calls.add call).count call) with
  | some fault =>
      refine ⟨?_, stands.faults, stands.frequencies, stands.stored⟩
      rintro rfl
      simp [Script.fault?, stands.faults] at planned
  | none =>
      rw [went]
      exact ⟨rfl, holds⟩

theorem recites (faults : List PlannedFault) :
    Postings.Recites (faults ≠ []) (Stands faults) where
  ascending stands := StoredPostings.recites.ascending stands.stored
  nextDocument := by
    intro postings current? taken rest stands
    simp only [Postings.nextDocument, performMove, Attempt.meets_bind,
      Attempt.meets_update, Attempt.meets_pure]
    apply (stands.meets_perform ((StoredPostings.recites.nextDocument
      stands.stored).imp_failure fun _ _ failed => failed.1)).imp_answer
    rintro doc? reached ⟨script, same, stored⟩
    exact ⟨same, script ▸ stands.faults, script ▸ stands.frequencies, stored⟩
  seekDocument := by
    intro postings current? taken rest stands target
    simp only [Postings.seekDocument, performMove, Attempt.meets_bind,
      Attempt.meets_update, Attempt.meets_pure]
    apply (stands.meets_perform ((StoredPostings.recites.seekDocument
      stands.stored target).imp_failure fun _ _ failed => failed.1)).imp_answer
    rintro doc? reached ⟨script, same, stored⟩
    exact ⟨same, script ▸ stands.faults, script ▸ stands.frequencies, stored⟩
  nextPosition := by
    intro postings posted taken rest stands inside
    apply (stands.meets_perform ((StoredPostings.recites.nextPosition
      stands.stored inside).imp_failure fun _ _ failed => failed.1)).imp_answer
    rintro position reached ⟨script, same, payload, stored⟩
    exact ⟨same, payload, script ▸ stands.faults, script ▸ stands.frequencies,
      stored⟩
  frequency := by
    intro postings posted taken rest stands
    change ScriptedPostings.frequency postings = _
    have none : (postings.recorded?.bind fun doc =>
        postings.script.frequencies.lookup doc) = none := by
      rw [stands.frequencies]
      cases postings.recorded? <;> rfl
    rw [ScriptedPostings.frequency, none]
    exact StoredPostings.recites.frequency stands.stored

theorem stands_ofOccurrences {script : Script}
    (frequencies : script.frequencies = []) (occurrences : List Occurrence) :
    (ofOccurrences script occurrences).Stands script.faults none 0
      (StoredPostings.ofOccurrences occurrences).documents.toList :=
  ⟨rfl, frequencies, StoredPostings.stands_ofOccurrences occurrences⟩

end ScriptedPostings

/-! ## The cursor over recited postings -/

namespace PostedDocument

/-- The visits from a place in a document on. -/
def ahead (taken : Nat) (posted : PostedDocument)
    (rest : List PostedDocument) : Visits :=
  posted.visits.drop taken ++ rest.flatMap visits

theorem ahead_of_lt {taken : Nat} {posted : PostedDocument}
    (announced : taken < posted.announced)
    (inside : taken < posted.positions.size) (rest : List PostedDocument) :
    ahead taken posted rest =
      ⟨.ofToken posted.doc posted.positions[taken].1,
        posted.positions[taken].2.toList⟩ :: ahead (taken + 1) posted rest := by
  have place : taken < posted.visits.length := by simpa using announced
  have found := getElem?_visits announced inside
  rw [List.getElem?_eq_getElem place, Option.some.injEq] at found
  rw [ahead, List.drop_eq_getElem_cons place, found]
  rfl

theorem ahead_of_le {taken : Nat} {posted : PostedDocument}
    (passed : posted.announced ≤ taken) (rest : List PostedDocument) :
    ahead taken posted rest = rest.flatMap visits := by
  rw [ahead, List.drop_eq_nil_of_le (by simpa using passed), List.nil_append]

/-- To pass documents is to pass their visits. -/
theorem since_flatMap_visits {target : DocId} {rest : List PostedDocument}
    (ascending : rest.Pairwise (·.doc < ·.doc)) :
    Visits.since target (rest.flatMap visits) =
      (rest.dropWhile (·.doc < target)).flatMap visits := by
  induction rest with
  | nil => rfl
  | cons posted rest ih =>
      obtain ⟨before, restAscending⟩ := List.pairwise_cons.mp ascending
      by_cases passed : posted.doc < target
      · rw [List.dropWhile_cons_of_pos (by simpa using passed),
          ← ih restAscending, List.flatMap_cons, Visits.since,
          List.filter_append, List.filter_eq_nil_iff.mpr, List.nil_append]
        · rfl
        · intro visit member
          rw [doc_of_mem_visits member]
          simpa using passed
      · rw [List.dropWhile_cons_of_neg (by simpa using passed)]
        refine List.filter_eq_self.mpr fun visit member => ?_
        have reached := UInt64.not_lt.mp passed
        obtain ⟨found, isFound, inFound⟩ := List.mem_flatMap.mp member
        rw [doc_of_mem_visits inFound, decide_eq_true_eq]
        rcases List.mem_cons.mp isFound with rfl | later
        · exact reached
        · exact UInt64.le_trans reached (UInt64.le_of_lt (before found later))

/-- To pass the current document is to pass its visits as well. -/
theorem since_ahead {target : DocId} {taken : Nat} {posted : PostedDocument}
    {rest : List PostedDocument} (passed : posted.doc < target)
    (ascending : rest.Pairwise (·.doc < ·.doc)) :
    (ahead taken posted rest).since target =
      (rest.dropWhile (·.doc < target)).flatMap visits := by
  rw [← since_flatMap_visits ascending, ahead, Visits.since,
    List.filter_append, List.filter_eq_nil_iff.mpr, List.nil_append]
  · rfl
  · intro visit member
    rw [doc_of_mem_visits (List.mem_of_mem_drop member)]
    simpa using passed

end PostedDocument

namespace Term

open PostedDocument (ahead)

variable {π : Type}
  {stands : π → Option PostedDocument → Nat → List PostedDocument → Prop}
  {fails : Prop} {term : Term π} {posted : PostedDocument}
  {rest : List PostedDocument} {left : Visits}

/-- The cursor stands in a document as its postings do. -/
structure Reads
    (stands : π → Option PostedDocument → Nat → List PostedDocument → Prop)
    (posted : PostedDocument) (rest : List PostedDocument) (term : Term π) :
    Prop where
  postings : stands term.postings (some posted) term.taken rest
  frequency : term.frequency = posted.announced
  here : term.standing.doc = .ok posted.doc

/-- The visits that a cursor over a term has left, wherever it stands. -/
def Holds
    (stands : π → Option PostedDocument → Nat → List PostedDocument → Prop)
    (left : Visits) (term : Term π) : Prop :=
  match term.standing with
  | .unstarted => ∃ current? taken rest,
      stands term.postings current? taken rest ∧
        left = rest.flatMap PostedDocument.visits
  | .on _ | .atDocument _ => ∃ posted rest, Reads stands posted rest term ∧
      left = ahead term.taken posted rest
  | .exhausted => left = []
  | .closed => False

theorem Reads.holds (reads : Reads stands posted rest term) :
    Holds stands (ahead term.taken posted rest) term := by
  have here := reads.here
  unfold Holds
  cases isStanding : term.standing with
  | on span => exact ⟨posted, rest, reads, rfl⟩
  | atDocument doc => exact ⟨posted, rest, reads, rfl⟩
  | unstarted =>
      rw [isStanding] at here
      cases here
  | exhausted =>
      rw [isStanding] at here
      cases here
  | closed =>
      rw [isStanding] at here
      cases here

/-- A cursor that stands in a document reads there. -/
theorem Holds.reads (holds : Holds stands left term) (doc : DocId)
    (inDoc : term.standing.doc = .ok doc) :
    ∃ posted rest, Reads stands posted rest term ∧ posted.doc = doc ∧
      left = ahead term.taken posted rest := by
  unfold Holds at holds
  split at holds <;> rename_i isStanding
  · rw [isStanding] at inDoc
    cases inDoc
  · obtain ⟨posted, rest, reads, rfl⟩ := holds
    exact ⟨posted, rest, reads,
      Except.ok.inj (reads.here.symm.trans inDoc), rfl⟩
  · obtain ⟨posted, rest, reads, rfl⟩ := holds
    exact ⟨posted, rest, reads,
      Except.ok.inj (reads.here.symm.trans inDoc), rfl⟩
  · rw [isStanding] at inDoc
    cases inDoc
  · exact holds.elim

/-- The first of the visits was taken, or none was left. -/
structure Yields
    (stands : π → Option PostedDocument → Nat → List PostedDocument → Prop)
    (left : Visits) (span? : Option Span) (reached : Term π) : Prop where
  span : span? = left.head?.map Visit.span
  holds : Holds stands left.tail reached
  standing : reached.standing = .after span?
  payload : ∀ visit ∈ left.head?, reached.payload?.toList = visit.payloads

variable [Postings π]

omit [Postings π] in
theorem yields_finish :
    finish.Meets term (Yields stands [])
      (fun _ reached => fails ∧ Holds stands [] reached) :=
  ⟨rfl, rfl, rfl, nofun⟩

/-- An announced position is taken, unless reading it fails. -/
theorem yields_takePosition (recites : Postings.Recites fails stands)
    (reads : Reads stands posted rest term)
    (announced : term.taken < posted.announced) :
    (takePosition posted.doc).Meets term
      (Yields stands (ahead term.taken posted rest))
      (fun _ reached => fails ∧
        Holds stands (ahead term.taken posted rest) reached) := by
  have inside : term.taken < posted.positions.size :=
    Nat.lt_of_lt_of_le announced (Nat.min_le_left _ _)
  simp only [takePosition, reading, Attempt.meets_bind,
    Attempt.meets_mapFailure, Attempt.meets_within, Attempt.meets_update,
    Attempt.meets_pure]
  refine (recites.nextPosition reads.postings inside).mono ?_ ?_
  · rintro position postings ⟨rfl, payload, still⟩
    rw [PostedDocument.ahead_of_lt announced inside]
    refine ⟨rfl, ⟨posted, rest, ⟨still, reads.frequency, ?_⟩, rfl⟩, rfl, ?_⟩
    · exact congrArg Except.ok (Span.doc_ofToken _ _)
    · rintro _ ⟨rfl⟩
      exact congrArg Option.toList payload
  · rintro fault postings ⟨may, still⟩
    have reads : Reads stands posted rest { term with postings := postings } :=
      ⟨still, reads.frequency, reads.here⟩
    exact ⟨may, reads.holds⟩

/-- To go on in a document is to take the next position of it or a later one. -/
theorem yields_advance (term : Term π) {posted : PostedDocument}
    {rest : List PostedDocument} (recites : Postings.Recites fails stands)
    (reads : Reads stands posted rest term) :
    (advance posted.doc).Meets term
      (Yields stands (ahead term.taken posted rest))
      (fun _ reached => fails ∧
        Holds stands (ahead term.taken posted rest) reached) := by
  rw [advance]
  simp only [Attempt.meets_bind, Attempt.meets_look, reads.frequency]
  split
  · rename_i announced
    exact yields_takePosition recites reads announced
  · rename_i passed
    rw [PostedDocument.ahead_of_le (Nat.not_lt.mp passed)]
    simp only [reading, Attempt.meets_bind, Attempt.meets_mapFailure,
      Attempt.meets_within]
    refine (recites.nextDocument reads.postings).mono ?_ ?_
    · rintro doc? postings ⟨rfl, still⟩
      cases rest with
      | nil => exact yields_finish
      | cons later others =>
          have forward : posted.doc < later.doc :=
            List.rel_of_pairwise_cons (recites.ascending reads.postings)
              List.mem_cons_self
          simp only [List.head?_cons, Option.map_some, forward, ↓reduceDIte,
            Attempt.meets_bind, Attempt.meets_update]
          have := DocId.room_lt_room forward
          exact yields_advance (standAt later.doc
            { term with postings := postings }) recites
            ⟨still, recites.frequency still, rfl⟩
    · rintro fault postings ⟨may, still⟩
      have reads : Reads stands posted rest
          { term with postings := postings } :=
        ⟨still, reads.frequency, reads.here⟩
      have holds := reads.holds
      rw [PostedDocument.ahead_of_le (Nat.not_lt.mp passed)] at holds
      exact ⟨may, holds⟩
termination_by posted.doc.room

/-- To arrive in a document is to take its first position or a later one. -/
theorem yields_arrive (term : Term π)
    (recites : Postings.Recites fails stands) {later : List PostedDocument}
    (still : stands term.postings later.head? 0 later.tail) :
    (arrive (later.head?.map PostedDocument.doc)).Meets term
      (Yields stands (later.flatMap PostedDocument.visits))
      (fun _ reached => fails ∧
        Holds stands (later.flatMap PostedDocument.visits) reached) := by
  cases later with
  | nil => exact yields_finish
  | cons posted rest =>
      simp only [List.head?_cons, Option.map_some, arrive,
        Attempt.meets_bind, Attempt.meets_update]
      exact yields_advance (standAt posted.doc term) recites
        ⟨still, recites.frequency still, rfl⟩

/-- To go on is to take the first of the visits left, or to fail. -/
theorem yields_onward (recites : Postings.Recites fails stands)
    (holds : Holds stands left term)
    (goes : term.standing.planNext = .ok true) :
    onward.Meets term (Yields stands left)
      (fun _ reached => fails ∧ Holds stands left reached) := by
  cases isStanding : term.standing with
  | unstarted =>
      unfold Holds at holds
      rw [isStanding] at holds
      obtain ⟨current?, taken, rest, still, rfl⟩ := holds
      rw [Attempt.meets_congr (show onward term =
        (do arrive (← reading Postings.nextDocument) :
          Attempt Failure (Term π) _) term by
        simp only [onward, isStanding])]
      simp only [reading, Attempt.meets_bind, Attempt.meets_mapFailure,
        Attempt.meets_within]
      refine (recites.nextDocument still).mono ?_ ?_
      · rintro doc? postings ⟨rfl, moved⟩
        exact yields_arrive { term with postings := postings } recites moved
      · rintro fault postings ⟨may, unmoved⟩
        refine ⟨may, ?_⟩
        simp only [Holds, isStanding]
        exact ⟨current?, taken, rest, unmoved, rfl⟩
  | on span =>
      obtain ⟨posted, rest, reads, inDoc, rfl⟩ :=
        holds.reads span.doc (by rw [isStanding]; rfl)
      rw [Attempt.meets_congr (show onward term = advance posted.doc term by
        simp only [onward, isStanding, inDoc])]
      exact yields_advance term recites reads
  | atDocument doc =>
      obtain ⟨posted, rest, reads, inDoc, rfl⟩ :=
        holds.reads doc (by rw [isStanding]; rfl)
      rw [Attempt.meets_congr (show onward term = advance posted.doc term by
        simp only [onward, isStanding, inDoc])]
      exact yields_advance term recites reads
  | exhausted =>
      rw [isStanding] at goes
      cases goes
  | closed =>
      rw [isStanding] at goes
      cases goes

/-- What a cursor that goes forward has left before and after its seek. -/
theorem Holds.forward (recites : Postings.Recites fails stands)
    (holds : Holds stands left term) {target : DocId}
    (goes : term.standing.planSeek target = .ok .forward)
    (elsewhere : term.standing ≠ .atDocument target) :
    ∃ current? taken rest, stands term.postings current? taken rest ∧
      left.since target = (rest.dropWhile (·.doc < target)).flatMap
        PostedDocument.visits ∧
      ∀ postings, stands postings current? taken rest →
        Holds stands left { term with postings := postings } := by
  have within : ∀ doc : DocId, term.standing.doc = .ok doc →
      doc < target →
      ∃ current? taken rest, stands term.postings current? taken rest ∧
        left.since target = (rest.dropWhile (·.doc < target)).flatMap
          PostedDocument.visits ∧
        ∀ postings, stands postings current? taken rest →
          Holds stands left { term with postings := postings } := by
    intro doc inDoc ahead
    obtain ⟨posted, rest, reads, rfl, rfl⟩ := holds.reads doc inDoc
    refine ⟨_, _, rest, reads.postings, PostedDocument.since_ahead ahead
      (List.Pairwise.of_cons (recites.ascending reads.postings)), ?_⟩
    intro postings still
    have reads : Reads stands posted rest { term with postings := postings } :=
      ⟨still, reads.frequency, reads.here⟩
    exact reads.holds
  rcases Standing.planSeek_eq_forward_iff.mp goes with
    isUnstarted | ⟨doc, isStanding, notAfter⟩ | ⟨span, isStanding, before⟩
  · unfold Holds at holds
    rw [isUnstarted] at holds
    obtain ⟨current?, taken, rest, still, rfl⟩ := holds
    refine ⟨current?, taken, rest, still, PostedDocument.since_flatMap_visits
      ((recites.ascending still).sublist (List.sublist_append_right _ _)), ?_⟩
    intro postings unmoved
    simp only [Holds, isUnstarted]
    exact ⟨current?, taken, rest, unmoved, rfl⟩
  · rw [isStanding] at elsewhere
    exact within doc (by rw [isStanding]; rfl) (by grind)
  · exact within span.doc (by rw [isStanding]; rfl) before

/-- To go forward is to take the first visit that is not before, or to fail. -/
theorem yields_forward (recites : Postings.Recites fails stands)
    (holds : Holds stands left term) {target : DocId}
    (goes : term.standing.planSeek target = .ok .forward) :
    (forward target).Meets term (Yields stands (left.since target))
      (fun _ reached => fails ∧ (Holds stands left reached ∨
        Holds stands (left.since target) reached)) := by
  simp only [forward, Attempt.meets_bind, Attempt.meets_look]
  split
  · rename_i isStanding
    obtain ⟨posted, rest, reads, rfl, rfl⟩ :=
      holds.reads target (by rw [isStanding]; rfl)
    have same : (ahead term.taken posted rest).since posted.doc =
        ahead term.taken posted rest := by
      refine List.filter_eq_self.mpr fun visit member => ?_
      rw [decide_eq_true_eq]
      rcases List.mem_append.mp member with here | later
      · rw [PostedDocument.doc_of_mem_visits (List.mem_of_mem_drop here)]
        exact UInt64.le_refl _
      · obtain ⟨found, isFound, inFound⟩ := List.mem_flatMap.mp later
        rw [PostedDocument.doc_of_mem_visits inFound]
        exact UInt64.le_of_lt (List.rel_of_pairwise_cons
          (recites.ascending reads.postings) isFound)
    rw [same]
    exact (yields_advance term recites reads).imp_failure
      fun _ _ failed => failed.imp_right .inl
  · rename_i elsewhere
    obtain ⟨current?, taken, rest, still, same, exchange⟩ :=
      holds.forward recites goes elsewhere
    rw [same]
    simp only [reading, Attempt.meets_bind, Attempt.meets_mapFailure,
      Attempt.meets_within]
    refine (recites.seekDocument still target).mono ?_ ?_
    · rintro doc? postings ⟨rfl, moved⟩
      exact (yields_arrive { term with postings := postings }
        recites moved).imp_failure fun _ _ failed => failed.imp_right .inr
    · rintro fault postings ⟨may, unmoved⟩
      exact ⟨may, .inl (exchange postings unmoved)⟩

/-- The visits left are those of the plain cursor, wherever both stand. -/
structure Like
    (stands : π → Option PostedDocument → Nat → List PostedDocument → Prop)
    (term : Term π) (plain : Plain) : Prop where
  standing : Cursor.standing term = Cursor.standing plain
  payloads : Cursor.payloads term = Cursor.payloads plain
  holds : Cursor.standing plain ≠ .closed → Holds stands plain.left term
  ordered : plain.held.Ordered

/-- What is yielded is what a plain cursor takes. -/
theorem Yields.takes {span? : Option Span} {reached : Term π}
    (yields : Yields stands left span? reached) (ordered : left.Ordered) :
    Takes (Like stands) left span? reached := by
  obtain ⟨rfl, holds, isStanding, payload⟩ := yields
  refine ⟨rfl, ?_⟩
  cases left with
  | nil =>
      refine ⟨isStanding, ?_, fun _ => holds, Visits.Ordered.nil⟩
      change (do reached.standing.requireSpan; pure _ :
        Except Failure (List Payload)) = _
      rw [isStanding]
      rfl
  | cons visit rest =>
      refine ⟨isStanding, ?_, fun _ => holds, ordered⟩
      change (do reached.standing.requireSpan; pure _ :
        Except Failure (List Payload)) = _
      rw [isStanding, payload visit rfl]
      rfl

/-- Without failures a cursor over a term mirrors plain ones. -/
theorem mirrors (recites : Postings.Recites False stands) :
    Mirrors (Like stands) := by
  have tail : ∀ {plain : Plain}, plain.held.Ordered → plain.left.Ordered := by
    intro plain ordered
    cases plain with
    | fresh visits => exact ordered
    | on visit rest => exact ordered.tail
    | ended => exact ordered
    | closed => exact ordered
  refine planned.mirrors Like.standing Like.payloads Like.ordered ?_ ?_
  · intro term plain alike goes
    have holds := alike.holds fun isClosed => by
      rw [isClosed] at goes
      cases goes
    refine (yields_onward recites holds ?_).mono ?_ fun _ _ failed => failed.1
    · exact (congrArg Standing.planNext alike.standing).trans goes
    · exact fun _ _ yields => yields.takes (tail alike.ordered)
  · intro term plain target alike goes
    have holds := alike.holds fun isClosed => by
      rw [isClosed] at goes
      cases goes
    refine (yields_forward recites holds ?_).mono ?_ fun _ _ failed => failed.1
    · exact (congrArg (Standing.planSeek target) alike.standing).trans goes
    · exact fun _ _ yields =>
        yields.takes ((tail alike.ordered).since target)

/-- A term yields the visits of the documents that its postings recite. -/
theorem follows_ofPostings (recites : Postings.Recites False stands)
    {postings : π} {current? : Option PostedDocument} {taken : Nat}
    (isStanding : stands postings current? taken rest)
    (ordered : Visits.Ordered (rest.flatMap PostedDocument.visits)) :
    Follows (ofPostings postings)
      (.fresh (rest.flatMap PostedDocument.visits)) :=
  ⟨Like stands, mirrors recites, rfl, rfl,
    fun _ => ⟨current?, taken, rest, isStanding, rfl⟩, ordered⟩

end Term

/-! ## The visits of a term -/

/-- What a term with given occurrences yields. -/
def Occurrence.visits (occurrences : List Occurrence) : Visits :=
  (StoredPostings.ofOccurrences occurrences).documents.toList.flatMap
    PostedDocument.visits

theorem Occurrence.ordered_visits (occurrences : List Occurrence) :
    (visits occurrences).Ordered := by
  have sorted := StoredPostings.sorted_ofOccurrences occurrences
  refine List.pairwise_flatMap.mpr ⟨?_, ?_⟩
  · intro posted member
    rw [PostedDocument.visits, List.pairwise_map]
    refine ((sorted.positions posted (by simpa using member)).sublist
      (List.take_sublist _ _)).imp fun {first second} before => ?_
    exact Span.ofToken_lt_ofToken before
  · refine sorted.documents.imp fun {first second} before => ?_
    intro visit inFirst later inSecond
    refine Span.lt_of_doc_lt ?_
    have firstDoc := PostedDocument.doc_of_mem_visits inFirst
    have secondDoc := PostedDocument.doc_of_mem_visits inSecond
    change visit.doc < later.doc
    rw [firstDoc, secondDoc]
    exact before

/-- The span of the token at an occurrence. -/
def Occurrence.span (occurrence : Occurrence) : Span :=
  .ofToken occurrence.doc occurrence.position

/-- Collating only leaves out occurrences. -/
theorem Occurrence.mem_of_mem_collate {occurrences : List Occurrence}
    {found : Occurrence} (member : found ∈ collate occurrences) :
    found ∈ occurrences := by
  suffices general : ∀ filed : List Occurrence,
      found ∈ occurrences.foldl (fun filed added => file added filed) filed →
        found ∈ occurrences ∨ found ∈ filed from
    (general [] member).resolve_right List.not_mem_nil
  clear member
  induction occurrences with
  | nil => exact fun filed isFiled => .inr isFiled
  | cons first rest ih =>
      intro filed isFiled
      rcases ih _ isFiled with later | isFiled
      · exact .inl (List.mem_cons_of_mem _ later)
      · rcases mem_of_mem_file isFiled with rfl | before
        · exact .inl List.mem_cons_self
        · exact .inr before

/-- A term yields no more than its collated occurrences, in their order. -/
theorem Occurrence.map_span_visits_sublist (occurrences : List Occurrence) :
    ((visits occurrences).map Visit.span).Sublist
      ((collate occurrences).map span) := by
  have each : ∀ groups : List (DocId × List (Position × Option Payload)),
      ((groups.map fun group =>
          (⟨group.1, group.2.toArray⟩ : PostedDocument)).flatMap
        PostedDocument.visits |>.map Visit.span).Sublist
        ((groups.flatMap PostedDocument.occurrences).map span) := by
    intro groups
    induction groups with
    | nil => exact List.Sublist.refl _
    | cons group rest ih =>
        simp only [List.map_cons, List.flatMap_cons, List.map_append]
        refine List.Sublist.append ?_ ih
        simp only [PostedDocument.visits, PostedDocument.occurrences,
          List.map_map]
        exact (List.take_sublist _ _).map _
  have whole := each (PostedDocument.gather (collate occurrences))
  rw [PostedDocument.flatMap_occurrences_gather] at whole
  simpa [visits, StoredPostings.ofOccurrences, PostedDocument.ofSorted]
    using whole

/-- The place of an occurrence says its document and its position. -/
theorem Occurrence.span_eq_of_place_eq {first second : Occurrence}
    (same : first.place = second.place) : first.span = second.span := by
  have firstBound := first.position.toNat_lt
  have secondBound := second.position.toNat_lt
  simp only [place, UInt32.size] at same
  have sameDoc : first.doc = second.doc := by
    rw [← UInt64.toNat_inj]
    omega
  have samePosition : first.position = second.position := by
    rw [← UInt32.toNat_inj]
    omega
  rw [span, span, sameDoc, samePosition]

/-- Filing an occurrence keeps the places filed before, and adds its own. -/
theorem Occurrence.exists_mem_file (added : Occurrence)
    {filed : List Occurrence} {place : Nat}
    (known : place = added.place ∨ ∃ found ∈ filed, found.place = place) :
    ∃ found ∈ file added filed, found.place = place := by
  induction filed with
  | nil =>
      rcases known with rfl | ⟨found, member, _⟩
      · exact ⟨added, List.mem_cons_self, rfl⟩
      · exact absurd member List.not_mem_nil
  | cons first rest ih =>
      unfold file
      split
      · rcases known with rfl | ⟨found, member, same⟩
        · exact ⟨added, List.mem_cons_self, rfl⟩
        · exact ⟨found, List.mem_cons_of_mem _ member, same⟩
      · rename_i notBefore
        split
        · by_cases isFirst : first.place = place
          · exact ⟨first, List.mem_cons_self, isFirst⟩
          · have further : place = added.place ∨
                ∃ found ∈ rest, found.place = place := by
              refine known.imp_right ?_
              rintro ⟨found, member, same⟩
              rcases List.mem_cons.mp member with rfl | later
              · exact absurd same isFirst
              · exact ⟨found, later, same⟩
            obtain ⟨found, member, same⟩ := ih further
            exact ⟨found, List.mem_cons_of_mem _ member, same⟩
        · rename_i notAfter
          rw [before_iff_place_lt] at notBefore notAfter
          rcases known with rfl | ⟨found, member, same⟩
          · exact ⟨added, List.mem_cons_self, rfl⟩
          · rcases List.mem_cons.mp member with rfl | later
            · exact ⟨added, List.mem_cons_self, by omega⟩
            · exact ⟨found, List.mem_cons_of_mem _ later, same⟩

/-- Collating leaves no place out. -/
theorem Occurrence.exists_mem_collate {occurrences : List Occurrence}
    {occurrence : Occurrence} (member : occurrence ∈ occurrences) :
    ∃ found ∈ collate occurrences, found.place = occurrence.place := by
  suffices general : ∀ filed : List Occurrence,
      occurrence ∈ occurrences ∨
        (∃ found ∈ filed, found.place = occurrence.place) →
      ∃ found ∈ occurrences.foldl (fun filed added => file added filed) filed,
        found.place = occurrence.place from
    general [] (.inl member)
  clear member
  induction occurrences with
  | nil =>
      intro filed known
      exact known.resolve_left List.not_mem_nil
  | cons first rest ih =>
      intro filed known
      apply ih
      rcases known with member | found
      · rcases List.mem_cons.mp member with rfl | later
        · exact .inr (exists_mem_file occurrence (.inl rfl))
        · exact .inl later
      · exact .inr (exists_mem_file first (.inr found))

/-- Of ascending positions each is at least its place. -/
theorem PostedDocument.le_position
    {positions : List (Position × Option Payload)}
    (ascending : positions.Pairwise (·.1 < ·.1)) {place : Nat}
    (inside : place < positions.length) :
    place ≤ positions[place].1.toNat := by
  induction place with
  | zero => exact Nat.zero_le _
  | succ before ih =>
      have further := List.pairwise_iff_getElem.mp ascending before
        (before + 1) (Nat.lt_of_succ_lt inside) inside (Nat.lt_succ_self _)
      have reached := ih (Nat.lt_of_succ_lt inside)
      rw [UInt32.lt_iff_toNat_lt] at further
      omega

/--
A term yields the span of each of its occurrences, but for the last position
there is, where a document has more positions than can be announced.
-/
theorem Occurrence.exists_visit {occurrences : List Occurrence}
    {occurrence : Occurrence} (member : occurrence ∈ occurrences) :
    ∃ visit ∈ visits occurrences, visit.doc = occurrence.doc ∧
      (visit.span = occurrence.span ∨
        StoredPostings.frequencyLimit ≤ occurrence.position.toNat) := by
  obtain ⟨found, isFound, samePlace⟩ := exists_mem_collate member
  have sameSpan := span_eq_of_place_eq samePlace
  rw [← PostedDocument.flatMap_occurrences_gather (collate occurrences),
    List.mem_flatMap] at isFound
  obtain ⟨group, isGroup, inGroup⟩ := isFound
  obtain ⟨item, isItem, rfl⟩ := List.mem_map.mp inGroup
  have posted : (⟨group.1, group.2.toArray⟩ : PostedDocument) ∈
      (StoredPostings.ofOccurrences occurrences).documents.toList := by
    simp only [StoredPostings.ofOccurrences, PostedDocument.ofSorted]
    exact List.mem_map_of_mem isGroup
  have listed : ∀ visit ∈ PostedDocument.visits ⟨group.1, group.2.toArray⟩,
      visit ∈ visits occurrences ∧ visit.doc = occurrence.doc := by
    intro visit isVisit
    refine ⟨List.mem_flatMap.mpr ⟨_, posted, isVisit⟩, ?_⟩
    rw [PostedDocument.doc_of_mem_visits isVisit]
    simpa [span] using congrArg Span.doc sameSpan
  obtain ⟨place, inside, isPlace⟩ := List.mem_iff_getElem.mp isItem
  by_cases announced : place < StoredPostings.frequencyLimit
  · have counted : place <
        (⟨group.1, group.2.toArray⟩ : PostedDocument).announced :=
      Nat.lt_min.mpr ⟨by simpa using inside, announced⟩
    have isVisit := PostedDocument.getElem?_visits counted
      (by simpa using inside)
    obtain ⟨isListed, sameDoc⟩ := listed _ (List.mem_of_getElem? isVisit)
    refine ⟨_, isListed, sameDoc, .inl ?_⟩
    rw [← sameSpan, span]
    simp [isPlace]
  · have reached := PostedDocument.le_position
      (PostedDocument.pairwise_position_gather (pairwise_collate _) isGroup)
      inside
    have counted : 0 <
        (⟨group.1, group.2.toArray⟩ : PostedDocument).announced :=
      Nat.lt_min.mpr ⟨by simpa using Nat.zero_lt_of_lt inside, by decide⟩
    have first := PostedDocument.getElem?_visits counted
      (by simpa using Nat.zero_lt_of_lt inside)
    obtain ⟨isListed, sameDoc⟩ := listed _ (List.mem_of_getElem? first)
    refine ⟨_, isListed, sameDoc, .inr ?_⟩
    have samePosition : item.1 = occurrence.position := by
      simpa [span] using congrArg Span.start sameSpan
    rw [← samePosition, ← isPlace]
    omega

namespace Term

theorem follows_stored (occurrences : List Occurrence) :
    Follows (ofPostings (StoredPostings.ofOccurrences occurrences))
      (.fresh (Occurrence.visits occurrences)) :=
  follows_ofPostings StoredPostings.recites
    (StoredPostings.stands_ofOccurrences occurrences)
    (Occurrence.ordered_visits occurrences)

/-- A script that only announces another cost changes nothing. -/
theorem follows_scripted {script : Script} (faults : script.faults = [])
    (frequencies : script.frequencies = []) (occurrences : List Occurrence) :
    Follows (ofPostings (ScriptedPostings.ofOccurrences script occurrences))
      (.fresh (Occurrence.visits occurrences)) := by
  have recites := ScriptedPostings.recites script.faults
  rw [eq_false (show ¬ script.faults ≠ [] from fun some => some faults)]
    at recites
  exact follows_ofPostings recites
    (ScriptedPostings.stands_ofOccurrences frequencies occurrences)
    (Occurrence.ordered_visits occurrences)

end Term

end PositionalSearch
