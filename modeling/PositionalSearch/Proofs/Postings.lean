import PositionalSearch.Postings.Scripted
import PositionalSearch.Proofs.Meets

/-!
# Postings go forward

Stored postings hold their documents in ascending order, and the positions of
each document as well.  So whatever is read from them comes in order, also
when a script makes calls fail in between.
-/

namespace PositionalSearch

/-! ## Stored documents are in order -/

theorem Occurrence.doc_le_of_place_lt {left right : Occurrence}
    (before : left.place < right.place) : left.doc ≤ right.doc := by
  have leftBound := left.position.toNat_lt
  have rightBound := right.position.toNat_lt
  simp only [place, UInt32.size] at before
  rw [UInt64.le_iff_toNat_le]
  omega

namespace PostedDocument

/-- The occurrences that were gathered under one document. -/
def occurrences (group : DocId × List (Position × Option Payload)) :
    List Occurrence :=
  group.2.map fun (position, payload?) => ⟨group.1, position, payload?⟩

/-- Gathering only puts brackets around the occurrences of a document. -/
theorem flatMap_occurrences_gather (sorted : List Occurrence) :
    (gather sorted).flatMap occurrences = sorted := by
  induction sorted with
  | nil => rfl
  | cons first rest ih =>
      unfold gather
      split
      · rename_i empty
        rw [empty] at ih
        simp only [List.flatMap_nil] at ih
        simp [occurrences, ← ih]
      · rename_i doc positions others gathered
        rw [gathered] at ih
        split
        · rename_i same
          subst same
          simp only [List.flatMap_cons, occurrences, List.map_cons,
            List.cons_append] at ih ⊢
          rw [ih]
        · simp only [List.flatMap_cons, occurrences, List.map_cons,
            List.map_nil, List.cons_append, List.nil_append] at ih ⊢
          rw [ih]

/-- The first document gathered is that of the first occurrence. -/
theorem doc_of_gather_eq_cons {first : Occurrence} {rest : List Occurrence}
    {group : DocId × List (Position × Option Payload)}
    {others : List (DocId × List (Position × Option Payload))}
    (gathered : gather (first :: rest) = group :: others) :
    group.1 = first.doc := by
  unfold gather at gathered
  split at gathered
  · cases gathered
    rfl
  · split at gathered
    · rename_i same
      cases gathered
      exact same
    · cases gathered
      rfl

/-- Documents are gathered in ascending order, each once. -/
theorem pairwise_doc_gather {sorted : List Occurrence}
    (ordered : sorted.Pairwise (·.place < ·.place)) :
    (gather sorted).Pairwise (·.1 < ·.1) := by
  induction sorted with
  | nil => exact .nil
  | cons first rest ih =>
      obtain ⟨before, restOrdered⟩ := List.pairwise_cons.mp ordered
      have tail := ih restOrdered
      unfold gather
      split
      · exact List.pairwise_singleton _ _
      · rename_i doc positions others gathered
        rw [gathered, List.pairwise_cons] at tail
        split
        · exact List.pairwise_cons.mpr tail
        · rename_i other
          have later : first.doc < doc := by
            cases rest with
            | nil => cases gathered
            | cons second rest =>
                have same := doc_of_gather_eq_cons gathered
                have notAfter := Occurrence.doc_le_of_place_lt
                  (before second List.mem_cons_self)
                simp only at same
                grind
          refine List.pairwise_cons.mpr
            ⟨fun group member => ?_, List.pairwise_cons.mpr tail⟩
          rcases List.mem_cons.mp member with rfl | further
          · exact later
          · exact UInt64.lt_trans later (tail.1 group further)

/-- The positions gathered under a document are in ascending order. -/
theorem pairwise_position_gather {sorted : List Occurrence}
    (ordered : sorted.Pairwise (·.place < ·.place))
    {group : DocId × List (Position × Option Payload)}
    (member : group ∈ gather sorted) : group.2.Pairwise (·.1 < ·.1) := by
  rw [← flatMap_occurrences_gather sorted, List.pairwise_flatMap] at ordered
  have inner := ordered.1 group member
  rw [occurrences, List.pairwise_map] at inner
  refine inner.imp fun {left right} before => ?_
  simp only [Occurrence.place] at before
  rw [UInt32.lt_iff_toNat_lt]
  omega

end PostedDocument

namespace StoredPostings

/-- Documents in order, the positions of each in order. -/
structure Sorted (postings : StoredPostings) : Prop where
  documents : postings.documents.toList.Pairwise (·.doc < ·.doc)
  positions : ∀ posted ∈ postings.documents,
    posted.positions.toList.Pairwise (·.1 < ·.1)

theorem sorted_ofOccurrences (occurrences : List Occurrence) :
    (ofOccurrences occurrences).Sorted where
  documents := by
    simp only [ofOccurrences, PostedDocument.ofSorted, List.pairwise_map]
    exact PostedDocument.pairwise_doc_gather
      (Occurrence.pairwise_collate occurrences)
  positions := by
    intro posted member
    simp only [ofOccurrences, PostedDocument.ofSorted, List.mem_toArray,
      List.mem_map] at member
    obtain ⟨group, gathered, rfl⟩ := member
    exact PostedDocument.pairwise_position_gather
      (Occurrence.pairwise_collate occurrences) gathered

/-- A later place holds a later document. -/
theorem Sorted.doc_lt {postings : StoredPostings} (sorted : postings.Sorted)
    {first second : Nat} (before : first < second)
    (inside : second < postings.documents.size) :
    postings.documents[first].doc < postings.documents[second].doc :=
  List.pairwise_iff_getElem.mp sorted.documents first second
    (by simpa using Nat.lt_trans before inside) (by simpa using inside) before

/-- A later place of a document holds a later position. -/
theorem Sorted.position_lt {postings : StoredPostings}
    (sorted : postings.Sorted) {posted : PostedDocument}
    (member : posted ∈ postings.documents) {first second : Nat}
    (before : first < second) (inside : second < posted.positions.size) :
    posted.positions[first].1 < posted.positions[second].1 :=
  List.pairwise_iff_getElem.mp (sorted.positions posted member) first second
    (by simpa using Nat.lt_trans before inside) (by simpa using inside) before

/-- The documents before a target stand first. -/
theorem Sorted.split {postings : StoredPostings} (sorted : postings.Sorted)
    (target : DocId) :
    Bisection.Split postings.documents
      (fun posted => posted.doc < target) := by
  intro first second ordered inside holds
  simp only [decide_eq_true_eq] at holds ⊢
  rcases Nat.lt_or_eq_of_le ordered with before | rfl
  · exact UInt64.lt_trans (sorted.doc_lt before inside) holds
  · exact holds

/-- Nothing was read yet, or a document is current and a position taken. -/
def Marks (doc? : Option DocId) (position? : Option Position)
    (postings : StoredPostings) : Prop :=
  postings.Sorted ∧
    match doc? with
    | none => postings.place = none
    | some doc => ∃ (place : Nat) (inside : place < postings.documents.size),
        postings.place = some place ∧ postings.documents[place].doc = doc ∧
          ∀ position ∈ position?, ∃ before payload?,
            postings.taken = before + 1 ∧
              postings.documents[place].positions[before]? =
                some (position, payload?)

theorem marks_ofOccurrences (occurrences : List Occurrence) :
    (ofOccurrences occurrences).Marks none none :=
  ⟨sorted_ofOccurrences occurrences, rfl⟩

/-- A move to a place that is not passed yet reaches a later document. -/
theorem Marks.moveTo {postings : StoredPostings} {doc? : Option DocId}
    {position? : Option Position} (marks : postings.Marks doc? position?)
    {place : Nat} (ahead : postings.nextPlace ≤ place) {later : DocId}
    (reached : (postings.moveTo place).current?.map PostedDocument.doc =
      some later) :
    (∀ doc ∈ doc?, doc < later) ∧
      (postings.moveTo place).Marks (some later) none ∧
      ∃ inside : place < postings.documents.size,
        postings.documents[place].doc = later := by
  obtain ⟨sorted, marks⟩ := marks
  simp only [StoredPostings.moveTo, current?, Option.bind_some,
    Option.map_eq_some_iff, Array.getElem?_eq_some_iff] at reached
  obtain ⟨posted, ⟨inside, rfl⟩, rfl⟩ := reached
  have stays : min place postings.documents.size = place := by omega
  simp only [stays] at inside ⊢
  refine ⟨?_, ⟨⟨sorted.documents, sorted.positions⟩,
    place, inside, ?_, rfl, ?_⟩, inside, trivial⟩
  · intro doc isDoc
    simp only [Option.mem_def] at isDoc
    subst isDoc
    obtain ⟨current, currentInside, same, rfl, _⟩ := marks
    refine sorted.doc_lt ?_ inside
    simp only [nextPlace, same] at ahead
    exact ahead
  · simp [StoredPostings.moveTo, stays]
  · intro position isPosition
    cases isPosition

/-- The place of a seek is not passed yet. -/
theorem nextPlace_le_placeFrom (postings : StoredPostings) (target : DocId)
    (inside : postings.placeFrom target < postings.documents.size) :
    postings.nextPlace ≤ postings.placeFrom target := by
  have bound := Bisection.le_boundary postings.documents
    (fun posted => posted.doc < target)
    (min postings.nextPlace postings.documents.size) postings.documents.size
    (Nat.le_refl _)
  change _ ≤ postings.placeFrom target at bound
  omega

/-- The document at the place of a seek is not before the target. -/
theorem Sorted.target_le {postings : StoredPostings}
    (sorted : postings.Sorted) (target : DocId)
    (inside : postings.placeFrom target < postings.documents.size) :
    target ≤ postings.documents[postings.placeFrom target].doc := by
  have notBefore := Bisection.not_before_of_boundary_le
    (sorted.split target) (Nat.le_refl _)
    (show Bisection.boundary _ _ _ _ _ ≤ postings.placeFrom target from
      Nat.le_refl _) inside inside
  simpa using notBefore

end StoredPostings

/-! ## Reading goes forward -/

/--
A condition on postings, their current document and the position taken last,
under which documents and positions are read in ascending order.
-/
structure Postings.Steady {π : Type} [Postings π]
    (keeps : Option DocId → Option Position → π → Prop) : Prop where
  nextDocument : ∀ {doc? : Option DocId} {position? : Option Position}
    {postings : π}, keeps doc? position? postings →
    (Postings.nextDocument : Attempt ReadFault π _).Meets postings
      (fun later? reached => ∀ later ∈ later?,
        (∀ doc ∈ doc?, doc < later) ∧ keeps (some later) none reached)
      (fun _ reached => keeps doc? position? reached)
  seekDocument : ∀ {doc? : Option DocId} {position? : Option Position}
    {postings : π}, keeps doc? position? postings → ∀ target : DocId,
    (Postings.seekDocument target : Attempt ReadFault π _).Meets postings
      (fun later? reached => ∀ later ∈ later?,
        ((∀ doc ∈ doc?, doc < later) ∧ keeps (some later) none reached) ∧
          target ≤ later)
      (fun _ reached => keeps doc? position? reached)
  nextPosition : ∀ {doc : DocId} {position? : Option Position}
    {postings : π}, keeps (some doc) position? postings →
    (Postings.nextPosition : Attempt ReadFault π _).Meets postings
      (fun later reached => (∀ position ∈ position?, position < later) ∧
        keeps (some doc) (some later) reached)
      (fun _ reached => keeps (some doc) position? reached)

namespace StoredPostings

theorem nextDocument_eq (postings : StoredPostings) :
    (Postings.nextDocument : Attempt ReadFault _ _) postings =
      (.ok ((postings.moveTo postings.nextPlace).current?.map
        PostedDocument.doc), postings.moveTo postings.nextPlace) := rfl

theorem seekDocument_eq (postings : StoredPostings) (target : DocId) :
    (Postings.seekDocument target : Attempt ReadFault _ _) postings =
      (.ok ((postings.moveTo (postings.placeFrom target)).current?.map
        PostedDocument.doc),
        postings.moveTo (postings.placeFrom target)) := rfl

theorem steady_marks : Postings.Steady Marks where
  nextDocument := by
    intro doc? position? postings marks
    refine (Attempt.meets_of_ok postings.nextDocument_eq).mpr ?_
    intro later reached
    obtain ⟨after, kept, _⟩ := marks.moveTo (Nat.le_refl _) reached
    exact ⟨after, kept⟩
  seekDocument := by
    intro doc? position? postings marks target
    refine (Attempt.meets_of_ok (postings.seekDocument_eq target)).mpr ?_
    intro later reached
    have inside : postings.placeFrom target < postings.documents.size := by
      simp only [moveTo, current?, Option.bind_some, Option.mem_def,
        Option.map_eq_some_iff, Array.getElem?_eq_some_iff] at reached
      obtain ⟨_, ⟨inside, _⟩, _⟩ := reached
      omega
    obtain ⟨after, kept, _, rfl⟩ :=
      marks.moveTo (postings.nextPlace_le_placeFrom target inside) reached
    exact ⟨⟨after, kept⟩, marks.1.target_le target inside⟩
  nextPosition := by
    rintro doc position? postings ⟨sorted, place, inside, same, rfl, last⟩
    have current : postings.current? = some postings.documents[place] := by
      simp [current?, same, inside]
    cases found : postings.documents[place].positions[postings.taken]? with
    | none =>
        refine (Attempt.meets_of_error
          (show nextPosition postings = (.error noPositionLeft, postings) by
            simp [nextPosition, current, found])).mpr ?_
        exact ⟨sorted, place, inside, same, rfl, last⟩
    | some entry =>
        obtain ⟨position, payload?⟩ := entry
        refine (Attempt.meets_of_ok
          (show nextPosition postings = (.ok position,
            { postings with taken := postings.taken + 1 }) by
            simp [nextPosition, current, found])).mpr ⟨?_, ?_⟩
        · intro earlier isEarlier
          obtain ⟨before, _, taken, entry⟩ := last earlier isEarlier
          obtain ⟨beforeInside, earlierEq⟩ :=
            Array.getElem?_eq_some_iff.mp entry
          obtain ⟨takenInside, positionEq⟩ :=
            Array.getElem?_eq_some_iff.mp found
          have ordered := sorted.position_lt (Array.getElem_mem inside)
            (show before < postings.taken by omega) takenInside
          rw [earlierEq, positionEq] at ordered
          exact ordered
        · refine ⟨⟨sorted.documents, sorted.positions⟩, place, inside, same,
            rfl, ?_⟩
          intro last isLast
          cases isLast
          exact ⟨postings.taken, payload?, rfl, found⟩

end StoredPostings

namespace ScriptedPostings

/-- A script only makes calls fail that change nothing. -/
theorem meets_perform {α : Type} {call : PostingsCall}
    {plain : Attempt ReadFault StoredPostings α}
    {postings : ScriptedPostings}
    {answered : α → StoredPostings → Prop}
    {failed : ReadFault → StoredPostings → Prop}
    (meets : plain.Meets postings.stored answered failed)
    (unchanged : ∀ fault, failed fault postings.stored) :
    (perform call plain).Meets postings
      (fun value reached => answered value reached.stored)
      (fun fault reached => failed fault reached.stored) := by
  simp only [Attempt.Meets, Attempt.run, perform] at meets ⊢
  cases postings.script.fault? call
      ((postings.calls.add call).count call) with
  | some fault => exact unchanged fault
  | none =>
      dsimp only
      cases outcome : plain postings.stored with
      | mk result stored =>
          rw [outcome] at meets
          cases result <;> exact meets

/-- Where the postings under a script stand. -/
def Marks (doc? : Option DocId) (position? : Option Position)
    (postings : ScriptedPostings) : Prop :=
  postings.stored.Marks doc? position?

theorem steady_marks : Postings.Steady Marks where
  nextDocument := by
    intro doc? position? postings marks
    simp only [Postings.nextDocument, performMove, Attempt.meets_bind,
      Attempt.meets_update, Attempt.meets_pure]
    apply (meets_perform (StoredPostings.steady_marks.nextDocument marks)
      fun _ => marks).imp_answer
    exact fun later? reached forward => forward
  seekDocument := by
    intro doc? position? postings marks target
    simp only [Postings.seekDocument, performMove, Attempt.meets_bind,
      Attempt.meets_update, Attempt.meets_pure]
    apply (meets_perform
      (StoredPostings.steady_marks.seekDocument marks target)
      fun _ => marks).imp_answer
    exact fun later? reached forward => forward
  nextPosition := by
    intro doc position? postings marks
    exact meets_perform (StoredPostings.steady_marks.nextPosition marks)
      fun _ => marks

theorem marks_ofOccurrences (script : Script)
    (occurrences : List Occurrence) :
    (ofOccurrences script occurrences).Marks none none :=
  StoredPostings.marks_ofOccurrences occurrences

end ScriptedPostings

end PositionalSearch
