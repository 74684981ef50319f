import PositionalSearch.Proofs.Follow.Terms

/-!
# A seek is a scan

Postings in memory seek a document by bisection of the documents after the
current one.  A scan goes there from one document to the next.  Whatever was
asked of the postings before, both answer one document and leave one state, so
that nothing that is asked later can tell which of them was made.
-/

namespace PositionalSearch

namespace StoredPostings

variable {postings reached : StoredPostings} {target doc : DocId}

/-! ## Scans -/

@[simp] theorem nextPlace_moveTo (place : Nat) (postings : StoredPostings) :
    (postings.moveTo place).nextPlace =
      min place postings.documents.size + 1 := rfl

/-- A move answers the document at the place it goes to, if there is one. -/
theorem doc?_moveTo (place : Nat) (postings : StoredPostings) :
    (postings.moveTo place).current?.map PostedDocument.doc =
      postings.documents[place]?.map PostedDocument.doc := by
  rcases Nat.lt_or_ge place postings.documents.size with inside | passed
  · simp [moveTo, current?, Nat.min_eq_left (Nat.le_of_lt inside)]
  · simp [moveTo, current?, passed]

/-- The next document is the first of those after the current one. -/
theorem nextDocument_eq_some_iff :
    (Postings.nextDocument : Attempt ReadFault _ _).run postings =
        (.ok (some doc), reached) ↔
      (∃ posted, postings.documents[postings.nextPlace]? = some posted ∧
        posted.doc = doc) ∧
      postings.moveTo postings.nextPlace = reached := by
  rw [Attempt.run, nextDocument_eq, doc?_moveTo, Prod.mk.injEq,
    Except.ok.injEq, Option.map_eq_some_iff]

theorem nextDocument_eq_none_iff :
    (Postings.nextDocument : Attempt ReadFault _ _).run postings =
        (.ok none, reached) ↔
      postings.documents.size ≤ postings.nextPlace ∧
      postings.moveTo postings.nextPlace = reached := by
  rw [Attempt.run, nextDocument_eq, doc?_moveTo, Prod.mk.injEq,
    Except.ok.injEq, Option.map_eq_none_iff, Array.getElem?_eq_none_iff]

/-- A document that is answered is no longer to come. -/
theorem remaining_lt_of_nextDocument
    (moved : (Postings.nextDocument : Attempt ReadFault _ _).run postings =
      (.ok (some doc), reached)) :
    reached.documents.size - reached.nextPlace <
      postings.documents.size - postings.nextPlace := by
  obtain ⟨⟨posted, found, _⟩, rfl⟩ := nextDocument_eq_some_iff.mp moved
  obtain ⟨inside, _⟩ := Array.getElem?_eq_some_iff.mp found
  rw [nextPlace_moveTo, Nat.min_eq_left (Nat.le_of_lt inside)]
  change postings.documents.size - _ < _
  omega

/--
Move to the next document, and on from there until a document is not before
the target or none is left.
-/
def scan (target : DocId) (postings : StoredPostings) :
    Except ReadFault (Option DocId) × StoredPostings :=
  match moved : (Postings.nextDocument : Attempt ReadFault _ _).run
      postings with
  | (.ok (some doc), reached) =>
      if doc < target then
        have := remaining_lt_of_nextDocument moved
        scan target reached
      else (.ok (some doc), reached)
  | (.ok none, reached) => (.ok none, reached)
  | (.error fault, reached) => (.error fault, reached)
termination_by postings.documents.size - postings.nextPlace

/-! ## Seeks -/

theorem Sorted.moveTo (sorted : postings.Sorted) (place : Nat) :
    (postings.moveTo place).Sorted :=
  ⟨sorted.documents, sorted.positions⟩

/-- The documents after the current one that a seek does not pass. -/
theorem Sorted.drop_placeFrom (sorted : postings.Sorted) (target : DocId) :
    postings.documents.toList.drop (postings.placeFrom target) =
      (postings.documents.toList.drop postings.nextPlace).dropWhile
        (·.doc < target) :=
  Stands.drop_placeFrom ⟨sorted, rfl, rfl, rfl⟩ target

/-- Where a move goes depends only on the documents from there on. -/
theorem moveTo_eq_moveTo {first second : Nat}
    (same : postings.documents.toList.drop first =
      postings.documents.toList.drop second) :
    postings.moveTo first = postings.moveTo second := by
  have lengths := congrArg List.length same
  simp only [List.length_drop, Array.length_toList] at lengths
  have places : min first postings.documents.size =
      min second postings.documents.size := by omega
  rw [moveTo, places, ← moveTo]

/-- Where no document is left a seek goes past the last one. -/
theorem Sorted.moveTo_placeFrom_of_passed (sorted : postings.Sorted)
    (passed : postings.documents.size ≤ postings.nextPlace) :
    postings.moveTo (postings.placeFrom target) =
      postings.moveTo postings.nextPlace := by
  apply moveTo_eq_moveTo
  rw [sorted.drop_placeFrom, List.drop_eq_nil_of_le (by simpa using passed),
    List.dropWhile_nil]

/-- A seek goes to the next document if that is not before the target. -/
theorem Sorted.moveTo_placeFrom_of_not_lt (sorted : postings.Sorted)
    {posted : PostedDocument}
    (next : postings.documents[postings.nextPlace]? = some posted)
    (reaches : ¬ posted.doc < target) :
    postings.moveTo (postings.placeFrom target) =
      postings.moveTo postings.nextPlace := by
  apply moveTo_eq_moveTo
  obtain ⟨inside, rfl⟩ := Array.getElem?_eq_some_iff.mp next
  rw [sorted.drop_placeFrom, List.drop_eq_getElem_cons (by simpa using inside),
    List.dropWhile_cons_of_neg (by simpa using reaches)]

/-- From a document before the target a seek goes on to where it would go. -/
theorem Sorted.moveTo_placeFrom_of_lt (sorted : postings.Sorted)
    {posted : PostedDocument}
    (next : postings.documents[postings.nextPlace]? = some posted)
    (before : posted.doc < target) :
    postings.moveTo (postings.placeFrom target) =
      (postings.moveTo postings.nextPlace).moveTo
        ((postings.moveTo postings.nextPlace).placeFrom target) := by
  obtain ⟨inside, rfl⟩ := Array.getElem?_eq_some_iff.mp next
  apply moveTo_eq_moveTo
  have later := (sorted.moveTo postings.nextPlace).drop_placeFrom target
  rw [nextPlace_moveTo, Nat.min_eq_left (Nat.le_of_lt inside)] at later
  change postings.documents.toList.drop _ =
    (postings.documents.toList.drop _).dropWhile _ at later
  rw [later, sorted.drop_placeFrom,
    List.drop_eq_getElem_cons (by simpa using inside),
    List.dropWhile_cons_of_pos (by simpa using before)]

/-- Sorted postings are sought as they are scanned. -/
theorem Sorted.seekDocument_eq_scan (sorted : postings.Sorted)
    (target : DocId) :
    (Postings.seekDocument target : Attempt ReadFault _ _).run postings =
      scan target postings := by
  -- Along the scan: a document that is passed leaves sorted postings, and from
  -- there a seek goes to where it would have gone at once.
  fun_induction scan target postings with
  | case1 postings doc reached moved before _ ih =>
      obtain ⟨⟨posted, next, rfl⟩, rfl⟩ := nextDocument_eq_some_iff.mp moved
      rw [← ih (sorted.moveTo _), Attempt.run, Attempt.run, seekDocument_eq,
        seekDocument_eq, sorted.moveTo_placeFrom_of_lt next before]
  | case2 postings doc reached moved notBefore =>
      obtain ⟨⟨posted, next, rfl⟩, _⟩ := nextDocument_eq_some_iff.mp moved
      rw [Attempt.run, seekDocument_eq,
        sorted.moveTo_placeFrom_of_not_lt next notBefore, ← moved, Attempt.run,
        nextDocument_eq]
  | case3 postings reached moved =>
      obtain ⟨passed, _⟩ := nextDocument_eq_none_iff.mp moved
      rw [Attempt.run, seekDocument_eq,
        sorted.moveTo_placeFrom_of_passed passed, ← moved, Attempt.run,
        nextDocument_eq]
  | case4 postings fault reached moved =>
      rw [Attempt.run, nextDocument_eq] at moved
      cases moved

/-! ## Requests -/

/-- What postings are asked to do. -/
inductive Request
  | nextDocument
  | seekDocument (target : DocId)
  | nextPosition
  | close

/-- The postings that a request leaves, whether it is answered or fails. -/
def serve (postings : StoredPostings) : Request → StoredPostings
  | .nextDocument =>
      ((Postings.nextDocument : Attempt ReadFault _ _).run postings).2
  | .seekDocument target =>
      ((Postings.seekDocument target : Attempt ReadFault _ _).run postings).2
  | .nextPosition =>
      ((Postings.nextPosition : Attempt ReadFault _ _).run postings).2
  | .close => Postings.close postings

/-- The postings that requests leave, made in their order. -/
def after (requests : List Request) (postings : StoredPostings) :
    StoredPostings := requests.foldl serve postings

/-- Only closing touches the documents, and it drops them all. -/
theorem documents_serve (postings : StoredPostings) (request : Request) :
    (postings.serve request).documents = postings.documents ∨
      (postings.serve request).documents = #[] := by
  cases request with
  | nextDocument => exact .inl rfl
  | seekDocument target => exact .inl rfl
  | nextPosition =>
      refine .inl ?_
      simp only [serve, Attempt.run, Postings.nextPosition, nextPosition]
      split <;> rfl
  | close => exact .inr rfl

theorem Sorted.serve (sorted : postings.Sorted) (request : Request) :
    (postings.serve request).Sorted := by
  rcases postings.documents_serve request with kept | dropped
  · exact ⟨kept ▸ sorted.documents, kept ▸ sorted.positions⟩
  · exact ⟨by simp [dropped], by simp [dropped]⟩

theorem Sorted.after (sorted : postings.Sorted) (requests : List Request) :
    (postings.after requests).Sorted := by
  induction requests generalizing postings with
  | nil => exact sorted
  | cons request requests ih => exact ih (sorted.serve request)

/--
Whatever was asked of postings before, to seek a document answers what a scan
for it answers and leaves the postings that the scan leaves: the frequency, the
payload and the answers to all later requests are the same.
-/
theorem seeks_as_scanned (occurrences : List Occurrence)
    (requests : List Request) (target : DocId) :
    ∃ doc? reached,
      (Postings.seekDocument target : Attempt ReadFault _ _).run
          (after requests (ofOccurrences occurrences)) = (.ok doc?, reached) ∧
        scan target (after requests (ofOccurrences occurrences)) =
          (.ok doc?, reached) := by
  have sorted := (sorted_ofOccurrences occurrences).after requests
  exact ⟨_, _, seekDocument_eq _ target,
    (sorted.seekDocument_eq_scan target).symm⟩

/-- A seek for a document that lies behind moves on by one document. -/
example : ((Postings.seekDocument 10 : Attempt ReadFault _ _).run
    (after [.seekDocument 15] (ofOccurrences
      [⟨0, 0, none⟩, ⟨10, 0, none⟩, ⟨20, 0, none⟩, ⟨30, 0, none⟩]))).1 =
      .ok (some 30) := by
  decide +kernel

end StoredPostings

end PositionalSearch
