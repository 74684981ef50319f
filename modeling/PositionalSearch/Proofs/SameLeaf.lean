import PositionalSearch.Proofs.Follow.Query
import PositionalSearch.Proofs.Occurrences
import PositionalSearch.Proofs.Sessions

/-!
# Leaves that cannot be told apart

The tokens of a term can be written down as a listing, the latest occurrence
of each.  Then the term, a cursor over the listing and a probe over it that is
not armed are the same to their caller, although they read in three ways.
-/

namespace PositionalSearch

namespace Query

/-- Queries without faults answer alike if they yield and estimate the same. -/
theorem answers_eq {first second : Query} (ofFirst : first.FaultFree)
    (ofSecond : second.FaultFree) (sameVisits : first.visits = second.visits)
    (sameEstimate : Cursor.estimate first.openTree =
      Cursor.estimate second.openTree)
    {steps : List Step}
    (shows : ∀ step ∈ steps, step.isPlain ∨ step = .estimate) :
    ((Session.ofQuery first).performAll steps).1 =
      ((Session.ofQuery second).performAll steps).1 := by
  have follows := follows_openAt ofFirst first.height (Nat.le_refl _)
  have followsToo := follows_openAt ofSecond second.height (Nat.le_refl _)
  rw [← sameVisits] at followsToo
  apply Session.performAll_alike Tree.alike_followOne_estimate
    ⟨⟨_, follows, followsToo⟩, sameEstimate⟩ [] []
  exact fun step member => (shows step member).imp_right fun asks =>
    ⟨asks, fun _ _ related => related.2⟩

/--
A term, the listing of its latest occurrences and a probe over this listing
answer the same moves, looks and closings alike, if no document of the term has
more positions than can be announced.
-/
theorem leaves_answer_alike {occurrences : List Occurrence}
    (few : Occurrence.Few occurrences) (name : String) (steps : List Step)
    (shows : ∀ step ∈ steps, step.isPlain ∨ step = .estimate) :
    (∀ entry, entry ∈ (Occurrence.listing occurrences).entries ↔
      ∃ found, Occurrence.Latest occurrences found ∧
        entry.span.doc = found.doc ∧ entry.span.start = found.position ∧
        entry.span.stop.toNat = min (found.position.toNat + 1) (2 ^ 32 - 1) ∧
        entry.payload? = found.payload?) ∧
    let answers := fun query => ((Session.ofQuery query).performAll steps).1
    answers (.term occurrences) =
        answers (.listed (Occurrence.listing occurrences)) ∧
      answers (.term occurrences) =
        answers (.probe name (Occurrence.listing occurrences) none) := by
  have size : (Occurrence.listing occurrences).size =
      (StoredPostings.ofOccurrences occurrences).total := by
    simp [Listing.size, Occurrence.listing, StoredPostings.ofOccurrences]
  have sameVisits := few.visits_listing
  refine ⟨fun entry => ?_, ?_, ?_⟩
  · simp only [Occurrence.mem_listing, Occurrence.entry_eq_iff]
  · exact answers_eq (.term _) (.listed _) sameVisits.symm size.symm shows
  · exact answers_eq (.term _) (.probe _ _) sameVisits.symm size.symm shows

/--
Tokens in no order: one twice, with a payload only at first, and one at the
last position there is.
-/
def scattered : List Occurrence :=
  [⟨4, 7, some ⟨#[1]⟩⟩, ⟨2, 4294967295, some ⟨#[2]⟩⟩, ⟨2, 3, none⟩,
    ⟨4, 7, none⟩]

/-- Steps into the current document, past it, past the end and after it. -/
def tour : List Step :=
  [.next, .payloads, .seek 2, .payloads, .seek 3, .payloads, .estimate,
    .seek 9, .next, .close, .next, .estimate]

/--
The payload given first is forgotten, and the token at the last position has an
empty span, whichever leaf is asked.
-/
theorem scattered_answer_alike :
    Occurrence.Few scattered ∧
      (∀ step ∈ tour, step.isPlain ∨ step = .estimate) ∧
      (∃ found, Occurrence.Latest scattered found ∧ found.doc = 4 ∧
        found.position = 7 ∧ found.payload? = none) ∧
      (∃ found, Occurrence.Latest scattered found ∧ found.doc = 2 ∧
        min (found.position.toNat + 1) (2 ^ 32 - 1) = 2 ^ 32 - 1 ∧
        found.payload? = some ⟨#[2]⟩) ∧
      ((Session.ofQuery (.term scattered)).performAll tour).1 =
        ((Session.ofQuery (.probe "mock" (Occurrence.listing scattered)
          none)).performAll tour).1 := by
  have few : Occurrence.Few scattered :=
    Occurrence.few_of_length_le (by decide)
  have shows : ∀ step ∈ tour, step.isPlain ∨ step = .estimate := by
    simp [tour, Step.isPlain]
  obtain ⟨isEntry, _, sameProbe⟩ := leaves_answer_alike few "mock" tour shows
  have repeated : (⟨.ofToken 4 7, none⟩ : Entry) ∈
      (Occurrence.listing scattered).entries :=
    Array.mem_toList_iff.mp (by decide)
  have last : (⟨.ofToken 2 4294967295, some ⟨#[2]⟩⟩ : Entry) ∈
      (Occurrence.listing scattered).entries :=
    Array.mem_toList_iff.mp (by decide)
  obtain ⟨found, latest, doc, position, _, payload⟩ := (isEntry _).mp repeated
  obtain ⟨final, isFinal, finalDoc, _, stop, finalPayload⟩ :=
    (isEntry _).mp last
  exact ⟨few, shows,
    ⟨found, latest, doc.symm, position.symm, payload.symm⟩,
    ⟨final, isFinal, finalDoc.symm, stop.symm, finalPayload.symm⟩, sameProbe⟩

end Query

end PositionalSearch
