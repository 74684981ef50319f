import Mathlib.Data.List.Dedup
import Mathlib.Data.List.Perm.Subperm
import PositionalSearch.Proofs.Follow.Terms

/-!
# What a term has stored

Of the occurrences given for a place a term keeps the last one.  As long as no
document has more positions than can be announced, a term yields exactly what
it keeps, so it can be read off a listing as well.
-/

namespace PositionalSearch

namespace Occurrence

/-! ## The latest occurrences -/

/-- Filing an occurrence replaces the one in its place. -/
theorem place_ne_of_mem_file {added found : Occurrence}
    {filed : List Occurrence} (sorted : filed.Pairwise (·.place < ·.place))
    (member : found ∈ file added filed) :
    found = added ∨ found ∈ filed ∧ added.place ≠ found.place := by
  induction filed with
  | nil => exact .inl (List.mem_singleton.mp member)
  | cons first rest ih =>
      obtain ⟨before, tail⟩ := List.pairwise_cons.mp sorted
      unfold file at member
      split at member
      · rename_i early
        rw [before_iff_place_lt] at early
        rcases List.mem_cons.mp member with same | old
        · exact .inl same
        · refine .inr ⟨old, ?_⟩
          rcases List.mem_cons.mp old with rfl | later
          · exact Nat.ne_of_lt early
          · exact Nat.ne_of_lt (Nat.lt_trans early (before found later))
      · rename_i notEarly
        split at member
        · rename_i late
          rw [before_iff_place_lt] at late
          rcases List.mem_cons.mp member with rfl | further
          · exact .inr ⟨List.mem_cons_self, Nat.ne_of_gt late⟩
          · rcases ih tail further with same | ⟨old, apart⟩
            · exact .inl same
            · exact .inr ⟨List.mem_cons_of_mem _ old, apart⟩
        · rename_i notLate
          rw [before_iff_place_lt] at notEarly notLate
          rcases List.mem_cons.mp member with same | later
          · exact .inl same
          · have after := before found later
            exact .inr ⟨List.mem_cons_of_mem _ later, by omega⟩

/-- Occurrences of one span are in one document, at one position. -/
theorem span_eq_iff {first second : Occurrence} :
    first.span = second.span ↔
      first.doc = second.doc ∧ first.position = second.position := by
  constructor
  · intro same
    exact ⟨by simpa [span] using congrArg Span.doc same,
      by simpa [span] using congrArg Span.start same⟩
  · rintro ⟨sameDoc, samePosition⟩
    rw [span, span, sameDoc, samePosition]

/-- Two occurrences of one span are in one place. -/
theorem place_eq_of_span_eq {first second : Occurrence}
    (same : first.span = second.span) : first.place = second.place := by
  obtain ⟨sameDoc, samePosition⟩ := span_eq_iff.mp same
  rw [place, place, sameDoc, samePosition]

/-- An earlier place is that of an earlier span. -/
theorem span_lt_of_place_lt {first second : Occurrence}
    (before : first.place < second.place) : first.span < second.span := by
  have firstBound := first.position.toNat_lt
  have secondBound := second.position.toNat_lt
  by_cases sameDoc : first.doc = second.doc
  · rw [span, span, sameDoc]
    apply Span.ofToken_lt_ofToken
    simp only [place, sameDoc] at before
    rw [UInt32.lt_iff_toNat_lt]
    omega
  · apply Span.lt_of_doc_lt
    simp only [span, Span.doc_ofToken]
    have notAfter := doc_le_of_place_lt before
    rw [← UInt64.toNat_inj] at sameDoc
    rw [UInt64.le_iff_toNat_le] at notAfter
    rw [UInt64.lt_iff_toNat_lt]
    omega

/-- No occurrence in the same place was given after the one that is kept. -/
def Latest (occurrences : List Occurrence) (found : Occurrence) : Prop :=
  ∃ before after, occurrences = before ++ found :: after ∧
    ∀ later ∈ after,
      ¬ (later.doc = found.doc ∧ later.position = found.position)

/-- The latest occurrence of a span is the only one. -/
theorem Latest.unique {occurrences : List Occurrence}
    {first second : Occurrence} (isFirst : Latest occurrences first)
    (isSecond : Latest occurrences second) (same : first.span = second.span) :
    first = second := by
  obtain ⟨before, after, rfl, last⟩ := isFirst
  obtain ⟨before', after', split, last'⟩ := isSecond
  -- The one that is given first would be followed by the other one.
  rcases List.append_eq_append_iff.mp split with
    ⟨between, _, reached⟩ | ⟨between, _, reached⟩
  · cases between with
    | nil => exact (List.cons.inj reached).1
    | cons _ between =>
        obtain ⟨_, rfl⟩ := List.cons.inj reached
        exact absurd (span_eq_iff.mp same.symm) (last second (by simp))
  · cases between with
    | nil => exact (List.cons.inj reached).1.symm
    | cons _ between =>
        obtain ⟨_, rfl⟩ := List.cons.inj reached
        exact absurd (span_eq_iff.mp same) (last' first (by simp))

theorem latest_of_mem_collate {occurrences : List Occurrence}
    {found : Occurrence} (member : found ∈ collate occurrences) :
    Latest occurrences found := by
  induction occurrences using List.reverseRecOn with
  | nil => exact absurd member List.not_mem_nil
  | append_singleton before last ih =>
      rw [collate, List.foldl_append] at member
      rcases place_ne_of_mem_file (pairwise_collate before) member with
        rfl | ⟨old, apart⟩
      · exact ⟨before, [], rfl, fun _ later =>
          absurd later List.not_mem_nil⟩
      · obtain ⟨earlier, after, rfl, latest⟩ := ih old
        refine ⟨earlier, after ++ [last], by simp, fun later isLater => ?_⟩
        rcases List.mem_append.mp isLater with inside | isLast
        · exact latest later inside
        · rw [List.mem_singleton.mp isLast]
          exact fun same => apart (place_eq_of_span_eq (span_eq_iff.mpr same))

/-- What is kept are the latest occurrences. -/
theorem mem_collate_iff_latest {occurrences : List Occurrence}
    {found : Occurrence} :
    found ∈ collate occurrences ↔ Latest occurrences found := by
  constructor
  · exact latest_of_mem_collate
  · intro latest
    have given : found ∈ occurrences := by
      obtain ⟨_, _, rfl, _⟩ := latest
      simp
    obtain ⟨kept, isKept, samePlace⟩ := exists_mem_collate given
    rw [← (latest_of_mem_collate isKept).unique latest
      (span_eq_of_place_eq samePlace)]
    exact isKept

/-- Each span that occurs has a latest occurrence. -/
theorem exists_latest {occurrences : List Occurrence} {given : Occurrence}
    (member : given ∈ occurrences) :
    ∃ found, Latest occurrences found ∧ found.span = given.span := by
  obtain ⟨found, isKept, samePlace⟩ := exists_mem_collate member
  exact ⟨found, latest_of_mem_collate isKept, span_eq_of_place_eq samePlace⟩

theorem Latest.mem {occurrences : List Occurrence} {found : Occurrence}
    (latest : Latest occurrences found) : found ∈ occurrences :=
  mem_of_mem_collate (mem_collate_iff_latest.mpr latest)

/-! ## What is yielded of them -/

/-- The visit of a token with its payload. -/
def visit (occurrence : Occurrence) : Visit :=
  ⟨occurrence.span, occurrence.payload?.toList⟩

/-- What is gathered under a document is kept. -/
theorem mem_collate_of_mem_gather {occurrences : List Occurrence}
    {group : DocId × List (Position × Option Payload)}
    (isGroup : group ∈ PostedDocument.gather (collate occurrences))
    {item : Position × Option Payload} (isItem : item ∈ group.2) :
    ⟨group.1, item.1, item.2⟩ ∈ collate occurrences := by
  rw [← PostedDocument.flatMap_occurrences_gather (collate occurrences)]
  exact List.mem_flatMap.mpr ⟨group, isGroup, List.mem_map_of_mem isItem⟩

/-- A term yields its latest occurrences with their payloads. -/
theorem exists_latest_of_mem_visits {occurrences : List Occurrence}
    {visit : Visit} (member : visit ∈ visits occurrences) :
    ∃ found, Latest occurrences found ∧ visit = found.visit := by
  obtain ⟨posted, isPosted, inside⟩ := List.mem_flatMap.mp member
  simp only [StoredPostings.ofOccurrences, PostedDocument.ofSorted,
    List.mem_map] at isPosted
  obtain ⟨group, isGroup, rfl⟩ := isPosted
  obtain ⟨item, isItem, rfl⟩ := List.mem_map.mp inside
  exact ⟨⟨group.1, item.1, item.2⟩, latest_of_mem_collate
    (mem_collate_of_mem_gather isGroup (List.mem_of_mem_take isItem)), rfl⟩

/-- No document has more positions than can be announced. -/
def Few (occurrences : List Occurrence) : Prop :=
  ∀ doc : DocId, ((occurrences.filter (·.doc = doc)).map
    Occurrence.position).dedup.length ≤ StoredPostings.frequencyLimit

theorem few_of_length_le {occurrences : List Occurrence}
    (short : occurrences.length ≤ StoredPostings.frequencyLimit) :
    Few occurrences := by
  intro doc
  calc _ ≤ ((occurrences.filter (·.doc = doc)).map
        Occurrence.position).length := (List.dedup_sublist _).length_le
    _ = (occurrences.filter (·.doc = doc)).length := List.length_map _
    _ ≤ occurrences.length := List.length_filter_le _ _
    _ ≤ StoredPostings.frequencyLimit := short

/-- All positions of a document are announced if they are few. -/
theorem Few.length_le {occurrences : List Occurrence} (few : Few occurrences)
    {group : DocId × List (Position × Option Payload)}
    (isGroup : group ∈ PostedDocument.gather (collate occurrences)) :
    group.2.length ≤ StoredPostings.frequencyLimit := by
  have once : (group.2.map Prod.fst).Nodup :=
    List.pairwise_map.mpr
      ((PostedDocument.pairwise_position_gather (pairwise_collate _)
        isGroup).imp UInt32.ne_of_lt)
  have known : group.2.map Prod.fst ⊆ ((occurrences.filter
      (·.doc = group.1)).map Occurrence.position).dedup := by
    intro position isPosition
    obtain ⟨item, isItem, rfl⟩ := List.mem_map.mp isPosition
    have given := mem_of_mem_collate (mem_collate_of_mem_gather isGroup isItem)
    exact List.mem_dedup.mpr (List.mem_map.mpr ⟨_,
      List.mem_filter.mpr ⟨given, by simp⟩, rfl⟩)
  calc group.2.length = (group.2.map Prod.fst).length :=
        (List.length_map _).symm
    _ ≤ _ := (once.subperm known).length_le
    _ ≤ StoredPostings.frequencyLimit := few group.1

/-- A term yields all that it keeps if the positions are few. -/
theorem Few.visits_eq {occurrences : List Occurrence}
    (few : Few occurrences) :
    visits occurrences = (collate occurrences).map visit := by
  have each : ∀ group ∈ PostedDocument.gather (collate occurrences),
      PostedDocument.visits ⟨group.1, group.2.toArray⟩ =
        (PostedDocument.occurrences group).map visit := by
    intro group isGroup
    rw [PostedDocument.visits, List.take_of_length_le
      (by simpa using few.length_le isGroup), PostedDocument.occurrences,
      List.map_map]
    rfl
  calc visits occurrences
      = (PostedDocument.gather (collate occurrences)).flatMap fun group =>
          PostedDocument.visits ⟨group.1, group.2.toArray⟩ := by
        simp [visits, StoredPostings.ofOccurrences, PostedDocument.ofSorted,
          List.flatMap_map]
    _ = (PostedDocument.gather (collate occurrences)).flatMap fun group =>
          (PostedDocument.occurrences group).map visit :=
        List.flatMap_congr each
    _ = ((PostedDocument.gather (collate occurrences)).flatMap
          PostedDocument.occurrences).map visit := by
        rw [List.map_flatMap]
    _ = (collate occurrences).map visit := by
        rw [PostedDocument.flatMap_occurrences_gather]

/-- If they are few, each span that occurs is yielded. -/
theorem Few.mem_map_span_visits {occurrences : List Occurrence}
    (few : Few occurrences) {span : Span} :
    span ∈ (visits occurrences).map Visit.span ↔
      ∃ given ∈ occurrences, given.span = span := by
  rw [few.visits_eq, List.map_map, List.mem_map]
  constructor
  · rintro ⟨found, isKept, rfl⟩
    exact ⟨found, mem_of_mem_collate isKept, rfl⟩
  · rintro ⟨given, member, rfl⟩
    obtain ⟨found, latest, same⟩ := exists_latest member
    exact ⟨found, mem_collate_iff_latest.mpr latest, same⟩

/-! ## The same as a listing -/

/-- The entry of a token with its payload. -/
def entry (occurrence : Occurrence) : Entry :=
  ⟨occurrence.span, occurrence.payload?⟩

/-- What a term keeps, as a listing. -/
def listing (occurrences : List Occurrence) : Listing where
  entries := ((collate occurrences).map entry).toArray
  ascending := by
    rw [List.toList_toArray, ascending_iff_pairwise, List.map_map,
      List.pairwise_map]
    exact (pairwise_collate occurrences).imp span_lt_of_place_lt

/-- An entry is that of a token if it has its bounds and its payload. -/
theorem entry_eq_iff {occurrence : Occurrence} {found : Entry} :
    occurrence.entry = found ↔
      found.span.doc = occurrence.doc ∧
        found.span.start = occurrence.position ∧
        found.span.stop.toNat =
          min (occurrence.position.toNat + 1) (2 ^ 32 - 1) ∧
        found.payload? = occurrence.payload? := by
  have stops := Span.toNat_stop_ofToken occurrence.doc occurrence.position
  constructor
  · rintro rfl
    exact ⟨Span.doc_ofToken _ _, Span.start_ofToken _ _, stops, rfl⟩
  · obtain ⟨span, payload?⟩ := found
    rintro ⟨sameDoc, sameStart, isStop, rfl⟩
    refine congrArg (Entry.mk · occurrence.payload?) (Span.ext ?_ ?_ ?_)
    · exact (Span.doc_ofToken _ _).trans sameDoc.symm
    · exact (Span.start_ofToken _ _).trans sameStart.symm
    · exact UInt32.toNat_inj.mp (stops.trans isStop.symm)

/-- The listing has the latest occurrence of each span. -/
theorem mem_listing {occurrences : List Occurrence} {found : Entry} :
    found ∈ (listing occurrences).entries ↔
      ∃ latest, Latest occurrences latest ∧ latest.entry = found := by
  simp only [listing, List.mem_toArray, List.mem_map, mem_collate_iff_latest]

/-- The listing yields what the term does if the positions are few. -/
theorem Few.visits_listing {occurrences : List Occurrence}
    (few : Few occurrences) :
    (listing occurrences).visits = visits occurrences := by
  rw [few.visits_eq, Listing.visits, Listing.visitsFrom, List.drop_zero,
    listing, List.toList_toArray, List.map_map]
  rfl

end Occurrence

end PositionalSearch
