import PositionalSearch.Proofs.Follow.Query
import PositionalSearch.Proofs.Sessions

/-!
# Costs are advice

The cost that a script announces decides in which order a proximity node
aligns its children, and nothing else.  Whatever the order, the node follows
the plain cursor over its matches, so queries that differ only in their costs
give the same answers.
-/

namespace PositionalSearch

open Cursor (Follows)

/-! ## Postings with other frequencies -/

namespace Script

/-- The document with as many of its positions as the script announces. -/
def curtail (script : Script) (posted : PostedDocument) : PostedDocument :=
  match script.frequencies.lookup posted.doc with
  | some announced =>
      ⟨posted.doc, (posted.positions.toList.take announced.toNat).toArray⟩
  | none => posted

/-- The script announces no position that the document does not have. -/
def Allows (script : Script) (posted : PostedDocument) : Prop :=
  ∀ announced ∈ script.frequencies.lookup posted.doc,
    announced.toNat ≤ posted.positions.size

variable {script : Script} {posted : PostedDocument}

/-- A script that announces no frequencies leaves all positions. -/
theorem allows_of_nil (frequencies : script.frequencies = []) :
    script.Allows posted := by
  rintro announced isAnnounced
  rw [frequencies] at isAnnounced
  cases isAnnounced

@[simp] theorem doc_curtail : (script.curtail posted).doc = posted.doc := by
  unfold curtail
  split <;> rfl

/-- The positions that are left are the first ones. -/
theorem getElem_curtail {taken : Nat}
    (inside : taken < (script.curtail posted).positions.size) :
    ∃ insideAll : taken < posted.positions.size,
      (script.curtail posted).positions[taken] =
        posted.positions[taken] := by
  unfold curtail at inside ⊢
  split at inside
  · simp only [List.size_toArray, List.length_take, Array.length_toList]
      at inside
    exact ⟨by omega, by simp⟩
  · exact ⟨inside, rfl⟩

/-- What is left in a document is in order if all of it was. -/
theorem visits_curtail_sublist :
    ((script.curtail posted).visits).Sublist posted.visits := by
  unfold curtail
  split
  · refine List.Sublist.map _ ?_
    simp only [List.take_take]
    exact List.take_sublist_take_left (Nat.min_le_left _ _)
  · exact List.Sublist.refl _

end Script

namespace ScriptedPostings

/-- Where stored postings stand whose documents the script curtails. -/
def Recounts (script : Script) (postings : ScriptedPostings)
    (current? : Option PostedDocument) (taken : Nat)
    (rest : List PostedDocument) : Prop :=
  ∃ (original? : Option PostedDocument) (later : List PostedDocument),
    postings.script = script ∧
    postings.recorded? = original?.map PostedDocument.doc ∧
    postings.stored.Stands original? taken later ∧
    (∀ posted ∈ original?.toList ++ later, script.Allows posted) ∧
    current? = original?.map script.curtail ∧
    rest = later.map script.curtail

/-- Without faults a call does what it does on the stored postings. -/
theorem meets_perform_faultless {α : Type} {call : PostingsCall}
    {plain : Attempt ReadFault StoredPostings α}
    {postings : ScriptedPostings} (faults : postings.script.faults = [])
    {answered : α → StoredPostings → Prop}
    (meets : plain.Meets postings.stored answered fun _ _ => False) :
    (perform call plain).Meets postings
      (fun value reached => reached.script = postings.script ∧
        reached.recorded? = postings.recorded? ∧
          answered value reached.stored)
      (fun _ _ => False) := by
  obtain ⟨value, stored, went, holds⟩ := meets.exists_ok
  have unplanned : postings.script.fault? call
      ((postings.calls.add call).count call) = none := by
    simp [Script.fault?, faults]
  simp only [Attempt.Meets, Attempt.run, perform, unplanned, went]
  exact ⟨trivial, trivial, holds⟩

/-- The first of some documents and the others are all of them. -/
theorem toList_head?_append_tail (documents : List PostedDocument) :
    documents.head?.toList ++ documents.tail = documents := by
  cases documents <;> rfl

/-- The documents of a script without faults are recited as it curtails them. -/
theorem recites_recounts {script : Script} (faults : script.faults = []) :
    Postings.Recites False (Recounts script) where
  ascending := by
    rintro postings current? taken rest
      ⟨original?, later, rfl, _, stands, _, rfl, rfl⟩
    have ascending := StoredPostings.recites.ascending stands
    have same : (original?.map postings.script.curtail).toList ++
        later.map postings.script.curtail =
          (original?.toList ++ later).map postings.script.curtail := by
      cases original? <;> simp
    rw [same, List.pairwise_map]
    simpa using ascending
  nextDocument := by
    rintro postings current? taken rest
      ⟨original?, later, rfl, _, stands, allows, rfl, rfl⟩
    simp only [Postings.nextDocument, performMove, Attempt.meets_bind,
      Attempt.meets_update, Attempt.meets_pure]
    apply (meets_perform_faultless faults
      ((StoredPostings.recites.nextDocument stands).imp_failure
        fun _ _ failed => failed.1)).mono
    · rintro doc? reached ⟨script, _, rfl, moved⟩
      refine ⟨by cases later <;> simp, later.head?, later.tail, script, rfl,
        moved, ?_, by simp, by simp⟩
      rw [toList_head?_append_tail]
      exact fun posted member => allows posted
        (List.mem_append_right _ member)
    · exact fun _ _ impossible => impossible.elim
  seekDocument := by
    rintro postings current? taken rest
      ⟨original?, later, rfl, _, stands, allows, rfl, rfl⟩ target
    have passed : (later.map postings.script.curtail).dropWhile
        (·.doc < target) =
          (later.dropWhile (·.doc < target)).map postings.script.curtail := by
      rw [List.dropWhile_map]
      congr 2
      funext posted
      simp
    rw [passed]
    simp only [Postings.seekDocument, performMove, Attempt.meets_bind,
      Attempt.meets_update, Attempt.meets_pure]
    apply (meets_perform_faultless faults
      ((StoredPostings.recites.seekDocument stands target).imp_failure
        fun _ _ failed => failed.1)).mono
    · rintro doc? reached ⟨script, _, rfl, moved⟩
      refine ⟨by cases later.dropWhile (·.doc < target) <;> simp,
        (later.dropWhile (·.doc < target)).head?,
        (later.dropWhile (·.doc < target)).tail, script, rfl, moved, ?_,
        by simp, by simp⟩
      rw [toList_head?_append_tail]
      exact fun posted member => allows posted (List.mem_append_right _
        ((List.dropWhile_suffix _).subset member))
    · exact fun _ _ impossible => impossible.elim
  nextPosition := by
    rintro postings posted taken rest
      ⟨original?, later, rfl, recorded, stands, allows, same, rfl⟩ inside
    obtain ⟨original, rfl, rfl⟩ := Option.map_eq_some_iff.mp same.symm
    obtain ⟨insideAll, samePosition⟩ := Script.getElem_curtail inside
    rw [samePosition]
    apply (meets_perform_faultless faults
      ((StoredPostings.recites.nextPosition stands insideAll).imp_failure
        fun _ _ failed => failed.1)).mono
    · rintro position reached ⟨script, stays, rfl, payload, moved⟩
      exact ⟨rfl, payload, some original, later, script,
        stays.trans recorded, moved, allows, rfl, rfl⟩
    · exact fun _ _ impossible => impossible.elim
  frequency := by
    rintro postings posted taken rest
      ⟨original?, later, rfl, recorded, stands, allows, same, rfl⟩
    obtain ⟨original, rfl, rfl⟩ := Option.map_eq_some_iff.mp same.symm
    change ScriptedPostings.frequency postings = _
    rw [ScriptedPostings.frequency, recorded]
    simp only [Option.map_some, Option.bind_some, Script.curtail]
    cases isAnnounced : postings.script.frequencies.lookup original.doc with
    | none => exact StoredPostings.recites.frequency stands
    | some announced =>
        have within := allows original (by simp) announced isAnnounced
        have bound := announced.toNat_lt
        simp only [PostedDocument.announced, List.size_toArray,
          List.length_take, Array.length_toList,
          StoredPostings.frequencyLimit, UInt32.size]
        omega

end ScriptedPostings

/-! ## What queries recite -/

namespace Query

/-- However much room it has, the opened query yields the visits in order. -/
def Recites (query : Query) (visits : Visits) : Prop :=
  visits.Ordered ∧ ∀ (levels : Nat) (fits : query.height ≤ levels),
    Follows (openAt levels query fits) (.fresh visits)

/-- It is enough to have room for one level. -/
theorem recites_of_succ {query : Query} {visits : Visits}
    (ordered : visits.Ordered)
    (follows : ∀ (levels : Nat) (fits : query.height ≤ levels + 1),
      Follows (openAt (levels + 1) query fits) (.fresh visits)) :
    query.Recites visits := by
  refine ⟨ordered, fun levels fits => ?_⟩
  cases levels with
  | zero => exact absurd query.height_pos (Nat.not_lt.mpr fits)
  | succ levels => exact follows levels fits

/-- The visits of a scripted term, its documents curtailed. -/
def curtailed (script : Script) (occurrences : List Occurrence) : Visits :=
  ((StoredPostings.ofOccurrences occurrences).documents.toList.map
    script.curtail).flatMap PostedDocument.visits

theorem ordered_curtailed (script : Script) (occurrences : List Occurrence) :
    (curtailed script occurrences).Ordered := by
  refine List.Pairwise.sublist ?_ (Occurrence.ordered_visits occurrences)
  rw [curtailed, Occurrence.visits, List.flatMap_map]
  induction (StoredPostings.ofOccurrences occurrences).documents.toList with
  | nil => exact List.Sublist.refl _
  | cons posted rest ih =>
      simp only [List.flatMap_cons]
      exact Script.visits_curtail_sublist.append ih

theorem recites_scripted (name : String) {script : Script}
    {occurrences : List Occurrence} (faults : script.faults = [])
    (allows : ∀ posted ∈
      (StoredPostings.ofOccurrences occurrences).documents.toList,
        script.Allows posted) :
    (scripted name script occurrences).Recites
      (curtailed script occurrences) := by
  have ordered := ordered_curtailed script occurrences
  refine recites_of_succ ordered fun levels _ => ?_
  refine (Level.carries_scripted name).follows
    (Term.follows_ofPostings (ScriptedPostings.recites_recounts faults)
      ⟨none, _, rfl, rfl, StoredPostings.stands_ofOccurrences occurrences, ?_,
        rfl, rfl⟩ ordered)
  simpa using allows

/-- A query without faults recites what it yields. -/
theorem FaultFree.recites {query : Query} (faultFree : query.FaultFree) :
    query.Recites query.visits :=
  ⟨ordered_visits query, follows_openAt faultFree⟩

section

variable {children : List Query} {all : Fin children.length → Visits}
  (below : ∀ child, (children.get child).Recites (all child))
include below

/-- Opened children follow plain cursors over what they recite. -/
theorem follows_recited {levels : Nat}
    (fits : ∀ child ∈ children, child.height ≤ levels)
    (place : Fin (children.pmap (openAt levels) fits).toArray.size) :
    Follows (⟨(children.pmap (openAt levels) fits).toArray, rfl⟩ :
        Vector (Tree levels) _)[place]
      (.fresh (all (place.cast (by simp)))) ∧
    (all (place.cast (by simp))).Ordered := by
  rw [getElem_pmap_openAt]
  exact ⟨(below _).2 _ _, (below _).1⟩

theorem recites_proximity (arrangement : Arrangement) (slop : Nat)
    (collects : Bool) :
    (proximity arrangement slop collects children).Recites
      (Nearness.allMatches ⟨arrangement, slop, collects⟩ all) := by
  refine recites_of_succ
    (Nearness.ordered_allMatches fun child => (below child).1) ?_
  intro levels fits
  have fitting : ∀ child ∈ children, child.height ≤ levels :=
    fun child member => Nat.le_trans (height_le_greatestHeight member)
      (Nat.le_of_succ_le_succ fits)
  have opened := Proximity.follows_ofCursors (follows_recited below fitting)
    ⟨arrangement, slop, collects⟩
  rw [Nearness.allMatches_cast (by simp)] at opened
  exact Level.carries_proximity.follows opened

theorem recites_union :
    (union children).Recites (Visits.mergeAll (List.ofFn all)) := by
  have ordered : ∀ list ∈ List.ofFn all, list.Ordered := by
    intro list member
    obtain ⟨child, rfl⟩ := List.mem_ofFn.mp member
    exact (below child).1
  refine recites_of_succ (Visits.ordered_mergeAll ordered) ?_
  intro levels fits
  have fitting : ∀ child ∈ children, child.height ≤ levels :=
    fun child member => Nat.le_trans (height_le_greatestHeight member)
      (Nat.le_of_succ_le_succ fits)
  have opened := Union.follows_ofCursors (follows_recited below fitting)
  have same : List.ofFn (fun place : Fin
      (children.pmap (openAt levels) fitting).toArray.size =>
        all (place.cast (by simp))) = List.ofFn all :=
    List.ext_getElem (by simp) fun place _ _ => by simp
  rw [same] at opened
  exact Level.carries_union.follows opened

end

theorem Recites.without {included excluded : Query} {all pending : Visits}
    (ofIncluded : included.Recites all) (ofExcluded : excluded.Recites pending)
    (clash : Clash) :
    (Query.without clash included excluded).Recites
      (clash.spare pending all) :=
  recites_of_succ (ofIncluded.1.filter _) fun _ _ =>
    Level.carries_without.follows (Without.follows_ofCursors
      (ofIncluded.2 _ _) (ofExcluded.2 _ _) ofIncluded.1 ofExcluded.1)

theorem Recites.region {child : Query} {all : Visits}
    (recites : child.Recites all) (low high : Position) (anchor : Anchor) :
    (Query.region low high anchor child).Recites
      (Region.holding low high anchor all) :=
  recites_of_succ (recites.1.filter _) fun _ _ =>
    Level.carries_region.follows
      (Region.follows_ofCursor (recites.2 _ _) recites.1)

theorem Recites.metered {child : Query} {all : Visits}
    (recites : child.Recites all) (name : String) :
    (Query.metered name child).Recites all :=
  recites_of_succ recites.1 fun _ _ =>
    Level.carries_metered.follows (Metered.follows_ofCursor (recites.2 _ _))

/-! ## Queries that differ in their costs -/

/--
No read of the queries fails, and they differ in nothing but the costs that
their scripts announce.
-/
inductive CostsApart : Query → Query → Prop
  | nothing : CostsApart .nothing .nothing
  | listed (listing : Listing) : CostsApart (.listed listing) (.listed listing)
  | term (occurrences : List Occurrence) :
      CostsApart (.term occurrences) (.term occurrences)
  | scripted (name : String) {occurrences : List Occurrence}
      {frequencies : List (DocId × UInt32)} (cost? other? : Option UInt64)
      (allows : ∀ posted ∈
        (StoredPostings.ofOccurrences occurrences).documents.toList,
          (Script.mk [] frequencies cost?).Allows posted) :
      CostsApart (.scripted name ⟨[], frequencies, cost?⟩ occurrences)
        (.scripted name ⟨[], frequencies, other?⟩ occurrences)
  | probe (name : String) (listing : Listing) :
      CostsApart (.probe name listing none) (.probe name listing none)
  | proximity (arrangement : Arrangement) (slop : Nat) (collects : Bool)
      {children others : List Query}
      (size : children.length = others.length)
      (below : ∀ child : Fin children.length, CostsApart (children.get child)
        (others.get (child.cast size))) :
      CostsApart (.proximity arrangement slop collects children)
        (.proximity arrangement slop collects others)
  | union {children others : List Query}
      (size : children.length = others.length)
      (below : ∀ child : Fin children.length, CostsApart (children.get child)
        (others.get (child.cast size))) :
      CostsApart (.union children) (.union others)
  | without (clash : Clash) {included excluded other another : Query}
      (ofIncluded : CostsApart included other)
      (ofExcluded : CostsApart excluded another) :
      CostsApart (.without clash included excluded)
        (.without clash other another)
  | region (low high : Position) (anchor : Anchor) {child other : Query}
      (below : CostsApart child other) :
      CostsApart (.region low high anchor child)
        (.region low high anchor other)
  | metered (name : String) {child other : Query}
      (below : CostsApart child other) :
      CostsApart (.metered name child) (.metered name other)

/-- Whatever the costs, the same is recited. -/
theorem CostsApart.exists_recites {first second : Query}
    (apart : first.CostsApart second) :
    ∃ visits, first.Recites visits ∧ second.Recites visits := by
  induction apart with
  | nothing => exact ⟨_, FaultFree.nothing.recites, FaultFree.nothing.recites⟩
  | listed listing =>
      exact ⟨_, (FaultFree.listed listing).recites,
        (FaultFree.listed listing).recites⟩
  | term occurrences =>
      exact ⟨_, (FaultFree.term occurrences).recites,
        (FaultFree.term occurrences).recites⟩
  | scripted name cost? other? allows =>
      exact ⟨_, recites_scripted name rfl allows,
        recites_scripted name rfl allows⟩
  | probe name listing =>
      exact ⟨_, (FaultFree.probe name listing).recites,
        (FaultFree.probe name listing).recites⟩
  | proximity arrangement slop collects size below ih =>
      choose all ofFirst ofSecond using ih
      refine ⟨_, recites_proximity ofFirst arrangement slop collects, ?_⟩
      rw [← Nearness.allMatches_cast size.symm]
      exact recites_proximity (fun child => ofSecond (child.cast size.symm))
        arrangement slop collects
  | @union children others size below ih =>
      choose all ofFirst ofSecond using ih
      refine ⟨_, recites_union ofFirst, ?_⟩
      have same : List.ofFn (fun child : Fin others.length =>
          all (child.cast size.symm)) = List.ofFn all :=
        List.ext_getElem (by simp [size]) fun place _ _ => by simp
      rw [← same]
      exact recites_union fun child => ofSecond (child.cast size.symm)
  | without clash _ _ ofIncluded ofExcluded =>
      obtain ⟨_, included, other⟩ := ofIncluded
      obtain ⟨_, excluded, another⟩ := ofExcluded
      exact ⟨_, included.without excluded clash, other.without another clash⟩
  | region low high anchor _ ih =>
      obtain ⟨_, child, other⟩ := ih
      exact ⟨_, child.region low high anchor, other.region low high anchor⟩
  | metered name _ ih =>
      obtain ⟨_, child, other⟩ := ih
      exact ⟨_, child.metered name, other.metered name⟩

/--
Queries without faults that differ only in the costs they announce give the
same answers to all moves and looks, and stand alike after each of them.
-/
theorem costs_change_no_answer {first second : Query}
    (apart : first.CostsApart second) {steps : List Step}
    (plain : ∀ step ∈ steps, step.isPlain) :
    ((Session.ofQuery first).performAll steps).1 =
      ((Session.ofQuery second).performAll steps).1 := by
  obtain ⟨visits, ofFirst, ofSecond⟩ := apart.exists_recites
  exact Session.performAll_alike Tree.alike_followOne
    ⟨_, ofFirst.2 _ _, ofSecond.2 _ _⟩ [] []
    fun step member => .inl (plain step member)

/-- A term before two others, which announce the given costs. -/
def weighed (second third : UInt64) : Query :=
  .proximity .inOrder 0 false [
    .scripted "first" ⟨[], [(13, 0)], some 7⟩
      [⟨9, 0, none⟩, ⟨12, 0, none⟩, ⟨13, 0, none⟩],
    .proximity .anyOrder 0 true [
      .scripted "second" ⟨[], [], some second⟩ [⟨9, 1, none⟩, ⟨13, 1, none⟩],
      .scripted "third" ⟨[], [], some third⟩ [⟨9, 2, none⟩]]]

/-- The first term may announce that it has no position in a document. -/
theorem first_allows (cost? : Option UInt64) :
    ∀ posted ∈ (StoredPostings.ofOccurrences
      [⟨9, 0, none⟩, ⟨12, 0, none⟩, ⟨13, 0, none⟩]).documents.toList,
        (Script.mk [] [(13, 0)] cost?).Allows posted := by
  have documents : (StoredPostings.ofOccurrences
      [⟨9, 0, none⟩, ⟨12, 0, none⟩, ⟨13, 0, none⟩]).documents.toList =
      [⟨9, #[(0, none)]⟩, ⟨12, #[(0, none)]⟩, ⟨13, #[(0, none)]⟩] := rfl
  rw [documents]
  intro posted member announced isAnnounced
  simp only [List.mem_cons, List.not_mem_nil, or_false] at member
  rcases member with rfl | rfl | rfl
  · cases isAnnounced
  · cases isAnnounced
  · cases isAnnounced
    decide

theorem weighed_costsApart (second third other another : UInt64) :
    (weighed second third).CostsApart (weighed other another) := by
  refine .proximity _ _ _ rfl fun child => ?_
  fin_cases child
  · exact .scripted _ _ _ (first_allows _)
  · refine .proximity _ _ _ rfl fun child => ?_
    fin_cases child
    · exact .scripted _ _ _ fun _ _ => Script.allows_of_nil rfl
    · exact .scripted _ _ _ fun _ _ => Script.allows_of_nil rfl

/-- The costs change which terms are read, and no answer. -/
theorem weighed_change_no_answer :
    (weighed 1 2).CostsApart (weighed 2 1) ∧
      (∀ step ∈ [Step.next, .payloads, .next], step.isPlain) ∧
      ((Session.ofQuery (weighed 1 2)).performAll
          [.next, .payloads, .next]).1 =
        ((Session.ofQuery (weighed 2 1)).performAll
          [.next, .payloads, .next]).1 ∧
      ((Session.ofQuery (weighed 1 2)).performAll
          [.next, .payloads, .next]).2.tally ≠
        ((Session.ofQuery (weighed 2 1)).performAll
          [.next, .payloads, .next]).2.tally := by
  have plain : ∀ step ∈ [Step.next, .payloads, .next], step.isPlain := by
    simp [Step.isPlain]
  have apart := weighed_costsApart 1 2 2 1
  have seeks : ((Session.ofQuery (weighed 1 2)).performAll
      [.next, .payloads, .next]).2.tally.postings.map
        (·.calls.seekDocument) = [0, 1, 1] := by
    cbv
  have others : ((Session.ofQuery (weighed 2 1)).performAll
      [.next, .payloads, .next]).2.tally.postings.map
        (·.calls.seekDocument) = [0, 0, 1] := by
    cbv
  refine ⟨apart, plain, costs_change_no_answer apart plain, fun same => ?_⟩
  rw [same, others] at seeks
  exact absurd seeks (by decide)

end Query

end PositionalSearch
