import Mathlib.Data.List.DropRight
import PositionalSearch.Proofs.SpanOrder
import PositionalSearch.Walk

/-!
# Lists of visits

What a cursor yields is a list of visits, each with a later span than the one
before.  Such a list is cut at a document: into what lies in it or after it,
what lies in it, and what lies beyond it.
-/

namespace PositionalSearch

namespace Visit

/-- The document visited. -/
abbrev doc (visit : Visit) : DocId := visit.span.doc

/-- The same visit, without payloads. -/
def bare (visit : Visit) : Visit := ⟨visit.span, []⟩

end Visit

/-- Visits in the order of a walk. -/
abbrev Visits := List Visit

namespace Visits

/-- Each span precedes all later ones. -/
def Ordered (visits : Visits) : Prop :=
  visits.Pairwise fun first second => first.span < second.span

/-- The visits of a document and of those after it. -/
def since (doc : DocId) (visits : Visits) : Visits :=
  visits.filter fun visit => doc ≤ visit.doc

/-- The visits of a document. -/
def inside (doc : DocId) (visits : Visits) : Visits :=
  visits.filter fun visit => visit.doc = doc

/-- The visits of the documents after one. -/
def beyond (doc : DocId) (visits : Visits) : Visits :=
  visits.filter fun visit => doc < visit.doc

/-- The visits from the first on that starts at a position or later. -/
def startingAt (floor : Position) (visits : Visits) : Visits :=
  visits.dropWhile fun visit => visit.span.start < floor

/-- All visits, or those of a document and of the ones after it. -/
def sinceAny (doc? : Option DocId) (visits : Visits) : Visits :=
  doc?.elim visits fun doc => since doc visits

variable {visits rest : Visits} {visit : Visit} {doc target : DocId}

@[simp] theorem mem_since : visit ∈ since doc visits ↔
    visit ∈ visits ∧ doc ≤ visit.doc := by
  simp [since]

@[simp] theorem mem_inside : visit ∈ inside doc visits ↔
    visit ∈ visits ∧ visit.doc = doc := by
  simp [inside]

@[simp] theorem mem_beyond : visit ∈ beyond doc visits ↔
    visit ∈ visits ∧ doc < visit.doc := by
  simp [beyond]

theorem startingAt_cons_of_lt {floor : Position}
    (early : visit.span.start < floor) :
    startingAt floor (visit :: rest) = startingAt floor rest :=
  List.dropWhile_cons_of_pos (decide_eq_true early)

theorem startingAt_cons_of_not_lt {floor : Position}
    (late : ¬ visit.span.start < floor) :
    startingAt floor (visit :: rest) = visit :: rest :=
  List.dropWhile_cons_of_neg (by simpa using late)

/-- The first visit from a position on does not start before it. -/
theorem le_start_of_startingAt {floor : Position}
    (starts : startingAt floor visits = visit :: rest) :
    floor ≤ visit.span.start := by
  induction visits with
  | nil => cases starts
  | cons first later ih =>
      by_cases early : first.span.start < floor
      · rw [startingAt_cons_of_lt early] at starts
        exact ih starts
      · rw [startingAt_cons_of_not_lt early] at starts
        cases starts
        exact UInt32.not_lt.mp early

@[simp] theorem startingAt_startingAt (floor : Position) :
    startingAt floor (startingAt floor visits) = startingAt floor visits :=
  List.dropWhile_idempotent _ _

theorem inside_since_of_le (reached : target ≤ doc) :
    inside doc (since target visits) = inside doc visits := by
  unfold inside since
  rw [List.filter_filter]
  refine List.filter_congr fun visit _ => ?_
  by_cases same : visit.doc = doc
  · simp [same, reached]
  · simp [same]

theorem inside_since_of_lt (before : doc < target) :
    inside doc (since target visits) = [] := by
  refine List.filter_eq_nil_iff.mpr fun visit member => ?_
  rw [decide_eq_true_eq]
  rintro rfl
  exact UInt64.not_le.mpr before (mem_since.mp member).2

theorem inside_cons_of_eq (inDoc : visit.doc = doc) :
    inside doc (visit :: rest) = visit :: inside doc rest :=
  List.filter_cons_of_pos (by simpa using inDoc)

theorem beyond_cons_of_eq (inDoc : visit.doc = doc) :
    beyond doc (visit :: rest) = beyond doc rest :=
  List.filter_cons_of_neg (by simp [inDoc])

theorem since_cons_of_lt (before : visit.doc < target) :
    since target (visit :: rest) = since target rest :=
  List.filter_cons_of_neg (by simpa using UInt64.not_le.mpr before)

theorem inside_cons_of_ne (elsewhere : visit.doc ≠ doc) :
    inside doc (visit :: rest) = inside doc rest :=
  List.filter_cons_of_neg (by simpa using elsewhere)

@[simp] theorem since_since :
    since doc (since doc visits) = since doc visits := by
  simp only [since, List.filter_filter, Bool.and_self]

/-- Visits that are not before a document stay when it is sought. -/
theorem since_eq_self (reached : ∀ visit ∈ visits, doc ≤ visit.doc) :
    since doc visits = visits :=
  List.filter_eq_self.mpr fun visit member =>
    decide_eq_true (reached visit member)

theorem inside_beyond (before : doc < target) :
    inside target (beyond doc visits) = inside target visits := by
  unfold inside beyond
  rw [List.filter_filter]
  refine List.filter_congr fun visit _ => ?_
  by_cases same : visit.doc = target
  · simp [same, before]
  · simp [same]

/-- What lies in a later document lies beyond an earlier one. -/
theorem since_beyond (before : doc < target) :
    since target (beyond doc visits) = since target visits := by
  unfold since beyond
  rw [List.filter_filter]
  refine List.filter_congr fun visit _ => ?_
  by_cases reached : target ≤ visit.doc
  · simp [reached, UInt64.lt_of_lt_of_le before reached]
  · simp [reached]

/-! ## Order -/

theorem Ordered.nil : Ordered [] := List.Pairwise.nil

theorem Ordered.tail (ordered : Ordered (visit :: rest)) : Ordered rest :=
  List.Pairwise.of_cons ordered

theorem Ordered.head_lt (ordered : Ordered (visit :: rest)) {later : Visit}
    (member : later ∈ rest) : visit.span < later.span :=
  List.rel_of_pairwise_cons ordered member

theorem Ordered.filter (ordered : Ordered visits) (keeps : Visit → Bool) :
    Ordered (visits.filter keeps) := List.Pairwise.filter keeps ordered

theorem Ordered.since (ordered : Ordered visits) (doc : DocId) :
    Ordered (since doc visits) := ordered.filter _

theorem Ordered.sinceAny (ordered : Ordered visits) (doc? : Option DocId) :
    Ordered (sinceAny doc? visits) := by
  cases doc? with
  | none => exact ordered
  | some doc => exact ordered.since doc

/-- Documents do not go back. -/
theorem Ordered.doc_le (ordered : Ordered (visit :: rest)) {later : Visit}
    (member : later ∈ rest) : visit.doc ≤ later.doc :=
  Span.doc_le_of_lt (ordered.head_lt member)

/-- If the first visit is not before a document, none is. -/
theorem Ordered.since_cons_of_le (ordered : Ordered (visit :: rest))
    (reached : target ≤ visit.doc) :
    Visits.since target (visit :: rest) = visit :: rest := by
  refine since_eq_self fun later member => ?_
  rcases List.mem_cons.mp member with rfl | further
  · exact reached
  · exact UInt64.le_trans reached (ordered.doc_le further)

/-- The visits before a document stand first. -/
theorem Ordered.dropWhile_eq_since (ordered : Ordered visits)
    (target : DocId) :
    visits.dropWhile (·.doc < target) = Visits.since target visits := by
  induction visits with
  | nil => rfl
  | cons first rest ih =>
      by_cases before : first.doc < target
      · rw [List.dropWhile_cons_of_pos (by simpa using before),
          ih ordered.tail, since_cons_of_lt before]
      · rw [List.dropWhile_cons_of_neg (by simpa using before),
          ordered.since_cons_of_le (UInt64.not_lt.mp before)]

/-- If the first document is visited at all, then by the first visit. -/
theorem Ordered.head?_inside (ordered : Ordered visits)
    (since : ∀ visit ∈ visits, doc ≤ visit.doc)
    (visited : inside doc visits ≠ []) :
    (inside doc visits).head? = visits.head? := by
  cases visits with
  | nil => rfl
  | cons first rest =>
      by_cases inDoc : first.doc = doc
      · rw [inside_cons_of_eq inDoc]
        rfl
      · obtain ⟨visit, member⟩ := List.exists_mem_of_ne_nil _ visited
        obtain ⟨isVisit, same⟩ := mem_inside.mp member
        rcases List.mem_cons.mp isVisit with rfl | later
        · exact absurd same inDoc
        · refine absurd (UInt64.le_antisymm ?_ ?_) inDoc
          · exact same ▸ ordered.doc_le later
          · exact since first List.mem_cons_self

/-- What is left from a visit on is what does not come before it. -/
theorem Ordered.filter_le_of_suffix {all : Visits} (ordered : Ordered all)
    (isSuffix : visit :: rest <:+ all) :
    (all.filter fun later => visit.span ≤ later.span) = visit :: rest := by
  obtain ⟨before, rfl⟩ := isSuffix
  obtain ⟨_, onward, apart⟩ := List.pairwise_append.mp ordered
  rw [List.filter_append, List.filter_eq_nil_iff.mpr, List.nil_append,
    List.filter_eq_self.mpr]
  · intro later member
    rw [decide_eq_true_iff]
    rcases List.mem_cons.mp member with rfl | further
    · exact le_refl _
    · exact le_of_lt (Ordered.head_lt onward further)
  · intro earlier member
    rw [decide_eq_true_iff, not_le]
    exact apart earlier member visit List.mem_cons_self

/-- Two lists in order with the same members are the same. -/
theorem Ordered.eq_of_mem_iff {first second : Visits}
    (left : Ordered first) (right : Ordered second)
    (same : ∀ visit, visit ∈ first ↔ visit ∈ second) : first = second := by
  have irrefl : ∀ {visits : Visits}, Ordered visits → visits.Nodup :=
    fun ordered => ordered.imp fun before same =>
      absurd (congrArg Visit.span same) (ne_of_lt before)
  refine List.Perm.eq_of_pairwise ?_ left right
    ((List.perm_ext_iff_of_nodup (irrefl left) (irrefl right)).mpr same)
  intro one other _ _ before after
  exact absurd (lt_trans before after) (lt_irrefl _)

end Visits

end PositionalSearch
