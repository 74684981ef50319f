import PositionalSearch.Proofs.Serving
import PositionalSearch.Without

/-!
# Exclusions over children that serve visits

What the excluded child has passed can clash with no span to come, so what is
pending decides every test as all excluded spans would.  A test that fails has
moved the excluded child only; a move that fails leaves the included child on
a span that was not tested to the end, or on one that clashes.
-/

namespace PositionalSearch

open Cursor (Served Serves Seeks Settles)

namespace Visits

/-- The visits from the first on that stops past an edge of a document. -/
def stoppingPast (doc : DocId) (edge : Nat) (visits : Visits) : Visits :=
  visits.dropWhile fun visit =>
    visit.doc = doc && visit.span.stop.toNat ≤ edge

variable {visits rest : Visits} {visit : Visit} {doc : DocId} {edge : Nat}

theorem stoppingPast_cons_of_le (inDoc : visit.doc = doc)
    (early : visit.span.stop.toNat ≤ edge) :
    stoppingPast doc edge (visit :: rest) = stoppingPast doc edge rest :=
  List.dropWhile_cons_of_pos (by simpa [inDoc] using early)

theorem stoppingPast_cons_of_lt (late : edge < visit.span.stop.toNat) :
    stoppingPast doc edge (visit :: rest) = visit :: rest :=
  List.dropWhile_cons_of_neg (by simpa using fun _ => late)

theorem stoppingPast_cons_of_ne (elsewhere : visit.doc ≠ doc) :
    stoppingPast doc edge (visit :: rest) = visit :: rest :=
  List.dropWhile_cons_of_neg
    (by simpa using fun inDoc => absurd inDoc elsewhere)

/-- The first visit past an edge stops there, unless it left the document. -/
theorem lt_stop_of_head?_stoppingPast
    (isHead : visit ∈ (stoppingPast doc edge visits).head?)
    (inDoc : visit.doc = doc) : edge < visit.span.stop.toNat := by
  have kept := List.head?_dropWhile_not (fun visit : Visit =>
    visit.doc = doc && visit.span.stop.toNat ≤ edge) visits
  rw [show List.head? (List.dropWhile _ visits) = some visit from isHead]
    at kept
  simpa [inDoc] using kept

end Visits

namespace Clash

/-- Whether an included and an excluded span clash. -/
def between (clash : Clash) (included excluded : Span) : Bool :=
  excluded.doc = included.doc &&
    match clash with
    | .inDocument => true
    | .overlap before behind =>
        widenedStart before included < excluded.stop.toNat &&
          excluded.start.toNat < widenedStop behind included

/-- Whether a span clashes with one of some visits. -/
def bars (clash : Clash) (pending : Visits) (span : Span) : Bool :=
  pending.any fun visit => clash.between span visit.span

/-- The visits that clash with none of the excluded ones. -/
def spare (clash : Clash) (excluded included : Visits) : Visits :=
  included.filter fun visit => !clash.bars excluded visit.span

variable {clash : Clash} {pending : Visits} {span : Span}

/-- Only what is in the document of a span, or after it, clashes with it. -/
theorem bars_since {doc : DocId} (notBefore : doc ≤ span.doc) :
    clash.bars (pending.since doc) span = clash.bars pending span := by
  rw [bars, bars, Visits.since, List.any_filter]
  refine congrArg (List.any pending) (funext fun visit => ?_)
  by_cases same : visit.span.doc = span.doc
  · have reached : doc ≤ visit.doc := by
      change doc ≤ visit.span.doc
      rw [same]
      exact notBefore
    simp [reached]
  · simp [between, same]

/-- Excluded spans that stop at the edge or before it clash no more. -/
theorem bars_stoppingPast {before behind : Position} {doc : DocId} {edge : Nat}
    (passed : span.doc = doc → edge ≤ widenedStart before span) :
    (overlap before behind).bars (pending.stoppingPast doc edge) span =
      (overlap before behind).bars pending span := by
  induction pending with
  | nil => rfl
  | cons visit rest ih =>
      by_cases inDoc : visit.doc = doc
      · by_cases early : visit.span.stop.toNat ≤ edge
        · have clear : (overlap before behind).between span visit.span =
              false := by
            by_cases same : visit.span.doc = span.doc
            · have edges := passed (same.symm.trans inDoc)
              simp only [between, Bool.and_eq_false_iff,
                decide_eq_false_iff_not]
              right
              left
              omega
            · simp [between, same]
          rw [Visits.stoppingPast_cons_of_le inDoc early, ih, bars, bars,
            List.any_cons, clear, Bool.false_or]
        · rw [Visits.stoppingPast_cons_of_lt (Nat.not_le.mp early)]
      · rw [Visits.stoppingPast_cons_of_ne inDoc]

/--
What stops before a span, widened, can be passed: it clashes neither with that
span nor with a later one.
-/
theorem bars_passBefore {before behind : Position} {later : Span}
    (notAfter : span ≤ later) :
    (overlap before behind).bars
      (pending.stoppingPast span.doc (widenedStart before span)) later =
      (overlap before behind).bars pending later := by
  refine bars_stoppingPast fun sameDoc => ?_
  rcases lt_or_eq_of_le notAfter with ahead | rfl
  · have starts := Span.start_le_of_lt ahead sameDoc.symm
    rw [UInt32.le_iff_toNat_le] at starts
    simp only [widenedStart]
    omega
  · exact Nat.le_refl _

/-- Nothing in later documents clashes. -/
theorem bars_eq_false (later : ∀ visit ∈ pending, span.doc < visit.doc) :
    clash.bars pending span = false := by
  refine List.any_eq_false.mpr fun visit member => ?_
  have other : visit.span.doc ≠ span.doc := fun same =>
    absurd (same ▸ later visit member) (UInt64.lt_irrefl _)
  simp [between, other]

/-- The first of what is pending in the document of a span. -/
def nearest? (pending : Visits) (doc : DocId) : Option Span :=
  (pending.head?.map Visit.span).filter fun span => span.doc = doc

theorem nearest?_cons_of_eq {visit : Visit} {rest : Visits} {doc : DocId}
    (inDoc : visit.doc = doc) :
    nearest? (visit :: rest) doc = some visit.span :=
  Option.filter_eq_some_iff.mpr ⟨rfl, decide_eq_true inDoc⟩

theorem nearest?_cons_of_ne {visit : Visit} {rest : Visits} {doc : DocId}
    (elsewhere : visit.doc ≠ doc) : nearest? (visit :: rest) doc = none :=
  Option.filter_eq_none_iff.mpr fun _ isFirst => by
    cases isFirst
    simpa using elsewhere

theorem nearest?_eq_some {doc : DocId} {nearest : Span}
    (found : nearest? pending doc = some nearest) :
    nearest.doc = doc ∧
      ∃ visit rest, pending = visit :: rest ∧ visit.span = nearest := by
  cases pending with
  | nil => cases found
  | cons visit rest =>
      simp only [nearest?, List.head?_cons, Option.map_some,
        Option.filter_eq_some_iff, Option.some.injEq, decide_eq_true_eq]
        at found
      obtain ⟨rfl, inDoc⟩ := found
      exact ⟨inDoc, visit, rest, rfl, rfl⟩

/-- If nothing is near, everything that is pending lies in later documents. -/
theorem lt_of_nearest?_eq_none {doc : DocId} (ordered : pending.Ordered)
    (notBefore : ∀ visit ∈ pending, doc ≤ visit.doc)
    (found : nearest? pending doc = none) :
    ∀ visit ∈ pending, doc < visit.doc := by
  cases pending with
  | nil => exact fun visit member => absurd member List.not_mem_nil
  | cons first rest =>
      simp only [nearest?, List.head?_cons, Option.map_some,
        Option.filter_eq_none_iff, Option.some.injEq, forall_eq',
        decide_eq_true_eq] at found
      have ahead : doc < first.doc := by
        have reached := notBefore first List.mem_cons_self
        change ¬ first.doc = doc at found
        grind
      intro visit member
      rcases List.mem_cons.mp member with rfl | later
      · exact ahead
      · exact UInt64.lt_of_lt_of_le ahead (ordered.doc_le later)

/-- In its document a span clashes as soon as something is near. -/
theorem bars_inDocument (ordered : pending.Ordered)
    (notBefore : ∀ visit ∈ pending, span.doc ≤ visit.doc) :
    inDocument.bars pending span = (nearest? pending span.doc).isSome := by
  cases found : nearest? pending span.doc with
  | none =>
      exact bars_eq_false (lt_of_nearest?_eq_none ordered notBefore found)
  | some nearest =>
      obtain ⟨inDoc, visit, rest, rfl, rfl⟩ := nearest?_eq_some found
      simp [bars, between, inDoc]

/--
Once nothing stops at the edge or before it, the nearest span starts first, so
it overlaps if one does.
-/
theorem bars_overlap {before behind : Position} (ordered : pending.Ordered)
    (notBefore : ∀ visit ∈ pending, span.doc ≤ visit.doc)
    (passed : ∀ visit ∈ pending.head?, visit.doc = span.doc →
      widenedStart before span < visit.span.stop.toNat) :
    (overlap before behind).bars pending span =
      (nearest? pending span.doc).any fun nearest =>
        nearest.start.toNat < widenedStop behind span := by
  cases found : nearest? pending span.doc with
  | none =>
      exact bars_eq_false (lt_of_nearest?_eq_none ordered notBefore found)
  | some nearest =>
      obtain ⟨inDoc, visit, rest, rfl, rfl⟩ := nearest?_eq_some found
      have stops := passed visit rfl inDoc
      rw [Option.any_some, Bool.eq_iff_iff, bars, List.any_eq_true,
        decide_eq_true_eq]
      constructor
      · rintro ⟨other, member, overlaps⟩
        simp only [between, Bool.and_eq_true, decide_eq_true_eq] at overlaps
        obtain ⟨sameDoc, _, starts⟩ := overlaps
        rcases List.mem_cons.mp member with rfl | later
        · exact starts
        · have first := Span.start_le_of_lt (ordered.head_lt later)
            (inDoc.trans sameDoc.symm)
          rw [UInt32.le_iff_toNat_le] at first
          exact Nat.lt_of_le_of_lt first starts
      · intro starts
        refine ⟨visit, List.mem_cons_self, ?_⟩
        simp only [between, inDoc, stops, starts, decide_true, Bool.and_self]

end Clash

variable {σ : Type} [Cursor σ] {fails : Prop} {waits serves : Visits → σ → Prop}

namespace Without

/-! ## The excluded child -/

omit [Cursor σ] in
/-- The excluded visits that are pending. -/
def Pending (waits serves : Visits → σ → Prop) (pending : Visits)
    (node : Without σ) : Prop :=
  pending.Ordered ∧
    match node.barrier with
    | .unread => waits pending node.excluded
    | .on span => ∃ visit rest, pending = visit :: rest ∧
        visit.span = span ∧ serves (visit :: rest) node.excluded
    | .lifted => pending = []

/-- What was left of the node when only the excluded child was moved. -/
structure Steady (node reached : Without σ) : Prop where
  included : reached.included = node.included
  clash : reached.clash = node.clash
  standing : reached.standing = node.standing

/-- Only the excluded child moved, past nothing that clashes from a span on. -/
structure Trims (waits serves : Visits → σ → Prop) (pending : Visits)
    (span : Span) (node reached : Without σ) : Prop where
  steady : Steady node reached
  pends : ∃ rest, Pending waits serves rest reached ∧ ∀ later, span ≤ later →
    node.clash.bars rest later = node.clash.bars pending later

omit [Cursor σ] in
theorem Steady.trans {node middle reached : Without σ}
    (first : Steady node middle) (second : Steady middle reached) :
    Steady node reached :=
  ⟨second.included.trans first.included, second.clash.trans first.clash,
    second.standing.trans first.standing⟩

omit [Cursor σ] in
/-- Before the excluded child was read all it waits with is pending. -/
theorem Pending.of_unread {node : Without σ} {pending : Visits}
    (isBarrier : node.barrier = .unread) (ordered : pending.Ordered)
    (wait : waits pending node.excluded) :
    Pending waits serves pending node := by
  refine ⟨ordered, ?_⟩
  rw [isBarrier]
  exact wait

omit [Cursor σ] in
/-- The excluded child stands on the first of what is pending. -/
theorem Pending.of_on {node : Without σ} {visit : Visit} {rest : Visits}
    (isBarrier : node.barrier = .on visit.span)
    (ordered : Visits.Ordered (visit :: rest))
    (serve : serves (visit :: rest) node.excluded) :
    Pending waits serves (visit :: rest) node := by
  refine ⟨ordered, ?_⟩
  rw [isBarrier]
  exact ⟨visit, rest, rfl, rfl, serve⟩

omit [Cursor σ] in
/-- What the excluded child reaches is pending. -/
theorem Pending.of_served {node : Without σ} {pending : Visits}
    {span? : Option Span} {child : σ}
    (served : Served serves pending span? child) (ordered : pending.Ordered) :
    Pending waits serves pending
      { node with excluded := child, barrier := .after span? } := by
  obtain ⟨rfl, serve⟩ := served
  refine ⟨ordered, ?_⟩
  cases pending with
  | nil => rfl
  | cons visit rest =>
      exact ⟨visit, rest, rfl, rfl, serve (List.cons_ne_nil _ _)⟩

/-- The excluded child seeks a document, and is on what is pending there. -/
theorem pends_seekBarrier (waits : Visits → σ → Prop) {node : Without σ}
    {pending : Visits} (ordered : pending.Ordered) {doc : DocId}
    {failed : Failure → σ → Prop}
    (sought : (Cursor.seek doc).Meets node.excluded
      (Served serves (pending.since doc)) failed) :
    (seekBarrier doc).Meets node
      (fun span? reached => Steady node reached ∧
        Pending waits serves (pending.since doc) reached ∧
        reached.barrier = .after span? ∧
        span? = (pending.since doc).head?.map Visit.span)
      (fun failure reached => ∃ child,
        reached = { node with excluded := child } ∧ failed failure child) := by
  simp only [seekBarrier, excluding, noteBarrier, Attempt.meets_bind,
    Attempt.meets_within, Attempt.meets_update, Attempt.meets_pure]
  refine sought.mono ?_ ?_
  · intro span? child served
    exact ⟨⟨rfl, rfl, rfl⟩, .of_served served (ordered.since doc), trivial,
      served.1⟩
  · exact fun _ child failed => ⟨child, rfl, failed⟩

/-- The barrier in a document is the first of what is pending from it on. -/
theorem pends_barrierIn (does : Serves fails serves)
    (seeks : Seeks fails waits serves) {node : Without σ} {pending : Visits}
    (holds : Pending waits serves pending node) (doc : DocId) :
    (barrierIn doc).Meets node
      (fun found? reached => Steady node reached ∧
        Pending waits serves (pending.since doc) reached ∧
        reached.barrier = .after ((pending.since doc).head?.map Visit.span) ∧
        found? = Clash.nearest? (pending.since doc) doc)
      (fun _ reached => fails ∧ Steady node reached ∧ ∃ rest,
        Pending waits serves rest reached ∧
          rest.since doc = pending.since doc) := by
  obtain ⟨ordered, held⟩ := holds
  simp only [barrierIn, Attempt.meets_bind, Attempt.meets_look]
  cases isBarrier : node.barrier with
  | unread =>
      rw [isBarrier] at held
      simp only [Attempt.meets_bind, Attempt.meets_pure]
      refine (pends_seekBarrier waits ordered
        (seeks.seek held ordered doc)).mono ?_ ?_
      · rintro span? reached ⟨steady, pends, noted, rfl⟩
        exact ⟨steady, pends, noted, rfl⟩
      · rintro _ _ ⟨child, rfl, mayFail, still | passed⟩
        · exact ⟨mayFail, ⟨rfl, rfl, rfl⟩, pending,
            .of_unread isBarrier ordered still, rfl⟩
        · exact ⟨mayFail, ⟨rfl, rfl, rfl⟩, _,
            .of_unread isBarrier (ordered.since doc) passed,
            Visits.since_since⟩
  | lifted =>
      rw [isBarrier] at held
      subst held
      refine ⟨⟨rfl, rfl, rfl⟩, ⟨Visits.Ordered.nil, ?_⟩, isBarrier, rfl⟩
      rw [isBarrier]
      rfl
  | on span =>
      rw [isBarrier] at held
      obtain ⟨visit, rest, rfl, rfl, serve⟩ := held
      dsimp only
      split
      · rename_i behind
        have same : Visits.since doc (visit :: rest) = Visits.since doc rest :=
          Visits.since_cons_of_lt behind
        have sought := does.seek serve ordered behind
        rw [← same] at sought
        simp only [Attempt.meets_bind, Attempt.meets_pure]
        refine (pends_seekBarrier waits ordered sought).mono ?_ ?_
        · rintro span? reached ⟨steady, pends, noted, rfl⟩
          exact ⟨steady, pends, noted, rfl⟩
        · rintro _ _ ⟨child, rfl, mayFail, still | passed⟩
          · exact ⟨mayFail, ⟨rfl, rfl, rfl⟩, visit :: rest,
              .of_on isBarrier ordered still, rfl⟩
          · rw [same] at passed
            have fewer : Visits.Ordered (visit :: Visits.since doc rest) :=
              List.Pairwise.sublist (List.filter_sublist.cons_cons visit)
                ordered
            refine ⟨mayFail, ⟨rfl, rfl, rfl⟩, visit :: Visits.since doc rest,
              .of_on isBarrier fewer passed, ?_⟩
            rw [Visits.since_cons_of_lt behind, Visits.since_since, same]
      · rename_i notBehind
        rw [ordered.since_cons_of_le (UInt64.not_lt.mp notBehind)]
        exact ⟨⟨rfl, rfl, rfl⟩, .of_on isBarrier ordered serve, isBarrier, rfl⟩

/-- The excluded child passes what stops at the edge or before it. -/
theorem pends_passBefore (waits : Visits → σ → Prop)
    (does : Serves fails serves) (node : Without σ) {doc : DocId}
    {edge : Nat} {visit : Visit} {rest : Visits}
    (serve : serves (visit :: rest) node.excluded)
    (isBarrier : node.barrier = .on visit.span)
    (ordered : Visits.Ordered (visit :: rest)) (inDoc : visit.doc = doc) :
    (passBefore doc edge visit.span).Meets node
      (fun found? reached => Steady node reached ∧
        Pending waits serves (Visits.stoppingPast doc edge (visit :: rest))
          reached ∧
        found? =
          Clash.nearest? (Visits.stoppingPast doc edge (visit :: rest)) doc)
      (fun _ reached => fails ∧ Steady node reached ∧ ∃ left,
        Pending waits serves left reached ∧
          left.stoppingPast doc edge =
            Visits.stoppingPast doc edge (visit :: rest)) := by
  rw [passBefore]
  split
  · rename_i beyond
    rw [Visits.stoppingPast_cons_of_lt beyond]
    exact ⟨⟨rfl, rfl, rfl⟩, .of_on isBarrier ordered serve,
      (Clash.nearest?_cons_of_eq inDoc).symm⟩
  · rename_i early
    simp only [excluding, Attempt.meets_bind, Attempt.meets_within]
    refine (does.meets_nextBeyond serve ordered).mono ?_ ?_
    · rintro later? child served
      rw [Visits.stoppingPast_cons_of_le inDoc (Nat.not_lt.mp early)]
      have pends : ∀ span? : Option Span, later?.map Subtype.val = span? →
          Pending waits serves rest
            { node with excluded := child, barrier := .after span? } := by
        rintro _ rfl
        exact .of_served served ordered.tail
      cases rest with
      | nil =>
          have isNone := served.1
          rw [List.head?_nil, Option.map_none, Option.map_eq_none_iff]
            at isNone
          subst isNone
          exact ⟨⟨rfl, rfl, rfl⟩, pends none rfl, rfl⟩
      | cons next others =>
          have isHead := served.1
          rw [List.head?_cons, Option.map_some, Option.map_eq_some_iff]
            at isHead
          obtain ⟨⟨_, beyond⟩, rfl, rfl⟩ := isHead
          have := Span.room_lt_room beyond
          simp only [noteBarrier, Attempt.meets_bind, Attempt.meets_update]
          split
          · rename_i sameDoc
            refine (pends_passBefore waits does { node with
              excluded := child
              barrier := .on next.span } (served.2 (List.cons_ne_nil _ _)) rfl
              ordered.tail sameDoc).mono ?_ ?_
            · rintro found? reached ⟨steady, held, isFound⟩
              exact ⟨⟨steady.included, steady.clash, steady.standing⟩, held,
                isFound⟩
            · rintro _ reached ⟨mayFail, steady, left, held, same⟩
              exact ⟨mayFail,
                ⟨steady.included, steady.clash, steady.standing⟩, left, held,
                same⟩
          · rename_i otherDoc
            rw [Visits.stoppingPast_cons_of_ne otherDoc]
            exact ⟨⟨rfl, rfl, rfl⟩, pends (some next.span) rfl,
              (Clash.nearest?_cons_of_ne otherDoc).symm⟩
    · rintro _ child ⟨mayFail, still⟩
      exact ⟨mayFail, ⟨rfl, rfl, rfl⟩, visit :: rest,
        .of_on isBarrier ordered still, rfl⟩
termination_by visit.span.room

omit [Cursor σ] in
/-- What lies before the document of a span decides no test from there on. -/
theorem Trims.of_since {node reached : Without σ} {pending rest : Visits}
    {span : Span} (steady : Steady node reached)
    (pends : Pending waits serves rest reached)
    (same : rest.since span.doc = pending.since span.doc) :
    Trims waits serves pending span node reached := by
  refine ⟨steady, rest, pends, fun later notAfter => ?_⟩
  have inDoc := Span.doc_le_of_le notAfter
  rw [← Clash.bars_since inDoc, same, Clash.bars_since inDoc]

/-- Past what stops too early for a span the next barrier decides an overlap. -/
theorem trims_passBefore (does : Serves fails serves)
    {node reached : Without σ} {pending : Visits} {span nearest : Span}
    {before behind : Position} (isClash : node.clash = .overlap before behind)
    (ordered : pending.Ordered) (steady : Steady node reached)
    (pends : Pending waits serves (pending.since span.doc) reached)
    (noted : reached.barrier =
      .after ((pending.since span.doc).head?.map Visit.span))
    (isNearest : Clash.nearest? (pending.since span.doc) span.doc =
      some nearest) :
    (passBefore span.doc (Clash.widenedStart before span) nearest).Meets reached
      (fun found? last =>
        (found?.any fun nearest =>
          nearest.start.toNat < Clash.widenedStop behind span) =
            node.clash.bars pending span ∧
        Trims waits serves pending span node last)
      (fun _ last => fails ∧ Trims waits serves pending span node last) := by
  have notBefore : ∀ visit ∈ pending.since span.doc, span.doc ≤ visit.doc :=
    fun visit member => (Visits.mem_since.mp member).2
  have since : ∀ later, span ≤ later →
      node.clash.bars (pending.since span.doc) later =
        node.clash.bars pending later := fun later notAfter =>
    Clash.bars_since (Span.doc_le_of_le notAfter)
  obtain ⟨inDoc, visit, rest, isPending, rfl⟩ :=
    Clash.nearest?_eq_some isNearest
  have fromDoc := ordered.since span.doc
  rw [isPending] at pends noted since fromDoc notBefore
  rw [isClash] at since ⊢
  have held := pends.2
  rw [noted] at held
  obtain ⟨_, _, same, _, serve⟩ := held
  cases same
  refine (pends_passBefore waits does reached serve noted fromDoc
    inDoc).mono ?_ ?_
  · rintro found? last ⟨further, left, rfl⟩
    refine ⟨?_, steady.trans further, _, left, fun later notAfter => ?_⟩
    · rw [← since span (le_refl _), ← Clash.bars_passBefore (le_refl _)]
      refine (Clash.bars_overlap left.1 ?_ ?_).symm
      · exact fun other member => notBefore other
          ((List.dropWhile_sublist _).subset member)
      · exact fun other isHead sameDoc =>
          Visits.lt_stop_of_head?_stoppingPast isHead sameDoc
    · rw [isClash, Clash.bars_passBefore notAfter, since later notAfter]
  · rintro _ last ⟨mayFail, further, left, held, same⟩
    refine ⟨mayFail, steady.trans further, left, held, fun later notAfter => ?_⟩
    rw [isClash, ← since later notAfter, ← Clash.bars_passBefore notAfter,
      same, Clash.bars_passBefore notAfter]

/-- A span is tested against what is pending, and only that is changed. -/
theorem pends_clashes (does : Serves fails serves)
    (seeks : Seeks fails waits serves) {node : Without σ} {pending : Visits}
    (holds : Pending waits serves pending node) (span : Span) :
    (clashes span).Meets node
      (fun found reached => found = node.clash.bars pending span ∧
        Trims waits serves pending span node reached)
      (fun _ reached => fails ∧
        Trims waits serves pending span node reached) := by
  have ordered := holds.1.since span.doc
  have notBefore : ∀ visit ∈ pending.since span.doc, span.doc ≤ visit.doc :=
    fun visit member => (Visits.mem_since.mp member).2
  have since : node.clash.bars (pending.since span.doc) span =
      node.clash.bars pending span := Clash.bars_since (UInt64.le_refl _)
  have barrier := pends_barrierIn does seeks holds span.doc
  simp only [clashes, Attempt.meets_bind, Attempt.meets_look]
  cases isClash : node.clash with
  | inDocument =>
      rw [isClash] at since
      simp only [Attempt.meets_bind, Attempt.meets_pure]
      refine barrier.mono ?_ ?_
      · rintro found? reached ⟨steady, pends, _, rfl⟩
        refine ⟨?_, .of_since steady pends Visits.since_since⟩
        rw [← since, Clash.bars_inDocument ordered notBefore]
      · rintro _ reached ⟨mayFail, steady, _, pends, same⟩
        exact ⟨mayFail, .of_since steady pends same⟩
  | overlap before behind =>
      simp only [Attempt.meets_bind]
      refine barrier.mono ?_ ?_
      · rintro first? reached ⟨steady, pends, noted, rfl⟩
        cases isNearest : Clash.nearest? (pending.since span.doc)
            span.doc with
        | none =>
            refine ⟨?_, .of_since steady pends Visits.since_since⟩
            rw [← isClash, ← since, Clash.bars_eq_false
              (Clash.lt_of_nearest?_eq_none ordered notBefore isNearest)]
            rfl
        | some nearest =>
            have passed := trims_passBefore does isClash holds.1 steady pends
              noted isNearest
            rw [isClash] at passed
            simpa only [Attempt.meets_bind, Attempt.meets_pure] using passed
      · rintro _ reached ⟨mayFail, steady, _, pends, same⟩
        exact ⟨mayFail, .of_since steady pends same⟩

/-! ## The included child -/

omit [Cursor σ] in
/-- Tests that agree spare the same visits. -/
theorem spare_congr {clash : Clash} {pending rest all : Visits}
    (same : ∀ visit ∈ all, clash.bars rest visit.span =
      clash.bars pending visit.span) :
    clash.spare rest all = clash.spare pending all :=
  List.filter_congr fun visit member => by rw [same visit member]

/--
The included child serves some visits, and what is pending clashes with them
as all the excluded visits do.
-/
structure Faces (waits serves : Visits → σ → Prop) (all visits : Visits)
    (node : Without σ) : Prop where
  serve : serves visits node.included
  ordered : visits.Ordered
  pends : ∃ pending, Pending waits serves pending node ∧
    ∀ visit ∈ visits, node.clash.bars pending visit.span =
      node.clash.bars all visit.span

/-- The node stands on the first of the visits that is spared, if one is. -/
def Settled (waits serves : Visits → σ → Prop) (all visits : Visits)
    (node : Without σ) (span? : Option Span) (reached : Without σ) : Prop :=
  reached.clash = node.clash ∧ reached.standing = .after span? ∧
    match span? with
    | none => node.clash.spare all visits = [] ∧
        ∀ span, Cursor.standing reached.included = .on span →
          ∃ visit ∈ visits, visit.span = span
    | some span => ∃ visit rest, visit.span = span ∧
        Faces waits serves all (visit :: rest) reached ∧
        Cursor.standing reached.included = .on span ∧
        node.clash.spare all visits = visit :: node.clash.spare all rest

/--
The node did not move, but its included child passed visits that clash.  The
visit it is on now clashes, or could not be tested.
-/
def Stalled (waits serves : Visits → σ → Prop) (all visits : Visits)
    (node reached : Without σ) : Prop :=
  reached.clash = node.clash ∧ reached.standing = node.standing ∧
    ∃ visit rest, Faces waits serves all (visit :: rest) reached ∧
      visit ∈ visits ∧
      node.clash.spare all (visit :: rest) = node.clash.spare all visits ∧
      (node.clash.bars all visit.span ∨
        Cursor.standing reached.included = .on visit.span)

omit [Cursor σ] in
/-- In its document nothing is spared after a visit that clashes there. -/
theorem spare_beyond {all rest : Visits} {visit : Visit}
    (ordered : Visits.Ordered (visit :: rest))
    (barred : Clash.inDocument.bars all visit.span) :
    Clash.inDocument.spare all (rest.beyond visit.doc) =
      Clash.inDocument.spare all rest := by
  rw [Clash.spare, Clash.spare, Visits.beyond, List.filter_filter]
  refine List.filter_congr fun later member => ?_
  by_cases ahead : visit.doc < later.doc
  · simp [ahead]
  · have sameDoc : later.span.doc = visit.span.doc :=
      UInt64.le_antisymm (UInt64.not_lt.mp ahead) (ordered.doc_le member)
    simp only [Clash.bars, Clash.between, Bool.and_true] at barred ⊢
    rw [sameDoc, barred]
    rfl

/-- The included child moves on to where a test is worth it again. -/
theorem served_nextCandidate (does : Serves fails serves) {node : Without σ}
    {all rest : Visits} {visit : Visit}
    (serve : serves (visit :: rest) node.included)
    (ordered : Visits.Ordered (visit :: rest))
    (barred : node.clash.bars all visit.span) :
    (nextCandidate visit.span).Meets node
      (fun later? reached => ∃ child candidates, reached =
        { node with included := child } ∧
          Served serves candidates (later?.map Subtype.val) child ∧
          candidates.Sublist rest ∧
          node.clash.spare all candidates = node.clash.spare all rest)
      (fun _ reached => fails ∧ ∃ child candidates, reached =
        { node with included := child } ∧
          serves (visit :: candidates) child ∧ candidates.Sublist rest ∧
          node.clash.spare all candidates = node.clash.spare all rest) := by
  simp only [nextCandidate, Attempt.meets_bind, Attempt.meets_look]
  cases isClash : node.clash with
  | inDocument =>
      rw [isClash] at barred
      have spared := spare_beyond ordered barred
      simp only [including, Attempt.meets_within]
      refine (does.meets_nextDocument serve ordered).mono ?_ ?_
      · intro later? child served
        exact ⟨child, _, by rw [isClash], served, List.filter_sublist, spared⟩
      · rintro _ child ⟨mayFail, still | passed⟩
        · exact ⟨mayFail, child, rest, by rw [isClash], still, .refl _, rfl⟩
        · exact ⟨mayFail, child, _, by rw [isClash], passed,
            List.filter_sublist, spared⟩
  | overlap before behind =>
      simp only [including, Attempt.meets_within]
      refine (does.meets_nextBeyond serve ordered).mono ?_ ?_
      · intro later? child served
        exact ⟨child, rest, by rw [isClash], served, .refl _, rfl⟩
      · rintro _ child ⟨mayFail, still⟩
        exact ⟨mayFail, child, rest, by rw [isClash], still, .refl _, rfl⟩

/-- A cursor moved to a candidate stands on it, unless it did not move. -/
theorem placed_nextCandidate (settles : Settles serves) {node : Without σ}
    {visits : Visits} (serve : serves visits node.included) (span : Span) :
    (nextCandidate span).Meets node
      (fun later? reached => reached.included = node.included ∧ later? = none ∨
        Cursor.standing reached.included = .after (later?.map Subtype.val))
      (fun _ _ => True) := by
  have demanded : ∀ (span? : Option Span) (child : σ),
      Cursor.standing child = .after span? →
      (Cursor.demandBeyond span span? : Attempt Failure σ _).Meets child
        (fun later? child =>
          Cursor.standing child = .after (later?.map Subtype.val))
        (fun _ _ => True) := by
    intro span? child stands
    unfold Cursor.demandBeyond
    cases span? with
    | none => exact stands
    | some later =>
        dsimp only
        split
        · exact stands
        · trivial
  have moved : ∀ move : Move, (do
      Cursor.demandBeyond span (← Cursor.go move) :
        Attempt Failure σ _).Meets node.included
        (fun later? child =>
          child = node.included ∧ later? = none ∨
            Cursor.standing child = .after (later?.map Subtype.val))
        (fun _ _ => True) := by
    intro move
    simp only [Attempt.meets_bind]
    apply (settles.go serve move).imp_answer
    intro span? child stands
    exact (demanded span? child stands).imp_answer fun _ _ => .inr
  simp only [nextCandidate, Attempt.meets_bind, Attempt.meets_look]
  cases node.clash with
  | inDocument =>
      simp only [including, Attempt.meets_within, Cursor.nextDocument]
      split
      · exact moved (.seek _)
      · exact .inl ⟨rfl, rfl⟩
  | overlap before behind =>
      simp only [including, Attempt.meets_within]
      exact moved .next

omit [Cursor σ] in
/-- What a test leaves pending decides the visit tested and the later ones. -/
theorem Trims.faces {node reached : Without σ} {pending all rest : Visits}
    {visit : Visit}
    (trims : Trims waits serves pending visit.span node reached)
    (serve : serves (visit :: rest) node.included)
    (ordered : Visits.Ordered (visit :: rest))
    (agree : ∀ later ∈ visit :: rest,
      node.clash.bars pending later.span = node.clash.bars all later.span) :
    Faces waits serves all (visit :: rest) reached := by
  obtain ⟨steady, left, pends, same⟩ := trims
  refine ⟨steady.included ▸ serve, ordered, left, pends,
    fun later member => ?_⟩
  rw [steady.clash, ← agree later member]
  apply same
  rcases List.mem_cons.mp member with rfl | further
  · exact le_refl _
  · exact le_of_lt (ordered.head_lt further)

section

variable {node middle last : Without σ} {all candidates visits : Visits}

/-- To settle past visits that clash is to settle on all of them. -/
theorem Settled.of_passed {span? : Option Span}
    (settled : Settled waits serves all candidates middle span? last)
    (sameClash : middle.clash = node.clash) (passed : candidates ⊆ visits)
    (spared : node.clash.spare all candidates = node.clash.spare all visits) :
    Settled waits serves all visits node span? last := by
  obtain ⟨clash, isStanding, settled⟩ := settled
  refine ⟨clash.trans sameClash, isStanding, ?_⟩
  simp only [sameClash, spared] at settled
  cases span? with
  | none =>
      refine ⟨settled.1, fun span isOn => ?_⟩
      obtain ⟨visit, member, isSpan⟩ := settled.2 span isOn
      exact ⟨visit, passed member, isSpan⟩
  | some span => exact settled

/-- To stall past visits that clash is to stall on all of them. -/
theorem Stalled.of_passed
    (stalled : Stalled waits serves all candidates middle last)
    (sameClash : middle.clash = node.clash)
    (sameStanding : middle.standing = node.standing)
    (passed : candidates ⊆ visits)
    (spared : node.clash.spare all candidates = node.clash.spare all visits) :
    Stalled waits serves all visits node last := by
  obtain ⟨clash, isStanding, visit, rest, faces, member, same, why⟩ := stalled
  rw [sameClash] at same why
  exact ⟨clash.trans sameClash, isStanding.trans sameStanding, visit, rest,
    faces, passed member, same.trans spared, why⟩

end

/-- The node settles on the first span that does not clash. -/
theorem settles_settleFrom (does : Serves fails serves)
    (seeks : Seeks fails waits serves) (settles : Settles serves)
    (node : Without σ) {all rest : Visits} {visit : Visit}
    (faces : Faces waits serves all (visit :: rest) node)
    (placed : Cursor.standing node.included = .on visit.span) :
    (settleFrom visit.span).Meets node
      (Settled waits serves all (visit :: rest) node)
      (fun _ reached => fails ∧
        Stalled waits serves all (visit :: rest) node reached) := by
  obtain ⟨serve, ordered, pending, holds, agree⟩ := faces
  rw [settleFrom]
  simp only [Attempt.meets_bind]
  refine (pends_clashes does seeks holds visit.span).mono ?_ ?_
  · rintro found reached ⟨rfl, trims⟩
    have steady := trims.steady
    have facing := trims.faces serve ordered agree
    rw [agree visit List.mem_cons_self]
    cases barred : node.clash.bars all visit.span with
    | false =>
        refine ⟨steady.clash, rfl, visit, rest, rfl, ?_, ?_, ?_⟩
        · exact ⟨facing.serve, ordered, facing.pends⟩
        · exact (congrArg Cursor.standing steady.included).trans placed
        · simp [Clash.spare, barred]
    | true =>
        have left : node.clash.spare all (visit :: rest) =
            node.clash.spare all rest := by
          simp [Clash.spare, barred]
        obtain ⟨served, _, further, pends, still⟩ := facing
        rw [← steady.clash] at barred
        simp only [↓reduceIte, Attempt.meets_bind]
        refine ((served_nextCandidate does served ordered barred).and
          (placed_nextCandidate settles served visit.span)).mono ?_ ?_
        · rintro later? _ ⟨⟨child, candidates, rfl, ⟨isHead, serves⟩, passed,
            same⟩, stands⟩
          rw [steady.clash] at same
          have members : candidates ⊆ visit :: rest :=
            List.subset_cons_of_subset visit passed.subset
          cases candidates with
          | nil =>
              rw [List.head?_nil, Option.map_none, Option.map_eq_none_iff]
                at isHead
              subst isHead
              refine ⟨steady.clash, rfl, left.trans same.symm, ?_⟩
              intro span isOn
              rcases stands with ⟨unmoved, _⟩ | isExhausted
              · change Cursor.standing child = .on span at isOn
                change child = reached.included at unmoved
                rw [unmoved, steady.included, placed] at isOn
                exact ⟨visit, List.mem_cons_self, Standing.on.inj isOn⟩
              · cases isExhausted.symm.trans isOn
          | cons next others =>
              rw [List.head?_cons, Option.map_some, Option.map_eq_some_iff]
                at isHead
              obtain ⟨⟨_, beyond⟩, rfl, rfl⟩ := isHead
              have := Span.room_lt_room beyond
              have onNext := stands.resolve_left fun unmoved => by
                cases unmoved.2
              have faces : Faces waits _ all (next :: others)
                  { reached with included := child } :=
                ⟨serves (List.cons_ne_nil _ _), ordered.tail.sublist passed,
                  further, pends, fun later member =>
                    still later (members member)⟩
              have spared := same.trans left.symm
              refine (settles_settleFrom does seeks settles _ faces
                onNext).mono ?_ ?_
              · intro span? last settled
                exact settled.of_passed steady.clash members spared
              · rintro _ last ⟨mayFail, stalled⟩
                exact ⟨mayFail, stalled.of_passed steady.clash
                  steady.standing members spared⟩
        · rintro _ _ ⟨⟨mayFail, child, candidates, rfl, serves, passed,
            same⟩, _⟩
          rw [steady.clash] at same
          have members : visit :: candidates ⊆ visit :: rest :=
            (passed.cons_cons visit).subset
          refine ⟨mayFail, steady.clash, steady.standing, visit, candidates,
            ⟨serves, ordered.sublist (passed.cons_cons visit), further, pends,
              fun later member => still later (members member)⟩,
            List.mem_cons_self, ?_, ?_⟩
          · rw [left, ← same]
            rw [steady.clash] at barred
            simp [Clash.spare, barred]
          · exact .inl (steady.clash ▸ barred)
  · rintro _ reached ⟨mayFail, trims⟩
    refine ⟨mayFail, trims.steady.clash, trims.steady.standing, visit, rest,
      trims.faces serve ordered agree, List.mem_cons_self, rfl, .inr ?_⟩
    exact (congrArg Cursor.standing trims.steady.included).trans placed
termination_by visit.span.room

/-- To leave out what clashes is to settle on the first span that does not. -/
theorem settles_keep (does : Serves fails serves)
    (seeks : Seeks fails waits serves) (settles : Settles serves)
    (node : Without σ) {all visits : Visits} {span? : Option Span}
    (served : Served serves visits span? node.included)
    (placed : Cursor.standing node.included = .after span?)
    (ordered : visits.Ordered)
    (pends : ∃ pending, Pending waits serves pending node ∧
      ∀ visit ∈ visits, node.clash.bars pending visit.span =
        node.clash.bars all visit.span) :
    (keep span?).Meets node (Settled waits serves all visits node)
      (fun _ reached => fails ∧
        Stalled waits serves all visits node reached) := by
  obtain ⟨rfl, serve⟩ := served
  cases visits with
  | nil =>
      refine ⟨rfl, rfl, rfl, fun span isOn => ?_⟩
      cases placed.symm.trans isOn
  | cons visit rest =>
      exact settles_settleFrom does seeks settles node
        ⟨serve (List.cons_ne_nil _ _), ordered, pends⟩ placed

end Without

end PositionalSearch
