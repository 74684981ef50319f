import PositionalSearch.Proofs.Occurrences
import PositionalSearch.Proofs.Phrases

/-!
# The payloads of the current span

A node keeps no payloads of its own but those that a proximity node collected;
it asks the children that are current.  Without faults these always stand on
the spans that the node's own span is made of.  So what a query shows for a
span is what its leaves have stored for it, whatever moves led there.
-/

namespace PositionalSearch

/-! ## The spans that a match is made of -/

variable {size : Nat} {slop : Nat}

/--
A match is made of a span of each child in its document.  In order each starts
where its predecessor stops or later, with gaps within the slop, and the match
is what they span; in any order the match is a window that covers them.
-/
def MadeOf (arrangement : Arrangement) (slop : Nat) (span : Span)
    (spans : Fin size → Span) : Prop :=
  match arrangement with
  | .inOrder => (∀ child, (spans child).doc = span.doc) ∧
      ∃ first rest, List.ofFn spans = first :: rest ∧
        InOrder (first :: rest) ∧ gaps (first :: rest) ≤ slop ∧
          Spanning first rest span
  | .anyOrder => Covers slop span spans

theorem Lineup.Fits.madeOf {arrangement : Arrangement}
    {heads : Vector Span size} {found : Match size}
    (fits : Fits arrangement slop heads found)
    (together : ∀ child : Fin size, heads[child].doc = found.span.doc) :
    MadeOf arrangement slop found.span fun child : Fin size =>
      heads[child] := by
  cases arrangement with
  | inOrder =>
      obtain ⟨first, rest, isList, found⟩ := fits.spanning together
      refine ⟨together, first, rest, ?_, found⟩
      rw [← isList]
      refine List.ext_getElem (by simp) fun place _ _ => ?_
      simp
  | anyOrder => exact fits.covers together

namespace Nearness

variable {rule : Nearness} {filled : 0 < size} {doc : DocId}
  {last? : Option Span} {left : Fin size → Visits} {lined : Lined size}
  {visit : Visit} {span : Span}

/-- First visits that fit have a match read off their spans. -/
theorem fits_of_fitting? (fits : rule.fitting? filled doc lined = some span) :
    Lineup.Fits rule.arrangement rule.slop lined.spans
      ⟨rule.pivot filled lined, span⟩ := by
  obtain ⟨arrangement, slop, collects⟩ := rule
  refine ⟨filled, ?_⟩
  cases arrangement with
  | inOrder =>
      obtain ⟨found, bounded, rest⟩ := Option.bind_eq_some_iff.mp fits
      obtain ⟨slack, isSlack, same⟩ := Option.bind_eq_some_iff.mp rest
      split at same
      · rename_i within
        cases same
        obtain ⟨_, starts, stops⟩ := Span.ofBounds?_eq_some bounded
        exact ⟨rfl, starts, stops, slack, isSlack, within⟩
      · cases same
  | anyOrder =>
      obtain ⟨found, bounded, same⟩ := Option.bind_eq_some_iff.mp fits
      split at same
      · rename_i within
        cases same
        obtain ⟨_, starts, stops⟩ := Span.ofBounds?_eq_some bounded
        exact ⟨rfl, starts, stops, within⟩
      · cases same

/-- A match is read off visits of the children, and shows their payloads. -/
theorem exists_lined_of_mem_slide
    (member : visit ∈ rule.slide filled doc last? left) :
    ∃ lined : Lined size,
      (∀ child : Fin size, lined.heads[child] ∈ left child) ∧
        rule.fitting? filled doc lined = some visit.span ∧
          visit.payloads = if rule.collects then lined.payloads else [] := by
  have passed : ∀ {left : Fin size → Visits} {lined : Lined size}
      (found : rule.lineUp? filled left = some lined) (child : Fin size)
      {other : Visit},
      other ∈ pass (rule.pivot filled lined) lined.left child →
        other ∈ left child := by
    intro left lined found child other isOther
    refine (suffix_of_lineUp? found child).subset ?_
    by_cases same : child = rule.pivot filled lined
    · subst same
      rw [pass_self] at isOther
      exact List.mem_of_mem_tail isOther
    · rw [pass_of_ne same] at isOther
      exact isOther
  fun_induction slide rule filled doc last? left with
  | case1 => exact absurd member List.not_mem_nil
  | case2 last? left lined found shorter misses ih =>
      obtain ⟨later, heads, rest⟩ := ih member
      exact ⟨later, fun child => passed found child (heads child), rest⟩
  | case3 last? left lined found shorter span hits ih =>
      rcases List.mem_cons.mp member with rfl | further
      · refine ⟨lined, fun child => ?_,
          (Option.filter_eq_some_iff.mp hits).1, rfl⟩
        exact (suffix_of_lineUp? found child).subset
          (List.mem_of_mem_head? (lined.head?_left child))
      · obtain ⟨later, heads, rest⟩ := ih further
        exact ⟨later, fun child => passed found child (heads child), rest⟩

/-- A match is made of visits of the children, and shows their payloads. -/
theorem madeOf_of_mem_allMatches (member : visit ∈ rule.allMatches left) :
    ∃ heads : Fin size → Visit, (∀ child, heads child ∈ left child) ∧
      MadeOf rule.arrangement rule.slop visit.span
        (fun child => (heads child).span) ∧
      visit.payloads = if rule.collects then
        (List.ofFn heads).flatMap Visit.payloads else [] := by
  by_cases filled : 0 < size
  · rw [mem_allMatches filled] at member
    obtain ⟨lined, heads, fits, shown⟩ := exists_lined_of_mem_slide member
    have inDoc : ∀ child : Fin size,
        lined.heads[child] ∈ left child ∧
          lined.heads[child].doc = visit.doc := fun child =>
      Visits.mem_inside.mp (heads child)
    have spans : ∀ child : Fin size,
        lined.spans[child] = lined.heads[child].span := fun child => by
      simp [Lined.spans]
    refine ⟨fun child => lined.heads[child], fun child => (inDoc child).1,
      ?_, ?_⟩
    · have made := (fits_of_fitting? fits).madeOf fun child => by
        rw [spans]
        exact (inDoc child).2
      simpa only [spans] using made
    · have listed : (List.ofFn fun child : Fin size => lined.heads[child]) =
          lined.heads.toList := by
        refine List.ext_getElem (by simp) fun place _ _ => ?_
        simp
      rw [shown, listed, Lined.payloads]
  · rw [allMatches, dif_neg filled] at member
    exact absurd member List.not_mem_nil

end Nearness

/-! ## What a query has stored -/

namespace Query

/-- The query yields the span. -/
def Yields (query : Query) (span : Span) : Prop :=
  ∃ spans, Walk.drain query.openTree = .ok spans ∧ span ∈ spans

/--
The payloads that a query has stored for a span.  A leaf has them from its
entry or its latest occurrence, a union from the first child that yields the
span, a match from the spans it is made of.
-/
inductive Stores : Query → Span → List Payload → Prop
  | listed {listing : Listing} {entry : Entry}
      (held : entry ∈ listing.entries) :
      Stores (.listed listing) entry.span entry.payload?.toList
  | probe (name : String) {listing : Listing} (fault? : Option ProbeFault)
      {entry : Entry} (held : entry ∈ listing.entries) :
      Stores (.probe name listing fault?) entry.span entry.payload?.toList
  | term {occurrences : List Occurrence} {found : Occurrence}
      (latest : Occurrence.Latest occurrences found) :
      Stores (.term occurrences) found.span found.payload?.toList
  | scripted (name : String) (script : Script)
      {occurrences : List Occurrence} {found : Occurrence}
      (latest : Occurrence.Latest occurrences found) :
      Stores (.scripted name script occurrences) found.span
        found.payload?.toList
  | proximity {arrangement : Arrangement} {slop : Nat} (collects : Bool)
      {children : List Query} {span : Span}
      (spans : Fin children.length → Span)
      (stored : Fin children.length → List Payload)
      (yielded : ∀ child, (children.get child).Yields (spans child))
      (below : ∀ child, Stores (children.get child) (spans child)
        (stored child))
      (madeOf : MadeOf arrangement slop span spans) :
      Stores (.proximity arrangement slop collects children) span
        (if collects then (List.ofFn stored).flatten else [])
  | union {children : List Query} {span : Span} {stored : List Payload}
      (child : Fin children.length)
      (yielded : (children.get child).Yields span)
      (first : ∀ earlier < child, ¬ (children.get earlier).Yields span)
      (below : Stores (children.get child) span stored) :
      Stores (.union children) span stored
  | without {clash : Clash} {included excluded : Query} {span : Span}
      {stored : List Payload} (below : Stores included span stored) :
      Stores (.without clash included excluded) span stored
  | region {low high : Position} {anchor : Anchor} {child : Query}
      {span : Span} {stored : List Payload}
      (below : Stores child span stored) :
      Stores (.region low high anchor child) span stored
  | metered {name : String} {child : Query} {span : Span}
      {stored : List Payload} (below : Stores child span stored) :
      Stores (.metered name child) span stored

/-- What is yielded is what is visited. -/
theorem yields_iff {query : Query} (faultFree : query.FaultFree)
    {span : Span} :
    query.Yields span ↔ ∃ visit ∈ query.visits, visit.span = span := by
  simp only [Yields, drain_openTree faultFree, Except.ok.injEq,
    exists_eq_left', List.mem_map]

theorem exists_entry_of_mem_visits {listing : Listing} {visit : Visit}
    (member : visit ∈ listing.visits) :
    ∃ entry ∈ listing.entries, visit = ⟨entry.span, entry.payload?.toList⟩ := by
  obtain ⟨entry, held, rfl⟩ := List.mem_map.mp member
  exact ⟨entry, by simpa using held, rfl⟩

/-- Each visit shows what the query has stored for its span. -/
theorem stores_of_mem_visits {query : Query} (faultFree : query.FaultFree) :
    ∀ visit ∈ query.visits, Stores query visit.span visit.payloads := by
  induction faultFree with
  | nothing => exact fun _ member => absurd member List.not_mem_nil
  | listed listing =>
      intro visit member
      obtain ⟨entry, held, rfl⟩ := exists_entry_of_mem_visits member
      exact .listed held
  | term occurrences =>
      intro visit member
      obtain ⟨found, latest, rfl⟩ :=
        Occurrence.exists_latest_of_mem_visits member
      exact .term latest
  | scripted name occurrences faults frequencies =>
      intro visit member
      obtain ⟨found, latest, rfl⟩ :=
        Occurrence.exists_latest_of_mem_visits member
      exact .scripted name _ latest
  | probe name listing =>
      intro visit member
      obtain ⟨entry, held, rfl⟩ := exists_entry_of_mem_visits member
      exact .probe name none held
  | @proximity arrangement slop collects children below ih =>
      intro visit member
      rw [visits_proximity] at member
      obtain ⟨heads, isHead, madeOf, shown⟩ :=
        Nearness.madeOf_of_mem_allMatches member
      rw [shown, List.flatMap_def, List.map_ofFn]
      exact .proximity collects _ _
        (fun child => (yields_iff (below _ (List.get_mem _ _))).mpr
          ⟨_, isHead child, rfl⟩)
        (fun child => ih _ (List.get_mem _ _) _ (isHead child)) madeOf
  | @union children below ih =>
      intro visit member
      rw [visits] at member
      obtain ⟨place, inside, here, lacks⟩ :=
        (Visits.mem_mergeAll (ordered_allVisits children)).mp member
      have listed : ∀ (place : Nat) (bound : place < children.length)
          (inside : place < (allVisits children).length),
          (allVisits children)[place] = children[place].visits := by
        intro place bound inside
        simp [allVisits_eq_map]
      have bound : place < children.length := by
        simpa [allVisits_eq_map] using inside
      rw [listed place bound inside] at here
      refine .union ⟨place, bound⟩ ?_ ?_ (ih _ (List.get_mem _ _) _ here)
      · exact (yields_iff (below _ (List.get_mem _ _))).mpr ⟨_, here, rfl⟩
      · intro earlier before yielded
        obtain ⟨other, isOther, same⟩ :=
          (yields_iff (below _ (List.get_mem _ _))).mp yielded
        have absent := lacks earlier.val before
        rw [listed earlier.val earlier.isLt] at absent
        exact absent other isOther same
  | without clash ofIncluded ofExcluded ih =>
      intro visit member
      exact .without (ih visit (List.mem_of_mem_filter member))
  | region low high anchor below ih =>
      intro visit member
      exact .region (ih visit (List.mem_of_mem_filter member))
  | metered name below ih =>
      intro visit member
      exact .metered (ih visit member)

/-- Of the visits to one span all are the same. -/
theorem eq_of_mem_visits {query : Query} {first second : Visit}
    (isFirst : first ∈ query.visits) (isSecond : second ∈ query.visits)
    (same : first.span = second.span) : first = second := by
  have once : (query.visits.map Visit.span).Nodup :=
    List.pairwise_map.mpr ((ordered_visits query).imp ne_of_lt)
  exact List.inj_on_of_nodup_map once isFirst isSecond same

/--
Without faults, what a query shows for its current span depends on the span
alone, whatever moves led there: it is what the query has stored for it.
-/
theorem payloads_stored {query : Query} (faultFree : query.FaultFree) :
    ∃ stored : Span → List Payload, ∀ (moves : List Move) (span : Span),
      Cursor.standing (Cursor.runs moves query.openTree).2 = .on span →
        Cursor.payloads (Cursor.runs moves query.openTree).2 =
            .ok (stored span) ∧
          query.Yields span ∧ Stores query span (stored span) := by
  refine ⟨fun span => ((query.visits.find? (·.span = span)).map
    Visit.payloads).getD [], fun moves span stands => ?_⟩
  have follows := ((follows_openAt faultFree query.height
    (Nat.le_refl _)).runs moves).2
  have held := Plain.held_runs_suffix moves (.fresh query.visits)
  have standsPlain := follows.standing_eq.symm.trans stands
  have shown := follows.payloads_eq
  cases reached : (Cursor.runs moves (Plain.fresh query.visits)).2 with
  | fresh visits =>
      rw [reached] at standsPlain
      cases standsPlain
  | ended =>
      rw [reached] at standsPlain
      cases standsPlain
  | closed =>
      rw [reached] at standsPlain
      cases standsPlain
  | on visit rest =>
      rw [reached] at standsPlain shown held
      cases standsPlain
      have member : visit ∈ query.visits :=
        held.subset List.mem_cons_self
      obtain ⟨found, isFound⟩ : ∃ found,
          query.visits.find? (·.span = visit.span) = some found :=
        Option.isSome_iff_exists.mp
          (List.find?_isSome.mpr ⟨visit, member, by simp⟩)
      have same : found = visit :=
        eq_of_mem_visits (List.mem_of_find?_eq_some isFound) member
          (by simpa using List.find?_some isFound)
      subst same
      simp only [isFound, Option.map_some, Option.getD_some]
      exact ⟨shown, (yields_iff faultFree).mpr ⟨_, member, rfl⟩,
        stores_of_mem_visits faultFree _ member⟩

/-- A phrase of which the first word is in two terms, with payloads. -/
def annotated : Query :=
  .proximity .inOrder 0 true [
    .union [.term [⟨1, 0, some ⟨#[1]⟩⟩], .term [⟨1, 0, some ⟨#[2]⟩⟩]],
    .term [⟨1, 1, some ⟨#[3]⟩⟩]]

/-- The phrase shows the payloads of the first term and of the third. -/
theorem annotated_payloads_stored :
    annotated.FaultFree ∧
      Cursor.standing (Cursor.runs [.next] annotated.openTree).2 =
        .on ⟨1, 0, 2, by decide⟩ ∧
      Cursor.payloads (Cursor.runs [.next] annotated.openTree).2 =
        .ok [⟨#[1]⟩, ⟨#[3]⟩] ∧
      annotated.Yields ⟨1, 0, 2, by decide⟩ ∧
      Stores annotated ⟨1, 0, 2, by decide⟩ [⟨#[1]⟩, ⟨#[3]⟩] := by
  have faultFree : annotated.FaultFree := by
    apply FaultFree.proximity
    refine forall_mem_pair ?_ (.term _)
    exact .union (forall_mem_pair (.term _) (.term _))
  obtain ⟨stands, shown⟩ :
      Cursor.standing (Cursor.runs [.next] annotated.openTree).2 =
          .on ⟨1, 0, 2, by decide⟩ ∧
        Cursor.payloads (Cursor.runs [.next] annotated.openTree).2 =
          .ok [⟨#[1]⟩, ⟨#[3]⟩] := ⟨by decide +kernel, by decide +kernel⟩
  obtain ⟨stored, isStored⟩ := payloads_stored faultFree
  obtain ⟨same, yielded, stores⟩ := isStored [.next] _ stands
  rw [shown, Except.ok.injEq] at same
  rw [← same] at stores
  exact ⟨faultFree, stands, shown, yielded, stores⟩

end Query

end PositionalSearch
