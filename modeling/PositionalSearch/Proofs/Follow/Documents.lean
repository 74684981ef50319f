import PositionalSearch.Proofs.Follow.Search

/-!
# What a search finds in all documents

A search goes on to the next document that all children visit when one of them
has left the document before.  It starts where the pivot goes on after a
match, so what is answered is the next of the matches that are to come.
-/

namespace PositionalSearch

open Cursor (Serves)

namespace Lineup

open Nearness

variable {σ : Type} [Cursor σ] {size : Nat} {fails : Prop}
  {serves : Visits → σ → Prop} {lineup : Lineup σ size}
  {left ready : Fin size → Visits} {doc : DocId} {rule : Nearness}
  {filled : 0 < size} {last? : Option Span}

/-! ## Searching document after document -/

/-- A head that a search of the document can start with. -/
def Leads (rule : Nearness) (filled : 0 < size) (doc : DocId)
    (lineup : Lineup σ size) : Prop :=
  ∃ pivot : Fin size, lineup.heads[pivot].doc = doc ∧
    (rule.arrangement = .inOrder → pivot = ⟨0, filled⟩)

/-- The first of the matches to come was found, in its document. -/
structure Finds (rule : Nearness) (filled : 0 < size)
    (serves : Visits → σ → Prop) (doc : DocId) (last? : Option Span)
    (left : Fin size → Visits) (found : Match size)
    (reached : Lineup σ size) (lined : Lined size) : Prop where
  lists : Lists serves lined.left reached
  passes : Passes left lined.left
  since : From found.span.doc lined.left
  pivotIn : reached.heads[found.pivot].doc = found.span.doc
  starts : reached.heads[found.pivot].start = found.span.start
  leads : rule.arrangement = .inOrder → found.pivot = ⟨0, filled⟩
  outlook : rule.outlook filled doc last? left =
    ⟨found.span, rule.paid lined⟩ :: rule.prospects filled found.span.doc
      (some found.span) found.pivot (pass found.pivot lined.left)

/-- What a search comes to. -/
def Answers (rule : Nearness) (filled : 0 < size)
    (serves : Visits → σ → Prop) (doc : DocId) (last? : Option Span)
    (left : Fin size → Visits) (found? : Option (Match size))
    (reached : Lineup σ size) : Prop :=
  match found? with
  | some found => ∃ lined,
      Finds rule filled serves doc last? left found reached lined
  | none => rule.outlook filled doc last? left = []

/-- A search that fails has skipped no match that is to come. -/
def Breaks (rule : Nearness) (filled : 0 < size)
    (serves : Visits → σ → Prop) (doc : DocId) (last? : Option Span)
    (left : Fin size → Visits) (reached : Lineup σ size) : Prop :=
  ∃ ready, Passes left ready ∧ Lists serves ready reached ∧
    (Skips rule filled doc last? left ready ∨
      rule.slide filled doc last? (rule.seen doc left) = [] ∧
        Past doc ready ∧
        rule.allMatches ready = rule.allMatches (after doc left))

theorem searched_searchIn (does : Serves fails serves)
    (lists : Lists serves left lineup) (filled : 0 < size)
    (last? : Option Span) (since : From doc left)
    (leads : Leads rule filled doc lineup) :
    (searchIn rule.arrangement rule.slop last? doc).Meets lineup
      (Searched rule filled serves doc last? left)
      (fun _ reached => fails ∧ Delayed rule filled serves doc last? left
        reached) := by
  obtain ⟨pivot, inDoc, isFirst⟩ := leads
  unfold searchIn
  rw [dif_pos filled]
  cases arranged : rule.arrangement with
  | inOrder =>
      cases isFirst arranged
      simp only [Attempt.meets_bind, Attempt.meets_look]
      exact searched_inOrder does arranged filled last? since lists rfl inDoc
  | anyOrder =>
      exact searched_anyOrder does arranged filled last? since lists
        ⟨pivot, inDoc⟩

omit [Cursor σ] in
/-- Past one document, all heads are before or in a later one. -/
theorem Lists.lt_of_past (lists : Lists serves left lineup)
    (past : Past doc left) {later : DocId}
    (notBeyond : ∀ child : Fin size, lineup.heads[child].doc ≤ later) :
    doc < later := by
  obtain ⟨child, isPast⟩ := past
  obtain ⟨visit, _, isLeft, span⟩ := lists.exists_eq_cons child
  have ahead := isPast visit (isLeft ▸ List.mem_cons_self)
  change doc < visit.span.doc at ahead
  rw [span] at ahead
  exact UInt64.lt_of_lt_of_le ahead (notBeyond child)

omit [Cursor σ] in
/-- When all heads are in a document its search finds all matches. -/
theorem Lists.outlook_eq (lists : Lists serves left lineup)
    (filled : 0 < size) (together : Together doc lineup)
    (earlier : ∀ last ∈ last?, last.doc < doc) (rule : Nearness) :
    From doc left ∧ Leads rule filled doc lineup ∧
      (∀ child, (left child).inside doc ≠ []) ∧
      rule.outlook filled doc last? left = rule.allMatches left := by
  have since : From doc left := fun child visit member =>
    together child ▸ lists.le_doc member
  have visited : ∀ child, (left child).inside doc ≠ [] := fun child none =>
    (lists.inside_eq_nil_iff since child).mp none (together child)
  refine ⟨since, ⟨⟨0, filled⟩, together _, fun _ => rfl⟩, visited, ?_⟩
  exact outlook_eq_allMatches lists.ordered since visited earlier

omit [Cursor σ] in
/-- What broke off in a later document has lost no match of this one. -/
theorem Breaks.of_later {later : DocId} {reached : Lineup σ size}
    (ordered : ∀ child, (ready child).Ordered) (since : From later ready)
    (visited : ∀ child, (ready child).inside later ≠ [])
    (earlier : ∀ last ∈ last?, last.doc < later) (beyond : doc < later)
    (none : rule.slide filled doc last? (rule.seen doc left) = [])
    (passes : Passes left ready)
    (same : rule.allMatches ready = rule.allMatches (after doc left))
    (breaks : Breaks rule filled serves later last? ready reached) :
    Breaks rule filled serves doc last? left reached := by
  obtain ⟨last, passesOn, lists, kept⟩ := breaks
  have past : ∀ {group : Fin size → Visits}, From later group →
      Past doc group := fun sinceOn =>
    ⟨⟨0, filled⟩, fun visit member =>
      UInt64.lt_of_lt_of_le beyond (sinceOn _ visit member)⟩
  have whole : rule.outlook filled later last? ready = rule.allMatches ready :=
    outlook_eq_allMatches ordered since visited earlier
  refine ⟨last, passes.trans passesOn, lists, .inr ⟨none, ?_, ?_⟩⟩
  · exact past (passesOn.from since)
  · rcases kept with skips | ⟨ended, _, sameOn⟩
    · rw [← same, ← whole, ← skips.outlook_eq]
      exact (outlook_eq_allMatches lists.ordered
        (passesOn.from since) (skips.stays visited) earlier).symm
    · rw [sameOn, ← same, ← whole, outlook, ended, List.nil_append]

/-- The next match, in a document or in a later one. -/
theorem answers_search {lineup : Lineup σ size} {left : Fin size → Visits}
    (does : Serves fails serves) (lists : Lists serves left lineup)
    (filled : 0 < size) (last? : Option Span) (doc : DocId)
    (since : From doc left) (leads : Leads rule filled doc lineup)
    (earlier : ∀ last ∈ last?, last.doc ≤ doc) :
    (Lineup.search rule.arrangement rule.slop last? doc).Meets lineup
      (Answers rule filled serves doc last? left)
      (fun _ reached => fails ∧
        Breaks rule filled serves doc last? left reached) := by
  rw [Lineup.search]
  simp only [Attempt.meets_bind]
  refine (searched_searchIn does lists filled last? since leads).mono ?_ ?_
  · rintro (found | _ | _) middle searched
    · obtain ⟨lined, hit⟩ := searched
      have inDoc := hit.inDoc
      subst inDoc
      exact ⟨lined, hit.lists, hit.trims.passes, hit.trims.passes.from since,
        hit.pivotIn, hit.starts, hit.leads, hit.outlook⟩
    · obtain ⟨none, ready, trims, past, listsOn⟩ := searched
      have rest : rule.outlook filled doc last? left =
          rule.allMatches ready := by
        rw [outlook, none, List.nil_append, ← trims.after_eq,
          allMatches_after listsOn.ordered past]
      simp only [Attempt.meets_bind]
      refine (aligned_align does listsOn filled).mono ?_ ?_
      · rintro (_ | later) aligned ⟨found, notBefore⟩
        · exact rest.trans (Barren.allMatches_eq found rule)
        · obtain ⟨next, listsNext, narrows, together⟩ := found
          have beyond := listsOn.lt_of_past past (notBefore later rfl)
          have earlierOn : ∀ last ∈ last?, last.doc < later :=
            fun last isLast =>
              UInt64.lt_of_le_of_lt (earlier last isLast) beyond
          obtain ⟨sinceOn, leadsOn, visited, whole⟩ :=
            listsNext.outlook_eq filled together earlierOn rule
          have same := narrows.allMatches_eq listsOn.ordered rule
          have := DocId.room_lt_room beyond
          simp only [beyond, ↓reduceDIte]
          refine (answers_search does listsNext filled last? later sinceOn
            leadsOn fun last isLast =>
              UInt64.le_of_lt (earlierOn last isLast)).mono ?_ ?_
          · rintro (_ | found) reached answers
            · exact rest.trans (same.symm.trans (whole.symm.trans answers))
            · obtain ⟨lined, finds⟩ := answers
              refine ⟨lined, finds.lists, ?_, finds.since, finds.pivotIn,
                finds.starts, finds.leads, ?_⟩
              · exact (trims.passes.trans narrows.passes).trans finds.passes
              · rw [rest, ← same, ← whole]
                exact finds.outlook
          · rintro _ reached ⟨mayFail, breaks⟩
            refine ⟨mayFail, breaks.of_later listsNext.ordered sinceOn visited
              earlierOn beyond none (trims.passes.trans narrows.passes) ?_⟩
            rw [same, ← trims.after_eq,
              allMatches_after listsOn.ordered past]
      · rintro _ reached ⟨mayFail, last, listsNext, narrows⟩
        refine ⟨mayFail, last, trims.passes.trans narrows.passes, listsNext,
          .inr ⟨none, narrows.passes.past past, ?_⟩⟩
        rw [narrows.allMatches_eq listsOn.ordered, ← trims.after_eq,
          allMatches_after listsOn.ordered past]
    · exact searched
  · rintro _ reached ⟨mayFail, ready, skips, listsOn⟩
    exact ⟨mayFail, ready, skips.trims.passes, listsOn, .inl skips⟩
termination_by doc.room

/-- Where the search for the match after the last one starts. -/
def Resumes (rule : Nearness) (filled : 0 < size)
    (serves : Visits → σ → Prop) (doc : DocId) (last? : Option Span)
    (pivot : Fin size) (left : Fin size → Visits) (next? : Option DocId)
    (reached : Lineup σ size) : Prop :=
  match next? with
  | some next => doc ≤ next ∧ ∃ ready, Lists serves ready reached ∧
      Passes (pass pivot left) ready ∧ From next ready ∧
      Leads rule filled next reached ∧
      ((∀ child, (left child).inside doc ≠ []) →
        ∀ child, (ready child).inside next ≠ []) ∧
      rule.prospects filled doc last? pivot (pass pivot left) =
        rule.outlook filled next last? ready
  | none => rule.prospects filled doc last? pivot (pass pivot left) = []

/-- The pivot goes on, and all children with it if it leaves the document. -/
theorem resumes_resume (does : Serves fails serves)
    (lists : Lists serves left lineup) (since : From doc left)
    (earlier : ∀ last ∈ last?, last.doc ≤ doc) {pivot : Fin size}
    (isFirst : rule.arrangement = .inOrder → pivot = ⟨0, filled⟩) :
    (Lineup.resume pivot doc).Meets lineup
      (Resumes rule filled serves doc last? pivot left)
      (fun _ reached => fails ∧ (Lists serves left reached ∨
        Past doc (pass pivot left) ∧ ∃ ready, Lists serves ready reached ∧
          Narrows (pass pivot left) ready)) := by
  have sinceOn : From doc (pass pivot left) := (passes_pass _ _).from since
  simp only [Lineup.resume, Attempt.meets_bind]
  refine (lists_advance does lists pivot).mono ?_
    fun _ _ failed => ⟨failed.1, .inl failed.2⟩
  rintro (_ | head) middle arrives
  · exact prospects_eq_nil (by rw [pass_self]; exact arrives)
  · obtain ⟨listsOn, rfl⟩ : Lists serves (pass pivot left) middle ∧
        middle.heads[pivot] = head := arrives
    have leaves := listsOn.inside_eq_nil_iff sinceOn pivot
    dsimp only
    split
    · rename_i inDoc
      have visited : (pass pivot left pivot).inside doc ≠ [] := fun none =>
        leaves.mp none inDoc
      refine ⟨UInt64.le_refl _, _, listsOn, fun _ => List.Sublist.refl _,
        sinceOn, ⟨pivot, inDoc, isFirst⟩, fun stays child => ?_,
        if_neg visited⟩
      by_cases isPivot : child = pivot
      · subst isPivot
        exact visited
      · rw [pass_of_ne isPivot]
        exact stays child
    · rename_i elsewhere
      have none := leaves.mpr elsewhere
      have past := past_of_inside_eq_nil pivot sinceOn none
      have rest : rule.prospects filled doc last? pivot (pass pivot left) =
          rule.allMatches (pass pivot left) :=
        (if_pos none).trans (allMatches_after listsOn.ordered past rule)
      refine (aligned_align does listsOn filled).mono ?_ ?_
      · rintro (_ | next) reached ⟨found, notBefore⟩
        · exact rest.trans (Barren.allMatches_eq found rule)
        · obtain ⟨ready, listsNext, narrows, together⟩ := found
          have beyond := listsOn.lt_of_past past (notBefore next rfl)
          obtain ⟨sinceNext, leads, visited, whole⟩ :=
            listsNext.outlook_eq filled together (fun last isLast =>
              UInt64.lt_of_le_of_lt (earlier last isLast) beyond) rule
          refine ⟨UInt64.le_of_lt beyond, ready, listsNext, narrows.passes,
            sinceNext, leads, fun _ => visited, ?_⟩
          rw [rest, whole, narrows.allMatches_eq listsOn.ordered]
      · rintro _ _ ⟨mayFail, ready, listsNext, narrows⟩
        exact ⟨mayFail, .inr ⟨past, ready, listsNext, narrows⟩⟩

end Lineup

end PositionalSearch
