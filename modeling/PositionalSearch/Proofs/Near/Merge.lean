import PositionalSearch.Proofs.Follow.Matches
import PositionalSearch.Proofs.HeadQueue

/-!
# The windows of a merge

To search a document in any order is to merge what the children yield there.
The merge comes to all their spans one after the other, by span and then by
child, while every other child stands on its first span still to come.  The
windows around such spans do not go back, so a search that passes over what
does not come after the match before passes over repetitions only.
-/

namespace PositionalSearch

variable {size : Nat}

/-! ## Spans that meet in a merge -/

/--
A merge of what the children yield comes to a span of one of them, the lead.
Every other child then stands on its first span in the document that is still
to come; of equal spans that of the earlier child comes first.
-/
structure Meeting (yields : Fin size → List Span) (lead : Head (Fin size))
    (heads : Fin size → Span) : Prop where
  own : heads lead.child = lead.span
  yielded : ∀ child, heads child ∈ yields child
  inDoc : ∀ child, (heads child).doc = lead.span.doc
  toCome : ∀ child, child ≠ lead.child → lead < ⟨heads child, child⟩
  first : ∀ child, child ≠ lead.child → ∀ span ∈ yields child,
    span.doc = lead.span.doc → lead < ⟨span, child⟩ → heads child ≤ span

/-- The window of some spans: from the start of the lead to the last stop. -/
structure Window (lead : Span) (heads : Fin size → Span) (window : Span) :
    Prop where
  doc : window.doc = lead.doc
  start : window.start = lead.start
  stops : ∃ child, (heads child).stop = window.stop
  notAfter : ∀ child, (heads child).stop ≤ window.stop

/--
The length of a window less the lengths of the spans in it, each from its start
to its stop.
-/
def slack (window : Span) (heads : Fin size → Span) : Int :=
  (window.stop.toNat - window.start.toNat : Nat) -
    (((List.finRange size).map fun child =>
      (heads child).stop.toNat - (heads child).start.toNat).sum : Nat)

variable {yields : Fin size → List Span} {lead later : Head (Fin size)}
  {heads others : Fin size → Span} {window further : Span}

/-- Spans have one window. -/
theorem Window.unique (one : Window lead.span heads window)
    (other : Window lead.span heads further) : window = further := by
  obtain ⟨last, stops⟩ := one.stops
  obtain ⟨otherLast, otherStops⟩ := other.stops
  apply Span.ext
  · exact one.doc.trans other.doc.symm
  · exact one.start.trans other.start.symm
  · apply UInt32.le_antisymm
    · rw [← stops]
      exact other.notAfter last
    · rw [← otherStops]
      exact one.notAfter otherLast

namespace Meeting

/-- The lead comes before all other spans of the meeting. -/
theorem lead_le (meeting : Meeting yields lead heads) (child : Fin size) :
    lead.span ≤ heads child := by
  by_cases isLead : child = lead.child
  · rw [isLead, meeting.own]
  · exact Head.span_le_of_le (le_of_lt (meeting.toCome child isLead))

/-- A lead has one meeting. -/
theorem unique (one : Meeting yields lead heads)
    (other : Meeting yields lead others) : heads = others := by
  funext child
  by_cases isLead : child = lead.child
  · rw [isLead, one.own, other.own]
  · apply le_antisymm
    · exact one.first child isLead _ (other.yielded child) (other.inDoc child)
        (other.toCome child isLead)
    · exact other.first child isLead _ (one.yielded child) (one.inDoc child)
        (one.toCome child isLead)

/-- While a merge goes on no child goes back. -/
theorem heads_le (meeting : Meeting yields lead heads)
    (next : Meeting yields later others) (goesOn : lead < later)
    (sameDoc : later.span.doc = lead.span.doc) (child : Fin size) :
    heads child ≤ others child := by
  have isNext : later ≤ ⟨others child, child⟩ := by
    by_cases isLater : child = later.child
    · rw [isLater, next.own]
    · exact le_of_lt (next.toCome child isLater)
  by_cases isLead : child = lead.child
  · rw [isLead, meeting.own]
    exact le_trans (Head.span_le_of_le (le_of_lt goesOn))
      (isLead ▸ Head.span_le_of_le isNext)
  · exact meeting.first child isLead _ (next.yielded child)
      ((next.inDoc child).trans sameDoc) (lt_of_lt_of_le goesOn isNext)

/-- While a merge goes on its windows do not go back. -/
theorem window_le (meeting : Meeting yields lead heads)
    (next : Meeting yields later others) (goesOn : lead < later)
    (sameDoc : later.span.doc = lead.span.doc)
    (isWindow : Window lead.span heads window)
    (isFurther : Window later.span others further) : window ≤ further := by
  have leads : lead.span ≤ later.span :=
    Head.span_le_of_le (le_of_lt goesOn)
  intro back
  have docs : further.doc = window.doc := by
    rw [isFurther.doc, isWindow.doc, sameDoc]
  have starts : window.start ≤ further.start := by
    rw [isWindow.start, isFurther.start]
    rcases lt_or_eq_of_le leads with before | same
    · exact Span.start_le_of_lt before sameDoc.symm
    · exact UInt32.le_of_eq (congrArg Span.start same)
  -- Only at equal starts could the window shrink, by the head that stops last.
  obtain ⟨last, stops⟩ := isWindow.stops
  rcases back with earlier | ⟨_, sooner | ⟨sameStart, shorter⟩⟩
  · rw [docs] at earlier
    exact UInt64.lt_irrefl _ earlier
  · exact UInt32.not_lt.mpr starts sooner
  · rw [← stops] at shorter
    have notShorter : (heads last).stop ≤ further.stop := by
      rcases lt_or_eq_of_le (meeting.heads_le next goesOn sameDoc last) with
        moved | same
      · -- A head that moved on was passed, so it lies between the two leads.
        have passed : heads last ≤ later.span := by
          by_contra ahead
          have ahead := lt_of_not_ge ahead
          have isOther : last ≠ later.child := by
            intro isLater
            have own := next.own
            rw [← isLater] at own
            rw [own] at moved
            exact lt_asymm ahead moved
          exact not_lt_of_ge (next.first last isOther _ (meeting.yielded last)
            ((meeting.inDoc last).trans sameDoc.symm) (.inl ahead)) moved
        have between := meeting.lead_le last
        have ownStop : later.span.stop ≤ further.stop := by
          rw [← next.own]
          exact isFurther.notAfter later.child
        have sameStarts : later.span.start = lead.span.start := by
          rw [← isFurther.start, ← isWindow.start, sameStart]
        have inDoc := meeting.inDoc last
        have bounds : (heads last).stop ≤ later.span.stop := by
          have notAfter : ¬ later.span < heads last := passed
          have notBefore : ¬ heads last < lead.span := between
          simp only [Span.lt_iff, inDoc, sameDoc, sameStarts] at notAfter notBefore
          grind
        exact UInt32.le_trans bounds ownStop
      · rw [same]
        exact isFurther.notAfter last
    exact UInt32.not_lt.mpr notShorter shorter

end Meeting

/-! ## The least child -/

namespace Lineup

/-- A child and its head. -/
def headAt (heads : Vector Span size) (child : Fin size) : Head (Fin size) :=
  ⟨heads[child], child⟩

/-- A fold that takes the lesser of two children keeps the first of several. -/
theorem headAt_foldl_lesser_le (heads : Vector Span size)
    (children : List (Fin size)) (start : Fin size)
    (sorted : children.Pairwise (· < ·))
    (after : ∀ child ∈ children, start ≤ child) :
    ∀ child ∈ start :: children,
      headAt heads (children.foldl (fun least child =>
        if heads[child] < heads[least] then child else least) start) ≤
          headAt heads child := by
  induction children generalizing start with
  | nil =>
      intro child member
      rw [List.mem_singleton.mp member]
      exact le_refl _
  | cons first rest ih =>
      obtain ⟨least, sortedRest⟩ := List.pairwise_cons.mp sorted
      intro child member
      simp only [List.foldl_cons]
      by_cases before : heads[first] < heads[start]
      · simp only [before, ↓reduceIte]
        have fromFirst := ih first sortedRest
          fun later isLater => le_of_lt (least later isLater)
        rcases List.mem_cons.mp member with rfl | inside
        · have replaced : headAt heads first < headAt heads child :=
            .inl before
          exact le_trans (fromFirst first List.mem_cons_self)
            (le_of_lt replaced)
        · exact fromFirst child inside
      · simp only [before, ↓reduceIte]
        have fromStart := ih start sortedRest
          fun later isLater => after later (List.mem_cons_of_mem _ isLater)
        have kept : headAt heads start ≤ headAt heads first := by
          rintro (less | ⟨_, earlier⟩)
          · exact before less
          · exact not_lt_of_ge (after first List.mem_cons_self) earlier
        rcases List.mem_cons.mp member with rfl | inside
        · exact fromStart child List.mem_cons_self
        · rcases List.mem_cons.mp inside with rfl | later
          · exact le_trans (fromStart start List.mem_cons_self) kept
          · exact fromStart child (List.mem_cons_of_mem _ later)

/-- The head of the least child comes before those of all others. -/
theorem headAt_leastChild_le (heads : Vector Span size) (filled : 0 < size)
    (child : Fin size) :
    headAt heads (leastChild heads filled) ≤ headAt heads child := by
  apply headAt_foldl_lesser_le heads (List.finRange size) ⟨0, filled⟩
  · exact List.pairwise_lt_finRange size
  · exact fun later _ => Fin.mk_le_of_le_val (Nat.zero_le _)
  · exact List.mem_cons_of_mem _ (List.mem_finRange child)

end Lineup

/-- The head of a child that is lined up is its first visit. -/
theorem Lined.exists_eq_cons (lined : Lined size) (child : Fin size) :
    ∃ visit rest, lined.left child = visit :: rest ∧
      visit.span = lined.spans[child] := by
  obtain ⟨rest, isLeft⟩ := List.head?_eq_some_iff.mp (lined.head?_left child)
  exact ⟨_, rest, isLeft, by simp [spans]⟩

/-! ## A search as a merge -/

namespace Nearness

/-- The spans of some visits, child by child. -/
def spansOf (all : Fin size → Visits) : Fin size → List Span :=
  fun child => (all child).map Visit.span

/-- A child and the span of one of its visits. -/
abbrev headOf (child : Fin size) (visit : Visit) : Head (Fin size) :=
  ⟨visit.span, child⟩

/--
In a merge of what the children yield in a document some visits were passed,
and they come before all that are left.
-/
structure Merging (doc : DocId) (all left : Fin size → Visits) : Prop where
  ordered : ∀ child, (all child).Ordered
  inDoc : ∀ child, ∀ visit ∈ all child, visit.doc = doc
  suffix : ∀ child, left child <:+ all child
  passed : ∀ child, ∀ visit ∈ all child, visit ∈ left child ∨
    ∀ other, ∀ later ∈ left other, headOf child visit < headOf other later

/-- A merge starts with all visits in a document. -/
theorem merging_within {all : Fin size → Visits}
    (ordered : ∀ child, (all child).Ordered) (doc : DocId) :
    Merging doc (within doc all) (within doc all) where
  ordered child := (ordered child).filter _
  inDoc _ _ member := (Visits.mem_inside.mp member).2
  suffix _ := List.suffix_rfl
  passed _ _ member := .inl member

variable {doc : DocId} {all left : Fin size → Visits} {filled : 0 < size}
  {rule : Nearness} {last? : Option Span} {lined : Lined size} {span : Span}

/-- Where a merge is. -/
def leadOf (filled : 0 < size) (lined : Lined size) : Head (Fin size) :=
  Lineup.headAt lined.spans (Lineup.leastChild lined.spans filled)

/-- A merge comes to the least of the visits left. -/
theorem leadOf_le (child : Fin size)
    (merging : Merging doc all lined.left) {visit : Visit}
    (member : visit ∈ lined.left child) :
    leadOf filled lined ≤ headOf child visit := by
  have least := Lineup.headAt_leastChild_le lined.spans filled child
  obtain ⟨first, rest, isLeft, isHead⟩ := lined.exists_eq_cons child
  apply le_trans least
  rw [isLeft] at member
  rcases List.mem_cons.mp member with rfl | later
  · rw [Lineup.headAt, ← isHead]
  · have suffix := merging.suffix child
    rw [isLeft] at suffix
    have ordered : Visits.Ordered (first :: rest) :=
      (merging.ordered child).sublist suffix.sublist
    have before : Lineup.headAt lined.spans child < headOf child visit := by
      refine .inl ?_
      rw [Lineup.headAt, ← isHead]
      exact ordered.head_lt later
    exact le_of_lt before

/-- The least of the visits left meets the first ones of the other children. -/
theorem Merging.meeting (merging : Merging doc all lined.left)
    (filled : 0 < size) :
    Meeting (spansOf all) (leadOf filled lined)
      fun child => lined.spans[child] := by
  have inAll : ∀ child : Fin size, ∃ visit ∈ all child,
      visit.span = lined.spans[child] := by
    intro child
    obtain ⟨visit, rest, isLeft, isHead⟩ := lined.exists_eq_cons child
    exact ⟨visit, (merging.suffix child).subset
      (isLeft ▸ List.mem_cons_self), isHead⟩
  have docs : ∀ child : Fin size, lined.spans[child].doc = doc := by
    intro child
    obtain ⟨visit, isVisit, isHead⟩ := inAll child
    rw [← isHead]
    exact merging.inDoc child visit isVisit
  constructor
  · rfl
  · intro child
    obtain ⟨visit, isVisit, isHead⟩ := inAll child
    exact List.mem_map.mpr ⟨visit, isVisit, isHead⟩
  · intro child
    exact (docs child).trans (docs _).symm
  · intro child other
    apply lt_of_le_of_ne
    · exact Lineup.headAt_leastChild_le lined.spans filled child
    · intro same
      exact other (congrArg Head.child same).symm
  · intro child _ span member _ toCome
    obtain ⟨visit, isVisit, rfl⟩ := List.mem_map.mp member
    obtain ⟨first, rest, isLeft, isHead⟩ := lined.exists_eq_cons child
    rw [← isHead]
    rcases merging.passed child visit isVisit with stays | before
    · rw [isLeft] at stays
      rcases List.mem_cons.mp stays with rfl | later
      · exact le_refl _
      · have suffix := merging.suffix child
        rw [isLeft] at suffix
        have ordered : Visits.Ordered (first :: rest) :=
          (merging.ordered child).sublist suffix.sublist
        exact le_of_lt (ordered.head_lt later)
    · obtain ⟨least, others, isLeast, isLead⟩ :=
        lined.exists_eq_cons (Lineup.leastChild lined.spans filled)
      have passed := before _ least (isLeast ▸ List.mem_cons_self)
      rw [headOf, headOf, isLead] at passed
      exact absurd toCome (lt_asymm passed)

theorem Merging.doc_leadOf (merging : Merging doc all lined.left) :
    (leadOf filled lined).span.doc = doc := by
  have meeting := merging.meeting filled
  obtain ⟨visit, isVisit, isLead⟩ := List.mem_map.mp
    (meeting.yielded (leadOf filled lined).child)
  rw [meeting.own] at isLead
  rw [← isLead]
  exact merging.inDoc _ visit isVisit

/-- While the lead of a meeting is left, so are the spans that it meets. -/
theorem Merging.left_of_meeting {lead : Head (Fin size)}
    {heads : Fin size → Span} (merging : Merging doc all left)
    (meeting : Meeting (spansOf all) lead heads)
    (leads : lead.span ∈ spansOf left lead.child) (child : Fin size) :
    heads child ∈ spansOf left child := by
  by_cases isLead : child = lead.child
  · rw [isLead, meeting.own]
    exact leads
  · obtain ⟨visit, isVisit, isHead⟩ :=
      List.mem_map.mp (meeting.yielded child)
    rcases merging.passed child visit isVisit with stays | before
    · exact List.mem_map.mpr ⟨visit, stays, isHead⟩
    · obtain ⟨first, isFirst, sameSpan⟩ := List.mem_map.mp leads
      have passed := before lead.child first isFirst
      have toCome := meeting.toCome child isLead
      rw [headOf, headOf, isHead, sameSpan] at passed
      exact absurd toCome (lt_asymm passed)

/-- What is left of a merge when it has passed the least of the visits. -/
abbrev passLeast (filled : 0 < size) (lined : Lined size) :
    Fin size → Visits :=
  pass (Lineup.leastChild lined.spans filled) lined.left

theorem tail_of_passLeast (filled : 0 < size) (lined : Lined size) :
    ∃ visit rest,
      lined.left (Lineup.leastChild lined.spans filled) = visit :: rest ∧
      headOf (Lineup.leastChild lined.spans filled) visit =
        leadOf filled lined ∧
      passLeast filled lined (Lineup.leastChild lined.spans filled) = rest := by
  obtain ⟨visit, rest, isLeft, isHead⟩ :=
    lined.exists_eq_cons (Lineup.leastChild lined.spans filled)
  refine ⟨visit, rest, isLeft, ?_, ?_⟩
  · rw [headOf, isHead]
    rfl
  · rw [passLeast, pass_self, isLeft, List.tail_cons]

theorem passLeast_of_ne {child : Fin size}
    (other : child ≠ Lineup.leastChild lined.spans filled) :
    passLeast filled lined child = lined.left child := by
  rw [passLeast, pass_of_ne other]

/-- What is left when a merge has passed the least visit comes after that. -/
theorem Merging.leadOf_lt (merging : Merging doc all lined.left)
    {child : Fin size} {visit : Visit}
    (member : visit ∈ passLeast filled lined child) :
    leadOf filled lined < headOf child visit := by
  by_cases isLead : child = Lineup.leastChild lined.spans filled
  · subst isLead
    obtain ⟨first, rest, isLeft, isHead, isRest⟩ :=
      tail_of_passLeast filled lined
    rw [isRest] at member
    have suffix := merging.suffix (Lineup.leastChild lined.spans filled)
    rw [isLeft] at suffix
    have ordered : Visits.Ordered (first :: rest) :=
      (merging.ordered _).sublist suffix.sublist
    rw [← isHead]
    exact .inl (ordered.head_lt member)
  · rw [passLeast_of_ne isLead] at member
    apply lt_of_le_of_ne (leadOf_le child merging member)
    intro same
    exact isLead (congrArg Head.child same).symm

/-- A merge goes on when the least of the visits left is passed. -/
theorem Merging.pass (merging : Merging doc all lined.left)
    (filled : 0 < size) : Merging doc all (passLeast filled lined) where
  ordered := merging.ordered
  inDoc := merging.inDoc
  suffix child := by
    by_cases isLead : child = Lineup.leastChild lined.spans filled
    · subst isLead
      obtain ⟨first, rest, isLeft, _, isRest⟩ := tail_of_passLeast filled lined
      have suffix := merging.suffix (Lineup.leastChild lined.spans filled)
      rw [isLeft] at suffix
      rw [isRest]
      exact (List.suffix_cons first rest).trans suffix
    · rw [passLeast_of_ne isLead]
      exact merging.suffix child
  passed child visit member := by
    have stillLeft : ∀ other, ∀ later ∈ passLeast filled lined other,
        later ∈ lined.left other := by
      intro other later isLater
      by_cases isLead : other = Lineup.leastChild lined.spans filled
      · rw [isLead] at isLater ⊢
        obtain ⟨first, rest, isLeft, _, isRest⟩ :=
          tail_of_passLeast filled lined
        rw [isRest] at isLater
        rw [isLeft]
        exact List.mem_cons_of_mem first isLater
      · rw [passLeast_of_ne isLead] at isLater
        exact isLater
    rcases merging.passed child visit member with stays | before
    · by_cases isLead : child = Lineup.leastChild lined.spans filled
      · subst isLead
        obtain ⟨first, rest, isLeft, isHead, isRest⟩ :=
          tail_of_passLeast filled lined
        rw [isLeft] at stays
        rcases List.mem_cons.mp stays with rfl | later
        · right
          intro other later isLater
          rw [isHead]
          exact merging.leadOf_lt isLater
        · rw [isRest]
          exact .inl later
      · rw [passLeast_of_ne isLead]
        exact .inl stays
    · right
      intro other later isLater
      exact before other later (stillLeft other later isLater)

/-! ## What a search in any order finds -/

/-- A span that is the window of a meeting, within the slop. -/
def Fitting (slop : Nat) (yields : Fin size → List Span)
    (lead : Head (Fin size)) (span : Span) : Prop :=
  ∃ heads, Meeting yields lead heads ∧ Window lead.span heads span ∧
    slack span heads ≤ slop

/-- The window of first visits fits if its slack is within the slop. -/
theorem fitting?_anyOrder (anyOrder : rule.arrangement = .anyOrder)
    (inDoc : (leadOf filled lined).span.doc = doc) :
    rule.fitting? filled doc lined = some span ↔
      Window (leadOf filled lined).span
          (fun child : Fin size => lined.spans[child]) span ∧
        slack span (fun child : Fin size => lined.spans[child]) ≤
          rule.slop := by
  obtain ⟨last, notAfter⟩ := Lineup.latestStop_spec lined.spans filled
  obtain ⟨window, bounded⟩ := Lineup.exists_window lined.spans
    (Lineup.leastChild lined.spans filled) doc
  obtain ⟨isDoc, isStart, isStop⟩ := Span.ofBounds?_eq_some bounded
  have isWindow : Window (leadOf filled lined).span
      (fun child : Fin size => lined.spans[child]) window := by
    constructor
    · exact isDoc.trans inDoc.symm
    · exact isStart
    · rw [isStop]
      exact last
    · rw [isStop]
      exact notAfter
  have fits : window.length ≤ rule.slop + Lineup.covered lined.spans ↔
      slack window (fun child : Fin size => lined.spans[child]) ≤
        rule.slop := by
    rw [Lineup.covered_eq_sum, slack]
    simp only [Span.length]
    omega
  rw [fitting?_of_anyOrder anyOrder bounded, Option.ite_none_right_eq_some]
  constructor
  · rintro ⟨within, ⟨rfl⟩⟩
    exact ⟨isWindow, fits.mp within⟩
  · rintro ⟨isSpan, within⟩
    cases isWindow.unique isSpan
    exact ⟨fits.mpr within, rfl⟩

/-- The least of the visits left fits as its meeting does. -/
theorem Merging.fitting_iff (merging : Merging doc all lined.left)
    (anyOrder : rule.arrangement = .anyOrder) :
    Fitting rule.slop (spansOf all) (leadOf filled lined) span ↔
      rule.fitting? filled doc lined = some span := by
  have meeting := merging.meeting filled
  rw [fitting?_anyOrder anyOrder merging.doc_leadOf]
  constructor
  · rintro ⟨heads, meets, fits⟩
    rw [meeting.unique meets]
    exact fits
  · intro fits
    exact ⟨_, meeting, fits⟩

/-- Of what is left, a merge comes to the least first and then to the rest. -/
theorem mem_spansOf_iff (filled : 0 < size) {lead : Head (Fin size)} :
    lead.span ∈ spansOf lined.left lead.child ↔
      lead = leadOf filled lined ∨
        lead.span ∈ spansOf (passLeast filled lined) lead.child := by
  obtain ⟨first, rest, isLeft, isHead, isRest⟩ := tail_of_passLeast filled lined
  by_cases isLead : lead.child = Lineup.leastChild lined.spans filled
  · rw [isLead, spansOf, spansOf, isLeft, isRest, List.map_cons,
      List.mem_cons, ← isHead, headOf]
    constructor
    · rintro (same | later)
      · left
        calc
          lead = ⟨lead.span, lead.child⟩ := rfl
          _ = ⟨first.span, Lineup.leastChild lined.spans filled⟩ := by
            rw [same, isLead]
      · exact .inr later
    · rintro (same | later)
      · exact .inl (congrArg Head.span same)
      · exact .inr later
  · rw [spansOf, spansOf, passLeast_of_ne isLead]
    constructor
    · exact .inr
    · rintro (same | later)
      · exact absurd (congrArg Head.child same) isLead
      · exact later

theorem lineUp?_anyOrder (anyOrder : rule.arrangement = .anyOrder) :
    rule.lineUp? filled left = Lined.of? left := by
  unfold lineUp?
  rw [anyOrder]

/-- What is not before a new match is new as well. -/
theorem isNew_of_le {later : Span} (new : isNew last? span)
    (notBefore : span ≤ later) : isNew last? later := by
  cases last? with
  | none => rfl
  | some last =>
      exact decide_eq_true (lt_of_lt_of_le (of_decide_eq_true new) notBefore)

/-- What comes after a new match is new. -/
theorem isNew_trans {later : Span} (new : isNew last? span)
    (after : isNew (some span) later) : isNew last? later :=
  isNew_of_le new (le_of_lt (of_decide_eq_true after))

/--
A search in any order answers the windows of the meetings to come that are
within the slop, but for those that do not come after the last match.
-/
theorem Merging.mem_slide (anyOrder : rule.arrangement = .anyOrder)
    (merging : Merging doc all left) :
    span ∈ (rule.slide filled doc last? left).map Visit.span ↔
      isNew last? span ∧ ∃ lead : Head (Fin size),
        lead.span ∈ spansOf left lead.child ∧
          Fitting rule.slop (spansOf all) lead span := by
  have pivots : ∀ lined, rule.pivot filled lined =
      Lineup.leastChild lined.spans filled := by
    intro lined
    unfold pivot
    rw [anyOrder]
  fun_induction slide rule filled doc last? left with
  | case1 last? left ended =>
      rw [lineUp?_anyOrder anyOrder] at ended
      constructor
      · exact fun none => absurd none List.not_mem_nil
      · rintro ⟨_, lead, leads, heads, meeting, _⟩
        have visited : ∀ child, left child ≠ [] := by
          intro child none
          have isLeft := merging.left_of_meeting meeting leads child
          rw [spansOf, none] at isLeft
          exact List.not_mem_nil isLeft
        unfold Lined.of? at ended
        rw [dif_pos visited] at ended
        cases ended
  | case2 last? left lined found shorter misses ih =>
      rw [lineUp?_anyOrder anyOrder, Lined.of?_eq_some_iff] at found
      subst found
      simp only [pivots] at ih ⊢
      apply (ih (merging.pass filled)).trans
      constructor
      · rintro ⟨new, lead, leads, fits⟩
        exact ⟨new, lead, (mem_spansOf_iff filled).mpr (.inr leads), fits⟩
      · rintro ⟨new, lead, leads, fits⟩
        rcases (mem_spansOf_iff filled).mp leads with rfl | later
        · rw [(merging.fitting_iff anyOrder).mp fits,
            Option.filter_some, if_pos new] at misses
          cases misses
        · exact ⟨new, lead, later, fits⟩
  | case3 last? left lined found shorter window hits ih =>
      rw [lineUp?_anyOrder anyOrder, Lined.of?_eq_some_iff] at found
      subst found
      obtain ⟨isFitting, isLater⟩ := Option.filter_eq_some_iff.mp hits
      obtain ⟨heads, meeting, isWindow, _⟩ :=
        (merging.fitting_iff anyOrder).mpr isFitting
      simp only [pivots] at ih ⊢
      rw [List.map_cons, List.mem_cons]
      apply (or_congr_right (ih (merging.pass filled))).trans
      constructor
      · rintro (rfl | ⟨new, lead, leads, fits⟩)
        · exact ⟨isLater, leadOf filled lined,
            (mem_spansOf_iff filled).mpr (.inl rfl),
            (merging.fitting_iff anyOrder).mpr isFitting⟩
        · exact ⟨isNew_trans isLater new, lead,
            (mem_spansOf_iff filled).mpr (.inr leads), fits⟩
      · rintro ⟨new, lead, leads, fits⟩
        rcases (mem_spansOf_iff filled).mp leads with rfl | later
        · have same := (merging.fitting_iff anyOrder).mp fits
          rw [isFitting] at same
          exact .inl (Option.some.inj same).symm
        · -- A later window is no earlier one, so it is new or a repetition.
          obtain ⟨others, meets, isFurther, within⟩ := fits
          obtain ⟨visit, isVisit, isLead⟩ := List.mem_map.mp later
          have goesOn := merging.leadOf_lt isVisit
          rw [headOf, isLead] at goesOn
          have inDoc := merging.inDoc _ visit
            ((merging.pass filled).suffix _ |>.subset isVisit)
          have sameDoc : lead.span.doc = (leadOf filled lined).span.doc := by
            rw [← isLead, merging.doc_leadOf]
            exact inDoc
          have notBack :=
            meeting.window_le meets goesOn sameDoc isWindow isFurther
          rcases lt_or_eq_of_le notBack with after | same
          · exact .inr ⟨decide_eq_true after, lead, later, others, meets,
              isFurther, within⟩
          · exact .inl same.symm

/-- What is yielded in a document are the spans there. -/
theorem mem_spansOf_within {child : Fin size} :
    span ∈ spansOf (within doc all) child ↔
      span ∈ spansOf all child ∧ span.doc = doc := by
  simp only [spansOf, within, List.mem_map, Visits.mem_inside]
  constructor
  · rintro ⟨visit, ⟨isVisit, isDoc⟩, rfl⟩
    exact ⟨⟨visit, isVisit, rfl⟩, isDoc⟩
  · rintro ⟨⟨visit, isVisit, rfl⟩, isDoc⟩
    exact ⟨visit, ⟨isVisit, isDoc⟩, rfl⟩

/-- A span is one of the matches if it is one of those in its document. -/
theorem mem_map_allMatches (filled : 0 < size) :
    span ∈ (rule.allMatches all).map Visit.span ↔
      span ∈ (rule.slide filled span.doc none
        (within span.doc all)).map Visit.span := by
  simp only [List.mem_map]
  constructor
  · rintro ⟨visit, member, rfl⟩
    exact ⟨visit, (mem_allMatches filled).mp member, rfl⟩
  · rintro ⟨visit, member, rfl⟩
    exact ⟨visit, (mem_allMatches filled).mpr member, rfl⟩

/-- What meets in a document is what meets of the spans there. -/
theorem meeting_within {lead : Head (Fin size)} {heads : Fin size → Span} :
    Meeting (spansOf (within doc all)) lead heads ↔
      lead.span.doc = doc ∧ Meeting (spansOf all) lead heads := by
  constructor
  · intro meeting
    have isDoc : lead.span.doc = doc := by
      rw [← meeting.own]
      exact (mem_spansOf_within.mp (meeting.yielded lead.child)).2
    refine ⟨isDoc, meeting.own, fun child => ?_, meeting.inDoc,
      meeting.toCome, fun child other span isSpan sameDoc => ?_⟩
    · exact (mem_spansOf_within.mp (meeting.yielded child)).1
    · exact meeting.first child other span
        (mem_spansOf_within.mpr ⟨isSpan, sameDoc.trans isDoc⟩) sameDoc
  · rintro ⟨isDoc, meeting⟩
    refine ⟨meeting.own, fun child => ?_, meeting.inDoc, meeting.toCome,
      fun child other span isSpan => ?_⟩
    · exact mem_spansOf_within.mpr
        ⟨meeting.yielded child, (meeting.inDoc child).trans isDoc⟩
    · exact meeting.first child other span (mem_spansOf_within.mp isSpan).1

/-- The matches in any order are the windows of meetings within the slop. -/
theorem mem_allMatches_anyOrder (anyOrder : rule.arrangement = .anyOrder)
    (ordered : ∀ child, (all child).Ordered) :
    span ∈ (rule.allMatches all).map Visit.span ↔
      ∃ lead, Fitting rule.slop (spansOf all) lead span := by
  by_cases filled : 0 < size
  · rw [mem_map_allMatches filled,
      (merging_within ordered span.doc).mem_slide anyOrder]
    constructor
    · rintro ⟨_, lead, _, heads, meeting, fits⟩
      exact ⟨lead, heads, (meeting_within.mp meeting).2, fits⟩
    · rintro ⟨lead, heads, meeting, isWindow, within⟩
      have meets := meeting_within.mpr ⟨isWindow.doc.symm, meeting⟩
      refine ⟨rfl, lead, ?_, heads, meets, isWindow, within⟩
      rw [← meets.own]
      exact meets.yielded lead.child
  · rw [allMatches, dif_neg filled]
    constructor
    · exact fun none => absurd none List.not_mem_nil
    · rintro ⟨lead, _⟩
      exact absurd (Nat.lt_of_le_of_lt (Nat.zero_le _) lead.child.isLt) filled

end Nearness

end PositionalSearch
