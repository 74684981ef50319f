import Mathlib.Algebra.BigOperators.Fin
import Mathlib.Data.Fintype.EquivFin
import Mathlib.Data.Fintype.Lattice
import PositionalSearch.Proofs.Follow.Query
import PositionalSearch.Proofs.Near.Merge
import PositionalSearch.Proofs.Window

/-!
# What is found in any order

Without faults a node in any order answers the windows of a merge that are
within the slop.  Such a window covers a span of each child, but the children
may have spans within the slop that the merge never brings together: where a
child has one span inside a longer one, the merge can be over before it comes
to the longer.  Where no child has a longer span after a shorter one, and for
two children at most, nothing is missed.
-/

namespace PositionalSearch

variable {size : Nat} {yields : Fin size → List Span}
  {lead : Head (Fin size)} {heads chosen : Fin size → Span}
  {window hull : Span} {doc : DocId} {slop : Nat}

/-! ## Windows and the spans that they cover -/

/-- A meeting covers its spans with its window, within the slop. -/
theorem Meeting.covers (meeting : Meeting yields lead heads)
    (isWindow : Window lead.span heads window)
    (within : slack window heads ≤ slop) : Covers slop window heads where
  doc child := (meeting.inDoc child).trans isWindow.doc.symm
  starts := ⟨lead.child, by rw [meeting.own, isWindow.start]⟩
  notBefore child := by
    rw [isWindow.start]
    rcases lt_or_eq_of_le (meeting.lead_le child) with before | same
    · exact Span.start_le_of_lt before (meeting.inDoc child).symm
    · exact UInt32.le_of_eq (congrArg Span.start same)
  stops := isWindow.stops
  notAfter := isWindow.notAfter
  slack := by
    rw [PositionalSearch.slack] at within
    omega

/-- Spans have a window from the start of each of them on. -/
theorem exists_window_of_own (own : heads lead.child = lead.span) :
    ∃ window, Window lead.span heads window := by
  have : Nonempty (Fin size) := ⟨lead.child⟩
  obtain ⟨last, isLast⟩ :=
    Finite.exists_max fun child => (heads child).stop.toNat
  have ordered : lead.span.start ≤ (heads last).stop := by
    have ownBounds := lead.span.start_le_stop
    have atMost := isLast lead.child
    rw [own] at atMost
    rw [UInt32.le_iff_toNat_le] at ownBounds ⊢
    exact Nat.le_trans ownBounds atMost
  refine ⟨⟨lead.span.doc, lead.span.start, (heads last).stop, ordered⟩,
    rfl, rfl, ⟨last, rfl⟩, fun child => ?_⟩
  rw [UInt32.le_iff_toNat_le]
  exact isLast child

/-! ## From chosen spans to a meeting -/

/-- Of the spans in a list with a property, one is the least. -/
theorem exists_least (holds : Span → Prop) {list : List Span}
    (some : ∃ span ∈ list, holds span) :
    ∃ span ∈ list, holds span ∧ ∀ other ∈ list, holds other → span ≤ other := by
  classical
  obtain ⟨span, member, isHolding⟩ := some
  obtain ⟨least, isLeast, below⟩ := Finset.exists_min_image
    (list.toFinset.filter holds) id ⟨span, by simp [member, isHolding]⟩
  simp only [Finset.mem_filter, List.mem_toFinset, id] at isLeast below
  exact ⟨least, isLeast.1, isLeast.2,
    fun other isOther holds => below other ⟨isOther, holds⟩⟩

/-- Chosen spans of one document lead a merge to a meeting before them. -/
theorem exists_meeting_le (filled : 0 < size)
    (yielded : ∀ child, chosen child ∈ yields child)
    (inDoc : ∀ child, (chosen child).doc = doc) :
    ∃ lead heads, Meeting yields lead heads ∧ lead.span.doc = doc ∧
      chosen lead.child = lead.span ∧
      (∀ child, lead.span ≤ chosen child) ∧
      ∀ child, heads child ≤ chosen child := by
  have : Nonempty (Fin size) := ⟨⟨0, filled⟩⟩
  obtain ⟨first, isFirst⟩ := Finite.exists_min fun child =>
    (⟨chosen child, child⟩ : Head (Fin size))
  have toCome : ∀ child, child ≠ first → (⟨chosen first, first⟩ :
      Head (Fin size)) < ⟨chosen child, child⟩ := by
    intro child other
    apply lt_of_le_of_ne (isFirst child)
    intro same
    exact other (congrArg Head.child same).symm
  have nearest : ∀ child, ∃ span ∈ yields child,
      (child = first → span = chosen first) ∧
      (child ≠ first → span.doc = doc ∧
        (⟨chosen first, first⟩ : Head (Fin size)) < ⟨span, child⟩ ∧
        ∀ other ∈ yields child, other.doc = doc →
          (⟨chosen first, first⟩ : Head (Fin size)) < ⟨other, child⟩ →
            span ≤ other) := by
    intro child
    by_cases isFirst : child = first
    · exact ⟨chosen first, isFirst ▸ yielded first, fun _ => rfl,
        fun other => absurd isFirst other⟩
    · obtain ⟨span, member, ⟨isDoc, later⟩, least⟩ := exists_least
        (fun span => span.doc = doc ∧
          (⟨chosen first, first⟩ : Head (Fin size)) < ⟨span, child⟩)
        ⟨chosen child, yielded child, inDoc child, toCome child isFirst⟩
      exact ⟨span, member, fun same => absurd same isFirst,
        fun _ => ⟨isDoc, later, fun other isOther otherDoc otherLater =>
          least other isOther ⟨otherDoc, otherLater⟩⟩⟩
  choose heads member own others using nearest
  refine ⟨⟨chosen first, first⟩, heads, ?_, inDoc first, rfl, ?_, ?_⟩
  · constructor
    · exact own first rfl
    · exact member
    · intro child
      by_cases isFirst : child = first
      · rw [own child isFirst]
      · exact (others child isFirst).1.trans (inDoc first).symm
    · exact fun child other => (others child other).2.1
    · intro child other span isSpan isDoc later
      exact (others child other).2.2 span isSpan
        (isDoc.trans (inDoc first)) later
  · exact fun child => Head.span_le_of_le (isFirst child)
  · intro child
    by_cases isFirst : child = first
    · rw [own child isFirst, isFirst]
    · exact (others child isFirst).2.2 _ (yielded child) (inDoc child)
        (toCome child isFirst)

/-! ## Slack -/

/-- What covers spans starts with the first of them. -/
theorem Covers.start_eq (covers : Covers slop hull chosen)
    (own : chosen lead.child = lead.span)
    (leads : ∀ child, lead.span ≤ chosen child) :
    hull.start = lead.span.start := by
  apply UInt32.le_antisymm
  · rw [← own]
    exact covers.notBefore lead.child
  · obtain ⟨child, starts⟩ := covers.starts
    rw [← starts]
    rcases lt_or_eq_of_le (leads child) with before | same
    · rw [← own] at before ⊢
      exact Span.start_le_of_lt before
        ((covers.doc _).trans (covers.doc child).symm)
    · exact UInt32.le_of_eq (congrArg Span.start same)

/-- If no length grows, and that of one child by some, the sum falls by that. -/
theorem sum_add_le_sum_add {lesser greater : Fin size → Nat}
    (below : ∀ child, lesser child ≤ greater child) (child : Fin size) :
    ((List.finRange size).map lesser).sum + greater child ≤
      ((List.finRange size).map greater).sum + lesser child := by
  rw [← Fin.sum_univ_def, ← Fin.sum_univ_def,
    ← Finset.add_sum_erase _ lesser (Finset.mem_univ child),
    ← Finset.add_sum_erase _ greater (Finset.mem_univ child)]
  have others := Finset.sum_le_sum fun other
    (_ : other ∈ Finset.univ.erase child) => below other
  omega

/--
To take for chosen spans earlier ones that are no shorter adds no slack: what
the window gains at its stop, the span that stops there has gained in length.
-/
theorem slack_le_of_length_le (isWindow : Window lead.span heads window)
    (starts : hull.start = lead.span.start)
    (notAfter : ∀ child, (chosen child).stop ≤ hull.stop)
    (earlier : ∀ child, (heads child).start ≤ (chosen child).start)
    (noShorter : ∀ child, (chosen child).length ≤ (heads child).length) :
    slack window heads ≤ slack hull chosen := by
  obtain ⟨last, stops⟩ := isWindow.stops
  have lengths := sum_add_le_sum_add noShorter last
  have hullStops := UInt32.le_iff_toNat_le.mp (notAfter last)
  have headStarts := UInt32.le_iff_toNat_le.mp (earlier last)
  have headBounds := UInt32.le_iff_toNat_le.mp (heads last).start_le_stop
  have chosenBounds := UInt32.le_iff_toNat_le.mp (chosen last).start_le_stop
  have windowBounds := UInt32.le_iff_toNat_le.mp window.start_le_stop
  have hullBounds := UInt32.le_iff_toNat_le.mp hull.start_le_stop
  have windowStop := congrArg UInt32.toNat stops
  have windowStart := congrArg UInt32.toNat isWindow.start
  have hullStart := congrArg UInt32.toNat starts
  simp only [slack, Span.length] at lengths ⊢
  omega

/-- Two children at most have no more slack at a meeting than later on. -/
theorem slack_le_of_size_le_two (few : size ≤ 2)
    (isWindow : Window lead.span heads window)
    (own : heads lead.child = lead.span)
    (chosenOwn : chosen lead.child = lead.span)
    (starts : hull.start = lead.span.start)
    (notAfter : ∀ child, (chosen child).stop ≤ hull.stop)
    (earlier : ∀ child, (heads child).start ≤ (chosen child).start)
    (within : slack hull chosen ≤ slop) : slack window heads ≤ slop := by
  have windowStart := congrArg UInt32.toNat isWindow.start
  have hullStart := congrArg UInt32.toNat starts
  have ownStart := congrArg (fun span => span.start.toNat) own
  have chosenStart := congrArg (fun span => span.start.toNat) chosenOwn
  have sameStop := congrArg (fun span => span.stop.toNat)
    (chosenOwn.trans own.symm)
  obtain ⟨last, stops⟩ := isWindow.stops
  have windowStop := congrArg UInt32.toNat stops
  have bounds := fun child =>
    UInt32.le_iff_toNat_le.mp (heads child).start_le_stop
  have chosenBounds := fun child =>
    UInt32.le_iff_toNat_le.mp (chosen child).start_le_stop
  have headStarts := fun child => UInt32.le_iff_toNat_le.mp (earlier child)
  have hullStops := fun child => UInt32.le_iff_toNat_le.mp (notAfter child)
  have filled : 0 < size := Nat.lt_of_le_of_lt (Nat.zero_le _) last.isLt
  simp only [slack] at within ⊢
  obtain rfl | rfl : size = 1 ∨ size = 2 := by omega
  · have single : ∀ lengths : Fin 1 → Nat,
        ((List.finRange 1).map lengths).sum = lengths 0 := by
      simp [List.finRange_succ]
    have isFirst : lead.child = 0 := Subsingleton.elim _ _
    have isLast : last = 0 := Subsingleton.elim _ _
    have firstBounds := bounds 0
    rw [single] at within ⊢
    rw [isFirst] at ownStart
    rw [isLast] at windowStop
    omega
  · have pair : ∀ lengths : Fin 2 → Nat,
        ((List.finRange 2).map lengths).sum = lengths 0 + lengths 1 := by
      simp [List.finRange_succ]
    have firstBounds := bounds 0
    have secondBounds := bounds 1
    have firstChosen := chosenBounds 0
    have secondChosen := chosenBounds 1
    have firstStarts := headStarts 0
    have secondStarts := headStarts 1
    have firstStops := hullStops 0
    have secondStops := hullStops 1
    rw [pair] at within ⊢
    obtain isLead | isLead : lead.child = 0 ∨ lead.child = 1 := by omega
    all_goals
      rw [isLead] at ownStart chosenStart sameStop
      obtain isLast | isLast : last = 0 ∨ last = 1 := by omega
      all_goals
        rw [isLast] at windowStop
        omega

/--
In a document the spans of a child do not get longer: none of them is followed
by a longer one.
-/
def NeverLonger (doc : DocId) (yield : List Span) : Prop :=
  ∀ earlier ∈ yield, ∀ later ∈ yield, earlier.doc = doc → later.doc = doc →
    earlier ≤ later → later.length ≤ earlier.length

/-- Where no child has a longer span to come, chosen spans have a meeting. -/
theorem exists_fitting_of_covers
    (straight : size ≤ 2 ∨ ∀ child, NeverLonger doc (yields child))
    (yielded : ∀ child, chosen child ∈ yields child)
    (covers : Covers slop hull chosen) (isDoc : hull.doc = doc) :
    ∃ lead span, span.doc = doc ∧
      Nearness.Fitting slop yields lead span := by
  have inDoc : ∀ child, (chosen child).doc = doc := fun child =>
    (covers.doc child).trans isDoc
  obtain ⟨some, _⟩ := covers.starts
  have filled : 0 < size := Nat.lt_of_le_of_lt (Nat.zero_le _) some.isLt
  obtain ⟨lead, heads, meeting, leadDoc, chosenOwn, leads, headsLe⟩ :=
    exists_meeting_le filled yielded inDoc
  obtain ⟨window, isWindow⟩ := exists_window_of_own meeting.own
  have starts := covers.start_eq chosenOwn leads
  have earlier : ∀ child, (heads child).start ≤ (chosen child).start := by
    intro child
    rcases lt_or_eq_of_le (headsLe child) with before | same
    · exact Span.start_le_of_lt before
        ((meeting.inDoc child).trans (leadDoc.trans (inDoc child).symm))
    · exact UInt32.le_of_eq (congrArg Span.start same)
  have chosenWithin : slack hull chosen ≤ slop := by
    have within := covers.slack
    rw [slack]
    omega
  refine ⟨lead, window, isWindow.doc.trans leadDoc, heads, meeting,
    isWindow, ?_⟩
  rcases straight with few | never
  · exact slack_le_of_size_le_two few isWindow meeting.own chosenOwn starts
      covers.notAfter earlier chosenWithin
  · refine le_trans (slack_le_of_length_le isWindow starts covers.notAfter
      earlier fun child => ?_) chosenWithin
    exact never child _ (meeting.yielded child) _ (yielded child)
      ((meeting.inDoc child).trans leadDoc) (inDoc child) (headsLe child)

/-! ## Queries in any order -/

namespace Query

variable {children : List Query}

/--
A node in any order answers, in ascending order, the windows within the slop
of all meetings of its children, and nothing else.  From one meeting to the
next windows do not go back, so only repetitions are left out.
-/
theorem anyOrder_drains_windows
    (faultFree : ∀ child ∈ children, child.FaultFree) (slop : Nat)
    (collects : Bool) :
    ∃ (yields : Fin children.length → List Span) (spans : List Span),
      (∀ child, Walk.drain (children.get child).openTree =
        .ok (yields child)) ∧
      Walk.drain (proximity .anyOrder slop collects children).openTree =
        .ok spans ∧
      spans.Pairwise (· < ·) ∧
      (∀ span, span ∈ spans ↔ ∃ lead heads, Meeting yields lead heads ∧
        Window lead.span heads span ∧ slack span heads ≤ slop) ∧
      ∀ lead heads window later others further,
        Meeting yields lead heads → Window lead.span heads window →
        Meeting yields later others → Window later.span others further →
        later.span.doc = lead.span.doc → lead < later →
          window ≤ further := by
  have ordered : ∀ child : Fin children.length,
      (children.get child).visits.Ordered := fun child => ordered_visits _
  refine ⟨Nearness.spansOf fun child => (children.get child).visits, _,
    fun child => drain_openTree (faultFree _ (List.get_mem _ _)),
    drain_openTree (.proximity _ _ _ faultFree), ?_, ?_, ?_⟩
  · exact List.pairwise_map.mpr (ordered_visits _)
  · intro span
    rw [visits_proximity, Nearness.mem_allMatches_anyOrder rfl ordered]
    rfl
  · intro lead heads window later others further meeting isWindow next
      isFurther sameDoc goesOn
    exact meeting.window_le next goesOn sameDoc isWindow isFurther

/-- A query for the given spans of one document, if they are in order. -/
def spread (doc : DocId) (bounds : List (Position × Position)) : Query :=
  match Listing.ofEntries? (bounds.filterMap fun (start, stop) =>
      (Span.ofBounds? doc start stop).map fun span => ⟨span, none⟩) with
  | some listing => .listed listing
  | none => .nothing

theorem faultFree_spread (doc : DocId) (bounds : List (Position × Position)) :
    (spread doc bounds).FaultFree := by
  unfold spread
  split
  · exact .listed _
  · exact .nothing

/-- Two spans of one child begin where the one span of another does. -/
def nested : List Query := [spread 1 [(0, 1), (0, 3)], spread 1 [(0, 3)]]

theorem faultFree_nested : ∀ child ∈ nested, child.FaultFree :=
  forall_mem_pair (faultFree_spread _ _) (faultFree_spread _ _)

/-- Of two meetings with one window only the first is answered. -/
theorem nested_drains_window :
    (∀ child ∈ nested, child.FaultFree) ∧
      Walk.drain (proximity .anyOrder 0 false nested).openTree =
        .ok [⟨1, 0, 3, by decide⟩] ∧
      ∃ (yields : Fin nested.length → List Span) (lead : Head (Fin nested.length))
        (heads : Fin nested.length → Span),
        (∀ child, Walk.drain (nested.get child).openTree =
          .ok (yields child)) ∧
        Meeting yields lead heads ∧
        Window lead.span heads ⟨1, 0, 3, by decide⟩ ∧
        slack ⟨1, 0, 3, by decide⟩ heads ≤ (0 : Nat) := by
  have drained : Walk.drain (proximity .anyOrder 0 false nested).openTree =
      .ok [⟨1, 0, 3, by decide⟩] := by
    cbv
  obtain ⟨yields, spans, own, isDrained, _, windows, _⟩ :=
    anyOrder_drains_windows faultFree_nested 0 false
  rw [drained, Except.ok.injEq] at isDrained
  subst isDrained
  obtain ⟨lead, heads, meets⟩ := (windows _).mp List.mem_cons_self
  exact ⟨faultFree_nested, drained, yields, lead, heads, own, meets⟩

/--
A node in any order answers in a document only if spans of its children there
are within the slop; it does answer then, if the children are two at most or
their spans there do not get longer.
-/
theorem anyOrder_reaches_document
    (faultFree : ∀ child ∈ children, child.FaultFree) (slop : Nat)
    (collects : Bool) :
    ∃ (yields : Fin children.length → List Span) (spans : List Span),
      (∀ child, Walk.drain (children.get child).openTree =
        .ok (yields child)) ∧
      Walk.drain (proximity .anyOrder slop collects children).openTree =
        .ok spans ∧
      ∀ doc, ((∃ span ∈ spans, span.doc = doc) →
          ∃ chosen hull, (∀ child, chosen child ∈ yields child) ∧
            Covers slop hull chosen ∧ hull.doc = doc) ∧
        (children.length ≤ 2 ∨ (∀ child, NeverLonger doc (yields child)) →
          (∃ chosen hull, (∀ child, chosen child ∈ yields child) ∧
            Covers slop hull chosen ∧ hull.doc = doc) →
          ∃ span ∈ spans, span.doc = doc) := by
  have ordered : ∀ child : Fin children.length,
      (children.get child).visits.Ordered := fun child => ordered_visits _
  refine ⟨Nearness.spansOf fun child => (children.get child).visits, _,
    fun child => drain_openTree (faultFree _ (List.get_mem _ _)),
    drain_openTree (.proximity _ _ _ faultFree), fun doc => ⟨?_, ?_⟩⟩
  · rintro ⟨span, member, isDoc⟩
    rw [visits_proximity, Nearness.mem_allMatches_anyOrder rfl ordered]
      at member
    obtain ⟨lead, heads, meeting, isWindow, within⟩ := member
    exact ⟨heads, span, meeting.yielded, meeting.covers isWindow within, isDoc⟩
  · rintro straight ⟨chosen, hull, yielded, covers, isDoc⟩
    obtain ⟨lead, span, spanDoc, fits⟩ :=
      exists_fitting_of_covers straight yielded covers isDoc
    refine ⟨span, ?_, spanDoc⟩
    rw [visits_proximity, Nearness.mem_allMatches_anyOrder rfl ordered]
    exact ⟨lead, fits⟩

/-- The second span of the first child is longer, and nearer to the other. -/
def stretched : List Query := [spread 1 [(0, 1), (0, 3)], spread 1 [(5, 6)]]

theorem faultFree_stretched : ∀ child ∈ stretched, child.FaultFree :=
  forall_mem_pair (faultFree_spread _ _) (faultFree_spread _ _)

/-- Two children are brought together at the longer span of the first. -/
theorem stretched_reaches_document :
    (∀ child ∈ stretched, child.FaultFree) ∧ stretched.length ≤ 2 ∧
      Walk.drain (proximity .anyOrder 2 false stretched).openTree =
        .ok [⟨1, 0, 6, by decide⟩] ∧
      ∃ (yields : Fin stretched.length → List Span)
        (chosen : Fin stretched.length → Span) (hull : Span),
        (∀ child, Walk.drain (stretched.get child).openTree =
          .ok (yields child)) ∧
        (∀ child, chosen child ∈ yields child) ∧
        Covers 2 hull chosen ∧ hull.doc = 1 := by
  have drained : Walk.drain (proximity .anyOrder 2 false stretched).openTree =
      .ok [⟨1, 0, 6, by decide⟩] := by
    cbv
  obtain ⟨yields, spans, own, isDrained, reaches⟩ :=
    anyOrder_reaches_document faultFree_stretched 2 false
  rw [drained, Except.ok.injEq] at isDrained
  subst isDrained
  obtain ⟨chosen, hull, found⟩ :=
    (reaches 1).1 ⟨_, List.mem_cons_self, rfl⟩
  exact ⟨faultFree_stretched, by decide, drained, yields, chosen, hull, own,
    found⟩

/-- The second child has a longer span to come when the first has no more. -/
def overtaken : List Query :=
  [spread 1 [(0, 1)], spread 1 [(3, 4), (3, 10)], spread 1 [(9, 10)]]

/--
With three children a document is missed: its only spans within the slop need
the longer span of the second child, and the search is over before it.
-/
theorem overtaken_misses_document :
    Walk.drain (proximity .anyOrder 1 false overtaken).openTree = .ok [] ∧
      ∃ (yields : Fin overtaken.length → List Span)
        (chosen : Fin overtaken.length → Span) (hull : Span),
        (∀ child, Walk.drain (overtaken.get child).openTree =
          .ok (yields child)) ∧
        (∀ child, chosen child ∈ yields child) ∧
        Covers 1 hull chosen ∧ hull.doc = 1 := by
  refine ⟨by cbv, ![[⟨1, 0, 1, by decide⟩],
    [⟨1, 3, 4, by decide⟩, ⟨1, 3, 10, by decide⟩], [⟨1, 9, 10, by decide⟩]],
    ![⟨1, 0, 1, by decide⟩, ⟨1, 3, 10, by decide⟩, ⟨1, 9, 10, by decide⟩],
    ⟨1, 0, 10, by decide⟩, ?_, ?_, ?_, rfl⟩
  · intro child
    obtain ⟨_ | _ | _ | place, inside⟩ := child
    · cbv
    · cbv
    · cbv
    · exact absurd inside (Nat.not_lt.mpr (Nat.le_add_left 3 place))
  · change ∀ child : Fin 3, _
    decide
  · constructor
    · change ∀ child : Fin 3, _
      decide
    · exact ⟨(0 : Fin 3), rfl⟩
    · change ∀ child : Fin 3, _
      decide
    · exact ⟨(1 : Fin 3), rfl⟩
    · change ∀ child : Fin 3, _
      decide
    · decide

end Query

end PositionalSearch
