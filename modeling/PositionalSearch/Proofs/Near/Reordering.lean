import PositionalSearch.Proofs.Near.AnyOrder

/-!
# Children in another order

A merge takes equal spans of several children in the order of the children.
One of them moves on from its span while the others stay on theirs, and the
window around the spans then depends on which of them moved on first.  All
other windows are the same whatever the order of the children, so the order
does not matter where no two children yield one span.
-/

namespace PositionalSearch

variable {size count : Nat} {yields : Fin size → List Span}
  {others : Fin count → List Span} {lead : Head (Fin size)}
  {heads : Fin size → Span} {window : Span} {slop : Nat}

/-! ## Children that part -/

/--
One of the children that yield a span stays on it, and another one has moved
on from it.
-/
structure Parted (yields : Fin size → List Span) (least : Span)
    (heads : Fin size → Span) : Prop where
  yielded : ∀ child, heads child ∈ yields child
  stays : ∃ child, heads child = least
  movedOn : ∃ child, least ∈ yields child ∧ least < heads child

/-- A window within the slop around spans whose children have parted. -/
def Uneven (slop : Nat) (yields : Fin size → List Span) (window : Span) :
    Prop :=
  ∃ least heads, Parted yields least heads ∧ Window least heads window ∧
    slack window heads ≤ slop

/-- Children part only from a span that two of them yield. -/
theorem Uneven.exists_shared (uneven : Uneven slop yields window) :
    ∃ one other, one ≠ other ∧ ∃ span ∈ yields one, span ∈ yields other := by
  obtain ⟨least, heads, parted, _⟩ := uneven
  obtain ⟨stays, isLeast⟩ := parted.stays
  obtain ⟨moved, isYielded, ahead⟩ := parted.movedOn
  refine ⟨stays, moved, ?_, least, isLeast ▸ parted.yielded stays, isYielded⟩
  rintro rfl
  exact absurd isLeast (ne_of_gt ahead)

/-! ## Numbering children anew -/

variable (number : Fin size ≃ Fin count)

/-- A window does not depend on how children are numbered. -/
theorem Window.renumber {least : Span} (isWindow : Window least heads window) :
    Window least (heads ∘ number.symm) window where
  doc := isWindow.doc
  start := isWindow.start
  stops := by
    obtain ⟨last, stops⟩ := isWindow.stops
    exact ⟨number last, by simpa using stops⟩
  notAfter child := isWindow.notAfter (number.symm child)

/-- Slack does not depend on how children are numbered. -/
theorem slack_renumber (window : Span) (heads : Fin size → Span) :
    slack window (heads ∘ number.symm) = slack window heads := by
  have lengths : ((List.finRange count).map fun child =>
      ((heads ∘ number.symm) child).stop.toNat -
        ((heads ∘ number.symm) child).start.toNat).sum =
        ((List.finRange size).map fun child =>
          (heads child).stop.toNat - (heads child).start.toNat).sum := by
    rw [← Fin.sum_univ_def, ← Fin.sum_univ_def]
    exact Equiv.sum_comp number.symm fun child =>
      (heads child).stop.toNat - (heads child).start.toNat
  rw [slack, slack, lengths]

variable {number} (same : ∀ child, others (number child) = yields child)

include same

/-- What children yield under their old numbers. -/
theorem yields_symm (child : Fin count) :
    others child = yields (number.symm child) := by
  rw [← same, Equiv.apply_symm_apply]

/-- An uneven window is uneven whatever the numbers of the children. -/
theorem Uneven.renumber (uneven : Uneven slop yields window) :
    Uneven slop others window := by
  obtain ⟨least, heads, parted, isWindow, within⟩ := uneven
  refine ⟨least, heads ∘ number.symm, ⟨?_, ?_, ?_⟩,
    isWindow.renumber number, ?_⟩
  · intro child
    rw [yields_symm same child]
    exact parted.yielded (number.symm child)
  · obtain ⟨child, isLeast⟩ := parted.stays
    exact ⟨number child, by simpa using isLeast⟩
  · obtain ⟨child, isYielded, ahead⟩ := parted.movedOn
    refine ⟨number child, ?_, by simpa using ahead⟩
    rw [same]
    exact isYielded
  · rw [slack_renumber]
    exact within

/--
As long as no children have parted they meet under all numbers alike.  The
lead is then the first of the children that are on the least span.
-/
theorem Meeting.renumber (meeting : Meeting yields lead heads)
    (together : ∀ child, lead.span ∈ yields child →
      heads child = lead.span) :
    ∃ first, Meeting others ⟨lead.span, first⟩ (heads ∘ number.symm) := by
  classical
  have ahead : ∀ child, lead.span ∉ yields child →
      lead.span < heads child := by
    intro child elsewhere
    apply lt_of_le_of_ne (meeting.lead_le child)
    intro isLead
    exact elsewhere (isLead ▸ meeting.yielded child)
  have leads : lead.span ∈ yields lead.child := by
    rw [← meeting.own]
    exact meeting.yielded lead.child
  obtain ⟨first, isFirst, before⟩ := Finset.exists_min_image
    (Finset.univ.filter fun child : Fin count => lead.span ∈ others child) id
    ⟨number lead.child, by simpa [same] using leads⟩
  simp only [Finset.mem_filter, Finset.mem_univ, true_and, id,
    yields_symm same] at isFirst before
  refine ⟨first, together _ isFirst, ?_, ?_, ?_, ?_⟩
  · intro child
    rw [yields_symm same child]
    exact meeting.yielded (number.symm child)
  · exact fun child => meeting.inDoc (number.symm child)
  · intro child other
    by_cases onLead : lead.span ∈ yields (number.symm child)
    · refine .inr ⟨(together _ onLead).symm, ?_⟩
      exact lt_of_le_of_ne (before child onLead) (Ne.symm other)
    · exact .inl (ahead _ onLead)
  · intro child other span isSpan inDoc toCome
    rw [yields_symm same child] at isSpan
    have notBefore : lead.span ≤ span := Head.span_le_of_le (le_of_lt toCome)
    by_cases onLead : lead.span ∈ yields (number.symm child)
    · change heads (number.symm child) ≤ span
      rw [together _ onLead]
      exact notBefore
    · have later : lead.span < span := by
        apply lt_of_le_of_ne notBefore
        rintro rfl
        exact onLead isSpan
      have isOther : number.symm child ≠ lead.child := by
        intro isLead
        exact onLead (isLead ▸ leads)
      exact meeting.first _ isOther span isSpan inDoc (.inl later)

namespace Nearness

/-- A window that is not uneven fits whatever the numbers of the children. -/
theorem Fitting.renumber (even : ¬ Uneven slop yields window)
    (fits : Fitting slop yields lead window) :
    ∃ later, Fitting slop others later window := by
  obtain ⟨heads, meeting, isWindow, within⟩ := fits
  have together : ∀ child, lead.span ∈ yields child →
      heads child = lead.span := by
    intro child onLead
    by_contra moved
    exact even ⟨lead.span, heads,
      ⟨meeting.yielded, ⟨lead.child, meeting.own⟩, child, onLead,
        lt_of_le_of_ne (meeting.lead_le child) (Ne.symm moved)⟩,
      isWindow, within⟩
  obtain ⟨first, meets⟩ := meeting.renumber same together
  refine ⟨⟨lead.span, first⟩, heads ∘ number.symm, meets,
    isWindow.renumber number, ?_⟩
  rw [slack_renumber]
  exact within

/-- Children in two orders have the same fitting windows, but for uneven ones. -/
theorem exists_fitting_iff (even : ¬ Uneven slop yields window) :
    (∃ lead, Fitting slop yields lead window) ↔
      ∃ lead, Fitting slop others lead window := by
  have back : ∀ child, yields (number.symm child) = others child :=
    fun child => (yields_symm same child).symm
  constructor
  · rintro ⟨lead, fits⟩
    exact fits.renumber same even
  · rintro ⟨lead, fits⟩
    refine fits.renumber back fun uneven => even ?_
    exact uneven.renumber back

end Nearness

omit same

/-! ## Queries in any order of their children -/

namespace Query

variable {children permuted : List Query}

/-- The members of two lists that differ in their order can be matched. -/
theorem exists_numbering (perm : children.Perm permuted) :
    ∃ number : Fin children.length ≃ Fin permuted.length,
      ∀ child, permuted.get (number child) = children.get child := by
  classical
  exact ⟨⟨perm.idxBij, perm.symm.idxBij, fun _ => perm.idxBij_symm_idxBij,
    fun _ => perm.idxBij_idxBij_symm⟩, perm.getElem_idxBij_eq_getElem⟩

/--
A node in any order answers the same windows in whatever order its children
are given, but for windows within the slop around a span that one child stays
on when another one has moved on from it.  If no two children yield one span
there are none of these, and both nodes answer the same.
-/
theorem anyOrder_drains_permuted
    (faultFree : ∀ child ∈ children, child.FaultFree)
    (perm : children.Perm permuted) (slop : Nat) (collects : Bool) :
    ∃ (yields : Fin children.length → List Span) (spans further : List Span),
      (∀ child, Walk.drain (children.get child).openTree =
        .ok (yields child)) ∧
      Walk.drain (proximity .anyOrder slop collects children).openTree =
        .ok spans ∧
      Walk.drain (proximity .anyOrder slop collects permuted).openTree =
        .ok further ∧
      (∀ span, ¬ Uneven slop yields span →
        (span ∈ spans ↔ span ∈ further)) ∧
      ((∀ one other, one ≠ other →
        ∀ span ∈ yields one, span ∉ yields other) → spans = further) := by
  have alsoFree : ∀ child ∈ permuted, child.FaultFree :=
    fun child member => faultFree child (perm.mem_iff.mpr member)
  obtain ⟨number, same⟩ := exists_numbering perm
  have alike : ∀ span, ¬ Uneven slop
      (Nearness.spansOf fun child => (children.get child).visits) span →
        (span ∈ (proximity .anyOrder slop collects children).visits.map
            Visit.span ↔
          span ∈ (proximity .anyOrder slop collects permuted).visits.map
            Visit.span) := by
    intro span even
    rw [visits_proximity, visits_proximity,
      Nearness.mem_allMatches_anyOrder rfl fun _ => ordered_visits _,
      Nearness.mem_allMatches_anyOrder rfl fun _ => ordered_visits _]
    have renumbered : ∀ child, Nearness.spansOf
        (fun child => (permuted.get child).visits) (number child) =
          Nearness.spansOf (fun child => (children.get child).visits) child := by
      intro child
      rw [Nearness.spansOf, Nearness.spansOf, same]
    exact Nearness.exists_fitting_iff renumbered even
  refine ⟨_, _, _, fun child => drain_openTree (faultFree _ (List.get_mem _ _)),
    drain_openTree (.proximity _ _ _ faultFree),
    drain_openTree (.proximity _ _ _ alsoFree), alike, ?_⟩
  intro apart
  apply List.Pairwise.eq_of_mem_iff
    (List.pairwise_map.mpr (ordered_visits _))
    (List.pairwise_map.mpr (ordered_visits _))
  intro span
  apply alike
  intro uneven
  obtain ⟨one, other, distinct, shared, isOne, isOther⟩ :=
    uneven.exists_shared
  exact apart one other distinct shared isOne isOther

/-- Two terms around a third one, no two of them in one place. -/
def crossing : List Query :=
  [.term [⟨1, 0, none⟩, ⟨1, 4, none⟩], .term [⟨1, 1, none⟩, ⟨1, 6, none⟩],
    .term [⟨1, 2, none⟩]]

/-- What the three terms yield. -/
def crossingTokens : Fin 3 → List Span :=
  ![[.ofToken 1 0, .ofToken 1 4], [.ofToken 1 1, .ofToken 1 6],
    [.ofToken 1 2]]

theorem faultFree_crossing : ∀ child ∈ crossing, child.FaultFree := by
  intro child member
  simp only [crossing, List.mem_cons, List.not_mem_nil, or_false] at member
  rcases member with rfl | rfl | rfl
  · exact .term _
  · exact .term _
  · exact .term _

/-- The three terms are brought together in either order. -/
theorem crossing_drains_reversed :
    (∀ child ∈ crossing, child.FaultFree) ∧
      crossing.Perm crossing.reverse ∧
      Walk.drain (proximity .anyOrder 1 false crossing).openTree =
        .ok [⟨1, 0, 3, by decide⟩, ⟨1, 1, 5, by decide⟩] ∧
      Walk.drain (proximity .anyOrder 1 false crossing.reverse).openTree =
        .ok [⟨1, 0, 3, by decide⟩, ⟨1, 1, 5, by decide⟩] := by
  have perm : crossing.Perm crossing.reverse := (List.reverse_perm _).symm
  have drained : Walk.drain (proximity .anyOrder 1 false crossing).openTree =
      .ok [⟨1, 0, 3, by decide⟩, ⟨1, 1, 5, by decide⟩] := by
    cbv
  obtain ⟨yields, spans, further, own, isDrained, isFurther, _, alike⟩ :=
    anyOrder_drains_permuted faultFree_crossing perm 1 false
  have isYielded : yields = crossingTokens := by
    funext child
    apply Except.ok.inj (ε := Failure)
    rw [← own child]
    obtain ⟨_ | _ | _ | place, inside⟩ := child
    · cbv
    · cbv
    · cbv
    · exact absurd inside (Nat.not_lt.mpr (Nat.le_add_left 3 place))
  have apart : ∀ one other, one ≠ other →
      ∀ span ∈ crossingTokens one, span ∉ crossingTokens other := by
    decide
  refine ⟨faultFree_crossing, perm, drained, ?_⟩
  rw [isFurther, ← alike (isYielded ▸ apart), ← isDrained, drained]

/-- Two terms, the first of them only where the second is as well. -/
def doubled : List Query :=
  [.term [⟨1, 0, none⟩], .term [⟨1, 0, none⟩, ⟨1, 3, none⟩]]

/--
Where two terms share a token, the one that is given first moves on first: the
document is over when it has no other, and a window is missed that is answered
when the terms are given the other way round.
-/
theorem doubled_drains_unlike_reversed :
    (∀ child ∈ doubled, child.FaultFree) ∧
      doubled.Perm doubled.reverse ∧
      Walk.drain (proximity .anyOrder 2 false doubled).openTree =
        .ok [.ofToken 1 0] ∧
      Walk.drain (proximity .anyOrder 2 false doubled.reverse).openTree =
        .ok [.ofToken 1 0, ⟨1, 0, 4, by decide⟩] := by
  refine ⟨forall_mem_pair (.term _) (.term _), (List.reverse_perm _).symm,
    ?_, ?_⟩
  · cbv
  · cbv

end Query

end PositionalSearch
