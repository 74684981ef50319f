import Mathlib.Data.List.TakeWhile
import PositionalSearch.Proofs.Follow.Query
import PositionalSearch.Proofs.Near.AnyOrder

/-!
# What is found in order

For a span of the first child a search in order takes the leftmost arrangement:
each further child is on its first span that starts where its predecessor stops
or later.  As long as the spans of a child neither start nor stop before the
earlier ones, children that were moved on for one span of the first child are
where they should be for the next.  If moreover all spans of a child have one
length, the leftmost arrangement is the one with the least slack.
-/

namespace PositionalSearch

variable {size : Nat}

/-! ## Gaps -/

/-- The sum of the gaps between neighbours. -/
def gaps (spans : List Span) : Nat :=
  (List.zipWith (fun one next => next.start.toNat - one.stop.toNat) spans
    spans.tail).sum

theorem gaps_cons_cons (first next : Span) (rest : List Span) :
    gaps (first :: next :: rest) =
      next.start.toNat - first.stop.toNat + gaps (next :: rest) := by
  simp [gaps]

/-- Between spans in order the gaps are what a search finds. -/
theorem InOrder.gaps?_eq {spans : List Span} (inOrder : InOrder spans) :
    gaps? spans = some (gaps spans) := by
  induction spans with
  | nil => rfl
  | cons first rest ih =>
      cases rest with
      | nil => rfl
      | cons next others =>
          obtain ⟨meets, tail⟩ := List.isChain_cons_cons.mp inOrder
          rw [gaps?, if_pos meets, ih tail, gaps_cons_cons]
          rfl

/-- The gaps and the spans in order fill what lies between the outer bounds. -/
theorem InOrder.gaps_add_lengths {first : Span} {rest : List Span}
    (inOrder : InOrder (first :: rest)) :
    first.start.toNat + (gaps (first :: rest) +
        ((first :: rest).map Span.length).sum) =
      (rest.getLastD first).stop.toNat := by
  have bounds := UInt32.le_iff_toNat_le.mp first.start_le_stop
  induction rest generalizing first with
  | nil =>
      simp only [gaps, List.tail_cons, List.zipWith_nil_right, List.sum_nil,
        List.map_cons, List.map_nil, List.sum_cons, List.getLastD_nil,
        Span.length]
      omega
  | cons next others ih =>
      obtain ⟨meets, tail⟩ := List.isChain_cons_cons.mp inOrder
      have meets := UInt32.le_iff_toNat_le.mp meets
      have filled := ih tail (UInt32.le_iff_toNat_le.mp next.start_le_stop)
      rw [List.getLastD_cons, ← filled, gaps_cons_cons, List.map_cons,
        List.sum_cons, Span.length]
      omega

/-- A span that runs from the first of some spans to the last of them. -/
structure Spanning (first : Span) (rest : List Span) (span : Span) : Prop where
  doc : span.doc = first.doc
  start : span.start = first.start
  stop : span.stop = (rest.getLastD first).stop

/--
A span of each child in one document, each from where its predecessor stops or
later, with gaps within the slop.
-/
structure Arranged (slop : Nat) (yields : Fin size → List Span)
    (spans : List Span) : Prop where
  yielded : List.Forall₂ (fun span child => span ∈ yields child) spans
    (List.finRange size)
  together : ∀ one ∈ spans, ∀ other ∈ spans, one.doc = other.doc
  inOrder : InOrder spans
  slack : gaps spans ≤ slop

/-! ## Steady children -/

/-- Later spans start later, and do not stop before the earlier ones. -/
def Steady (yield : List Span) : Prop :=
  yield.Pairwise fun earlier later =>
    earlier.start < later.start ∧ earlier.stop ≤ later.stop

/-- All spans are equally long. -/
def FixedWidth (yield : List Span) : Prop :=
  ∃ width, ∀ span ∈ yield, span.length = width

/-- In a document, spans of one length are steady. -/
theorem FixedWidth.steady {yield : List Span} {doc : DocId}
    (fixed : FixedWidth yield) (ordered : yield.Pairwise (· < ·))
    (inDoc : ∀ span ∈ yield, span.doc = doc) : Steady yield := by
  obtain ⟨width, isWidth⟩ := fixed
  apply ordered.imp_of_mem
  intro earlier later isEarlier isLater before
  have sameDoc := (inDoc earlier isEarlier).trans (inDoc later isLater).symm
  have sameWidth := (isWidth earlier isEarlier).trans (isWidth later isLater).symm
  have bounds := UInt32.le_iff_toNat_le.mp earlier.start_le_stop
  have laterBounds := UInt32.le_iff_toNat_le.mp later.start_le_stop
  simp only [Span.length] at sameWidth
  simp only [Span.lt_iff, sameDoc, UInt64.lt_irrefl, false_or, true_and,
    UInt32.lt_iff_toNat_lt, ← UInt32.toNat_inj] at before
  rw [UInt32.lt_iff_toNat_lt, UInt32.le_iff_toNat_le]
  omega

/-- The first span from a position on stops before the others from there. -/
theorem Steady.exists_find? {yield : List Span} (steady : Steady yield)
    {floor : Position} {span : Span} (member : span ∈ yield)
    (late : floor ≤ span.start) :
    ∃ next, yield.find? (fun span => floor ≤ span.start) = some next ∧
      next.stop ≤ span.stop := by
  have found : (yield.find? fun span => floor ≤ span.start).isSome := by
    rw [List.find?_isSome]
    exact ⟨span, member, decide_eq_true late⟩
  obtain ⟨next, isNext⟩ := Option.isSome_iff_exists.mp found
  obtain ⟨_, before, after, rfl, early⟩ :=
    List.find?_eq_some_iff_append.mp isNext
  refine ⟨next, isNext, ?_⟩
  rcases List.mem_append.mp member with isBefore | isAfter
  · have notLate := early span isBefore
    simp [late] at notLate
  · rcases List.mem_cons.mp isAfter with rfl | later
    · exact UInt32.le_refl _
    · have tail := (List.pairwise_append.mp steady).2.1
      exact (List.rel_of_pairwise_cons tail later).2

/-! ## The leftmost arrangement -/

/--
The first span of each of the given children that starts where its predecessor
stops or later, that of the first of them at `floor` or later.
-/
def leftmost? (yields : Fin size → List Span) (floor : Position) :
    List (Fin size) → Option (List Span)
  | [] => some []
  | child :: rest =>
      match (yields child).find? fun span => floor ≤ span.start with
      | none => none
      | some next => (leftmost? yields next.stop rest).map (next :: ·)

variable {yields others : Fin size → List Span} {floor : Position}
  {children rest : List (Fin size)} {child : Fin size} {first next : Span}
  {spans chosen : List Span}

theorem leftmost?_of_none
    (none : (yields child).find? (fun span => floor ≤ span.start) = .none) :
    leftmost? yields floor (child :: rest) = .none := by
  rw [leftmost?, none]

theorem leftmost?_of_some
    (isNext : (yields child).find? (fun span => floor ≤ span.start) =
      some next) :
    leftmost? yields floor (child :: rest) =
      (leftmost? yields next.stop rest).map (next :: ·) := by
  rw [leftmost?, isNext]

theorem leftmost?_congr
    (same : ∀ child ∈ children, yields child = others child) :
    leftmost? yields floor children = leftmost? others floor children := by
  induction children generalizing floor with
  | nil => rfl
  | cons child rest ih =>
      have sameRest : ∀ {floor : Position},
          leftmost? yields floor rest = leftmost? others floor rest :=
        ih fun other member => same other (List.mem_cons_of_mem _ member)
      simp only [leftmost?, same child List.mem_cons_self, sameRest]

/-- The leftmost spans are spans of the children, in order. -/
theorem arranged_of_leftmost?
    (found : leftmost? yields floor children = some spans)
    (stops : first.stop = floor) :
    List.Forall₂ (fun span child => span ∈ yields child) spans children ∧
      InOrder (first :: spans) := by
  induction children generalizing floor spans first with
  | nil =>
      cases found
      exact ⟨.nil, List.isChain_singleton _⟩
  | cons child rest ih =>
      cases isNext : (yields child).find? fun span => floor ≤ span.start with
      | none =>
          rw [leftmost?_of_none isNext] at found
          cases found
      | some next =>
          rw [leftmost?_of_some isNext] at found
          obtain ⟨later, isLater, rfl⟩ := Option.map_eq_some_iff.mp found
          obtain ⟨yielded, inOrder⟩ := ih isLater rfl
          have late := List.find?_some isNext
          rw [decide_eq_true_eq, ← stops] at late
          constructor
          · exact .cons (List.mem_of_find?_eq_some isNext) yielded
          · exact List.isChain_cons_cons.mpr ⟨late, inOrder⟩

/-- No arrangement is further left than the leftmost one. -/
theorem exists_leftmost_le
    (steady : ∀ child ∈ children, Steady (yields child))
    (yielded : List.Forall₂ (fun span child => span ∈ yields child) chosen
      children)
    (inOrder : InOrder (first :: chosen)) (notAfter : floor ≤ first.stop) :
    ∃ nearest, leftmost? yields floor children = some nearest ∧
      List.Forall₂ (fun near span => near.stop ≤ span.stop) nearest chosen := by
  induction yielded generalizing floor first with
  | nil => exact ⟨[], rfl, .nil⟩
  | @cons span child spans rest member later ih =>
      obtain ⟨meets, tail⟩ := List.isChain_cons_cons.mp inOrder
      obtain ⟨next, isNext, sooner⟩ :=
        (steady child List.mem_cons_self).exists_find? member
          (UInt32.le_trans notAfter meets)
      obtain ⟨nearest, isNearest, noLater⟩ :=
        ih (fun other isOther => steady other (List.mem_cons_of_mem _ isOther))
          tail sooner
      refine ⟨next :: nearest, ?_, .cons sooner noLater⟩
      rw [leftmost?_of_some isNext, isNearest]
      rfl

/-- Of spans that stop no later one by one the last stops no later. -/
theorem getLastD_stop_le {nearest : List Span} (first : Span)
    (noLater : List.Forall₂ (fun near span => near.stop ≤ span.stop) nearest
      chosen) :
    (nearest.getLastD first).stop ≤ (chosen.getLastD first).stop := by
  suffices general : ∀ one other : Span, one.stop ≤ other.stop →
      (nearest.getLastD one).stop ≤ (chosen.getLastD other).stop from
    general first first (UInt32.le_refl _)
  induction noLater with
  | nil => exact fun _ _ notAfter => notAfter
  | cons sooner _ ih =>
      intro one other _
      rw [List.getLastD_cons, List.getLastD_cons]
      exact ih _ _ sooner

/-! ## A search in order -/

namespace Nearness

variable {left ready all : Fin size → Visits} {later : Position}

theorem head?_startingAt (floor : Position) (visits : Visits) :
    (visits.startingAt floor).head?.map Visit.span =
      (visits.map Visit.span).find? fun span => floor ≤ span.start := by
  rw [Visits.startingAt, ← List.find?_not_eq_head?_dropWhile, List.find?_map]
  congr 2
  funext visit
  simp [← UInt32.not_lt]

/-- Visits that start too early are too early for a later position as well. -/
theorem find?_startingAt (notAfter : floor ≤ later) (visits : Visits) :
    ((visits.startingAt floor).map Visit.span).find?
        (fun span => later ≤ span.start) =
      (visits.map Visit.span).find? fun span => later ≤ span.start := by
  induction visits with
  | nil => rfl
  | cons visit rest ih =>
      by_cases early : visit.span.start < floor
      · have tooEarly : ¬ later ≤ visit.span.start := fun late =>
          UInt32.not_le.mpr early (UInt32.le_trans notAfter late)
        rw [Visits.startingAt_cons_of_lt early, List.map_cons,
          List.find?_cons_of_neg (by simpa using tooEarly)]
        exact ih
      · rw [Visits.startingAt_cons_of_not_lt early]

theorem find?_spansOf_of_nil
    (starts : (left child).startingAt floor = []) (notAfter : floor ≤ later) :
    (spansOf left child).find? (fun span => later ≤ span.start) = none := by
  rw [spansOf, ← find?_startingAt notAfter, starts]
  rfl

/-- A stretched child stops no later than its spans from a later position. -/
theorem stop_le_of_find? {head : Visit} {others : Visits}
    (steady : Steady (spansOf left child))
    (starts : (left child).startingAt floor = head :: others)
    (notAfter : floor ≤ later)
    (isNext : (spansOf left child).find? (fun span => later ≤ span.start) =
      some next) : head.span.stop ≤ next.stop := by
  have isHead := head?_startingAt floor (left child)
  rw [starts] at isHead
  obtain ⟨found, isFound, sooner⟩ :=
    steady.exists_find? (List.mem_of_find?_eq_some isNext)
      (UInt32.le_trans notAfter (by simpa using List.find?_some isNext))
  rw [spansOf, ← isHead] at isFound
  rw [Option.some.inj isFound]
  exact sooner

/-- What is left to one child has no say in where the others are. -/
theorem leftmost?_update (other : child ∉ children) (visits : Visits) :
    leftmost? (spansOf (Function.update left child visits)) floor children =
      leftmost? (spansOf left) floor children := by
  apply leftmost?_congr
  intro one member
  have isOther : one ≠ child := by
    rintro rfl
    exact other member
  rw [spansOf, spansOf, Function.update_of_ne isOther]

/-- Stretched children are on their leftmost spans. -/
theorem leftmost?_of_stretch
    (stretched : stretch floor children left = some ready)
    (once : children.Nodup) (heads : Fin size → Span)
    (isHead : ∀ child ∈ children,
      (ready child).head?.map Visit.span = some (heads child)) :
    leftmost? (spansOf left) floor children = some (children.map heads) := by
  induction children generalizing floor left with
  | nil => rfl
  | cons child rest ih =>
      obtain ⟨notLater, onceOn⟩ := List.nodup_cons.mp once
      cases starts : (left child).startingAt floor with
      | nil =>
          rw [stretch_of_nil starts] at stretched
          cases stretched
      | cons head later =>
          rw [stretch_of_cons starts] at stretched
          have isReady := stretch_of_not_mem stretched notLater
          rw [Function.update_self] at isReady
          have isFirst := head?_startingAt floor (left child)
          rw [starts] at isFirst
          have isOwn := isHead child List.mem_cons_self
          rw [isReady] at isOwn
          have isOwn : head.span = heads child := Option.some.inj isOwn
          have others := ih stretched onceOn fun other member =>
            isHead other (List.mem_cons_of_mem _ member)
          rw [leftmost?_update notLater] at others
          rw [leftmost?_of_some isFirst.symm, others, List.map_cons, ← isOwn]
          rfl

/-- A child that passes visits stays steady. -/
theorem steady_update {visits : Visits}
    (steady : ∀ child, Steady (spansOf left child))
    (starts : (left child).startingAt floor = visits) (other : Fin size) :
    Steady (spansOf (Function.update left child visits) other) := by
  by_cases isChild : other = child
  · subst isChild
    rw [spansOf, Function.update_self, ← starts]
    exact (steady other).sublist ((List.dropWhile_sublist _).map _)
  · rw [spansOf, Function.update_of_ne isChild]
    exact steady other

/-- Children that cannot be stretched are on no leftmost spans further on. -/
theorem leftmost?_of_stretch_eq_none
    (ended : stretch floor children left = none) (once : children.Nodup)
    (steady : ∀ child, Steady (spansOf left child))
    (notAfter : floor ≤ later) :
    leftmost? (spansOf left) later children = none := by
  induction children generalizing floor later left with
  | nil => cases ended
  | cons child rest ih =>
      obtain ⟨notLater, onceOn⟩ := List.nodup_cons.mp once
      cases starts : (left child).startingAt floor with
      | nil => exact leftmost?_of_none (find?_spansOf_of_nil starts notAfter)
      | cons head others =>
          rw [stretch_of_cons starts] at ended
          cases isNext : (spansOf left child).find?
              fun span => later ≤ span.start with
          | none => exact leftmost?_of_none isNext
          | some next =>
              have none := ih ended onceOn (steady_update steady starts)
                (stop_le_of_find? (steady child) starts notAfter isNext)
              rw [leftmost?_update notLater] at none
              rw [leftmost?_of_some isNext, none]
              rfl

/-- Stretching steady children leaves the spans they are on further on. -/
theorem leftmost?_stretched
    (stretched : stretch floor children left = some ready)
    (once : children.Nodup) (steady : ∀ child, Steady (spansOf left child))
    (notAfter : floor ≤ later) :
    leftmost? (spansOf ready) later children =
      leftmost? (spansOf left) later children := by
  induction children generalizing floor later left with
  | nil => rfl
  | cons child rest ih =>
      obtain ⟨notLater, onceOn⟩ := List.nodup_cons.mp once
      cases starts : (left child).startingAt floor with
      | nil =>
          rw [stretch_of_nil starts] at stretched
          cases stretched
      | cons head others =>
          rw [stretch_of_cons starts] at stretched
          have isReady := stretch_of_not_mem stretched notLater
          rw [Function.update_self, ← starts] at isReady
          have same : (spansOf ready child).find?
              (fun span => later ≤ span.start) =
                (spansOf left child).find? fun span => later ≤ span.start := by
            rw [spansOf, isReady, find?_startingAt notAfter]
            rfl
          cases isNext : (spansOf left child).find?
              fun span => later ≤ span.start with
          | none =>
              rw [leftmost?_of_none (same.trans isNext),
                leftmost?_of_none isNext]
          | some next =>
              have further := ih stretched onceOn (steady_update steady starts)
                (stop_le_of_find? (steady child) starts notAfter isNext)
              rw [leftmost?_update notLater] at further
              rw [leftmost?_of_some (same.trans isNext),
                leftmost?_of_some isNext, further]

/-! ## Lining up in order -/

variable {rule : Nearness} {filled : 0 < size} {lined : Lined size}
  {doc : DocId} {last? : Option Span} {span : Span}

/--
While a search in order goes on, what the children have left is as good as all
they yield: both have the same leftmost spans for what the first child has left.
-/
structure Tracking (filled : 0 < size) (doc : DocId)
    (all left : Fin size → Visits) : Prop where
  steady : ∀ child, Steady (spansOf left child)
  inDoc : ∀ visit ∈ left ⟨0, filled⟩, visit.doc = doc
  leftmost?_eq : ∀ visit ∈ left ⟨0, filled⟩,
    leftmost? (spansOf left) visit.span.stop (List.finRange size).tail =
      leftmost? (spansOf all) visit.span.stop (List.finRange size).tail

/-- A search of a document starts with all that the children yield there. -/
theorem tracking_within (filled : 0 < size)
    (steady : ∀ child, Steady (spansOf (within doc all) child)) :
    Tracking filled doc (within doc all) (within doc all) where
  steady := steady
  inDoc _ member := (Visits.mem_inside.mp member).2
  leftmost?_eq _ _ := rfl

/-- The first child does not stop before where it was. -/
theorem Tracking.stop_le (tracking : Tracking filled doc all left)
    {visit other : Visit} {rest : Visits}
    (isLeft : left ⟨0, filled⟩ = visit :: rest)
    (member : other ∈ left ⟨0, filled⟩) : visit.span.stop ≤ other.span.stop := by
  have steady := tracking.steady ⟨0, filled⟩
  rw [spansOf, isLeft, List.map_cons] at steady
  rw [isLeft] at member
  rcases List.mem_cons.mp member with rfl | later
  · exact UInt32.le_refl _
  · exact (List.rel_of_pairwise_cons steady (List.mem_map_of_mem later)).2

theorem lineUp?_inOrder (inOrder : rule.arrangement = .inOrder)
    {visit : Visit} {rest : Visits}
    (isLeft : left ⟨0, filled⟩ = visit :: rest) :
    rule.lineUp? filled left =
      (stretch visit.span.stop (List.finRange size).tail left).bind
        Lined.of? := by
  simp only [lineUp?, inOrder, isLeft, List.head?_cons]
  rfl

/-- If nothing is lined up it is because a child could not be stretched. -/
theorem stretch_eq_none_of_lineUp? (inOrder : rule.arrangement = .inOrder)
    (ended : rule.lineUp? filled left = none) {visit : Visit} {rest : Visits}
    (isLeft : left ⟨0, filled⟩ = visit :: rest) :
    stretch visit.span.stop (List.finRange size).tail left = none := by
  rw [lineUp?_inOrder inOrder isLeft] at ended
  cases stretched : stretch visit.span.stop (List.finRange size).tail left with
  | none => rfl
  | some ready =>
      rw [stretched, Option.bind_some] at ended
      have visited : ∀ child, ready child ≠ [] := by
        intro child
        rcases Lineup.eq_or_mem_tail filled child with rfl | later
        · rw [stretch_of_not_mem stretched
            (Lineup.first_not_mem_tail filled), isLeft]
          exact List.cons_ne_nil _ _
        · exact stretch_ne_nil stretched Lineup.nodup_tail_finRange later
      unfold Lined.of? at ended
      rw [dif_pos visited] at ended
      cases ended

/-- The spans of what is lined up are those of the first visits. -/
theorem map_span_head?_left (lined : Lined size) (child : Fin size) :
    (lined.left child).head?.map Visit.span = some lined.spans[child] := by
  obtain ⟨head, others, isHead, own⟩ := lined.exists_eq_cons child
  rw [isHead, ← own]
  rfl

/-- What is lined up in order is stretched from the first child's visit on. -/
theorem exists_stretch_of_lineUp? (inOrder : rule.arrangement = .inOrder)
    (found : rule.lineUp? filled left = some lined) :
    ∃ visit,
      left ⟨0, filled⟩ = visit :: pass ⟨0, filled⟩ lined.left ⟨0, filled⟩ ∧
      stretch visit.span.stop (List.finRange size).tail left =
        some lined.left ∧
      lined.spans.toList = visit.span ::
        (List.finRange size).tail.map fun child => lined.spans[child] := by
  cases isLeft : left ⟨0, filled⟩ with
  | nil =>
      simp only [lineUp?, inOrder, isLeft] at found
      cases found
  | cons visit rest =>
      rw [lineUp?_inOrder inOrder isLeft] at found
      obtain ⟨ready, stretched, isLined⟩ := Option.bind_eq_some_iff.mp found
      rw [Lined.of?_eq_some_iff] at isLined
      subst isLined
      have unmoved := stretch_of_not_mem stretched
        (Lineup.first_not_mem_tail filled)
      refine ⟨visit, ?_, stretched, ?_⟩
      · rw [pass_self, unmoved, isLeft, List.tail_cons]
      · have own := map_span_head?_left lined ⟨0, filled⟩
        rw [unmoved, isLeft] at own
        rw [show visit.span = lined.spans[(⟨0, filled⟩ : Fin size)] from
          Option.some.inj own]
        exact Lineup.toList_eq_cons lined.spans filled

/-- Where nothing can be lined up there is no leftmost arrangement. -/
theorem Tracking.leftmost?_eq_none (inOrder : rule.arrangement = .inOrder)
    (tracking : Tracking filled doc all left)
    (ended : rule.lineUp? filled left = none) {visit : Visit}
    (member : visit ∈ left ⟨0, filled⟩) :
    leftmost? (spansOf all) visit.span.stop (List.finRange size).tail =
      none := by
  obtain ⟨first, rest, isLeft⟩ := List.exists_cons_of_ne_nil
    (List.ne_nil_of_mem member)
  rw [← tracking.leftmost?_eq visit member]
  exact leftmost?_of_stretch_eq_none
    (stretch_eq_none_of_lineUp? inOrder ended isLeft)
    Lineup.nodup_tail_finRange tracking.steady
    (tracking.stop_le isLeft member)

/-- What is lined up is the leftmost arrangement of the first child's span. -/
theorem Tracking.of_lineUp? (inOrder : rule.arrangement = .inOrder)
    (tracking : Tracking filled doc all left)
    (found : rule.lineUp? filled left = some lined) :
    ∃ visit spans,
      left ⟨0, filled⟩ = visit :: pass ⟨0, filled⟩ lined.left ⟨0, filled⟩ ∧
      lined.spans.toList = visit.span :: spans ∧
      leftmost? (spansOf all) visit.span.stop (List.finRange size).tail =
        some spans ∧
      Tracking filled doc all (pass ⟨0, filled⟩ lined.left) := by
  obtain ⟨visit, isLeft, stretched, isList⟩ :=
    exists_stretch_of_lineUp? inOrder found
  have isVisit : visit ∈ left ⟨0, filled⟩ := by
    rw [isLeft]
    exact List.mem_cons_self
  refine ⟨visit, _, isLeft, isList, ?_, ?_⟩
  · rw [← tracking.leftmost?_eq visit isVisit]
    exact leftmost?_of_stretch stretched Lineup.nodup_tail_finRange _
      fun child _ => map_span_head?_left lined child
  · have shorter : ∀ child, (pass ⟨0, filled⟩ lined.left child).Sublist
        (left child) := by
      intro child
      exact (passes_pass _ _ child).trans
        (suffix_of_stretch stretched child).sublist
    constructor
    · intro child
      exact (tracking.steady child).sublist ((shorter child).map _)
    · intro other member
      exact tracking.inDoc other ((shorter _).subset member)
    · intro other member
      have isOther := (shorter _).subset member
      rw [← tracking.leftmost?_eq other isOther,
        ← leftmost?_stretched stretched Lineup.nodup_tail_finRange
          tracking.steady (tracking.stop_le isLeft isOther)]
      exact leftmost?_update (Lineup.first_not_mem_tail filled) _

/-- An arrangement in order fits if its gaps are within the slop. -/
theorem fitting?_inOrder (inOrder : rule.arrangement = .inOrder)
    {first : Span} {rest : List Span}
    (isList : lined.spans.toList = first :: rest)
    (chain : InOrder (first :: rest)) (inDoc : first.doc = doc) :
    rule.fitting? filled doc lined = some span ↔
      Spanning first rest span ∧ gaps (first :: rest) ≤ rule.slop := by
  have isChain : InOrder lined.spans.toList := isList ▸ chain
  obtain ⟨whole, bounded⟩ := isChain.exists_bounds filled doc
  obtain ⟨isDoc, isStart, isStop⟩ := Span.ofBounds?_eq_some bounded
  have isFirst : lined.spans[0] = first := by
    rw [← Vector.getElem_toList (by simpa using filled)]
    simp only [isList, List.getElem_cons_zero]
  have isLast : lined.spans[lastPlace filled] = rest.getLastD first := by
    have length := lined.spans.length_toList
    rw [isList] at length
    have inside : size - 1 < lined.spans.toList.length := by
      rw [Vector.length_toList]
      omega
    calc
      lined.spans[lastPlace filled] = lined.spans.toList[size - 1] :=
        (Vector.getElem_toList inside).symm
      _ = (first :: rest).getLast (List.cons_ne_nil _ _) := by
        rw [List.getLast_eq_getElem]
        simp only [isList, length]
      _ = rest.getLastD first := List.getLast_eq_getLastD ..
  have isWhole : Spanning first rest whole :=
    ⟨isDoc.trans inDoc.symm, isStart.trans (congrArg Span.start isFirst),
      isStop.trans (congrArg Span.stop isLast)⟩
  have isSlack : gaps? lined.spans.toList = some (gaps (first :: rest)) := by
    rw [isList, chain.gaps?_eq]
  rw [fitting?_of_inOrder inOrder bounded isSlack,
    Option.ite_none_right_eq_some]
  constructor
  · rintro ⟨within, ⟨rfl⟩⟩
    exact ⟨isWhole, within⟩
  · rintro ⟨isSpan, within⟩
    refine ⟨within, congrArg some (Span.ext ?_ ?_ ?_)⟩
    · exact isWhole.doc.trans isSpan.doc.symm
    · exact isWhole.start.trans isSpan.start.symm
    · exact isWhole.stop.trans isSpan.stop.symm

/-- A span of the leftmost arrangement of some first span, within the slop. -/
def Nearest (slop : Nat) (yields : Fin size → List Span) (first span : Span) :
    Prop :=
  ∃ rest, leftmost? yields first.stop (List.finRange size).tail = some rest ∧
    Spanning first rest span ∧ gaps (first :: rest) ≤ slop

/-- The leftmost arrangement of a span fits as what is lined up for it does. -/
theorem nearest_iff (filled : 0 < size)
    (inOrder : rule.arrangement = .inOrder) {yields : Fin size → List Span}
    {first : Span} {rest : List Span}
    (isList : lined.spans.toList = first :: rest)
    (isLeftmost : leftmost? yields first.stop (List.finRange size).tail =
      some rest) (inDoc : first.doc = doc) :
    Nearest rule.slop yields first span ↔
      rule.fitting? filled doc lined = some span := by
  obtain ⟨_, chain⟩ := arranged_of_leftmost? isLeftmost rfl
  rw [fitting?_inOrder inOrder isList chain inDoc]
  constructor
  · rintro ⟨others, isOthers, fits⟩
    rw [isLeftmost] at isOthers
    cases isOthers
    exact fits
  · intro fits
    exact ⟨rest, isLeftmost, fits⟩

/-- A span is new if it starts after the last match. -/
theorem isNew_of_start_lt (inDoc : span.doc = doc)
    (after : ∀ last ∈ last?, last.doc = doc ∧ last.start < span.start) :
    isNew last? span := by
  cases last? with
  | none => rfl
  | some last =>
      obtain ⟨lastDoc, before⟩ := after last rfl
      have precedes : last < span :=
        .inr ⟨lastDoc.trans inDoc.symm, .inl before⟩
      exact decide_eq_true precedes

/--
A search in order of steady children answers the spans of the leftmost
arrangements to come that are within the slop.
-/
theorem Tracking.mem_slide (inOrder : rule.arrangement = .inOrder)
    (tracking : Tracking filled doc all left)
    (after : ∀ visit ∈ left ⟨0, filled⟩, ∀ last ∈ last?,
      last.doc = doc ∧ last.start < visit.span.start) :
    span ∈ (rule.slide filled doc last? left).map Visit.span ↔
      ∃ first ∈ spansOf left ⟨0, filled⟩,
        Nearest rule.slop (spansOf all) first span := by
  have pivots : ∀ lined, rule.pivot filled lined = ⟨0, filled⟩ := by
    intro lined
    unfold pivot
    rw [inOrder]
  fun_induction slide rule filled doc last? left with
  | case1 last? left ended =>
      constructor
      · exact fun none => absurd none List.not_mem_nil
      · rintro ⟨first, isFirst, rest, isRest, _⟩
        obtain ⟨visit, isVisit, rfl⟩ := List.mem_map.mp isFirst
        rw [tracking.leftmost?_eq_none inOrder ended isVisit] at isRest
        cases isRest
  | case2 last? left lined found shorter misses ih =>
      obtain ⟨visit, rest, isLeft, isList, isLeftmost, goesOn⟩ :=
        tracking.of_lineUp? inOrder found
      have isVisit : visit ∈ left ⟨0, filled⟩ := isLeft ▸ List.mem_cons_self
      have inDoc := tracking.inDoc visit isVisit
      have isLater := fun other member =>
        after other (isLeft ▸ List.mem_cons_of_mem visit member)
      simp only [pivots] at ih ⊢
      rw [spansOf, isLeft, List.map_cons, List.exists_mem_cons_iff]
      apply (ih goesOn isLater).trans
      constructor
      · exact .inr
      · rintro (nearest | later)
        · -- A span that fits would be new, for the first child is further on.
          have fits :=
            (nearest_iff filled inOrder isList isLeftmost inDoc).mp nearest
          obtain ⟨_, _, spanning, _⟩ := nearest
          have new := isNew_of_start_lt (spanning.doc.trans inDoc) fun last is =>
            spanning.start ▸ after visit isVisit last is
          rw [fits, Option.filter_some, if_pos new] at misses
          cases misses
        · exact later
  | case3 last? left lined found shorter whole hits ih =>
      obtain ⟨visit, rest, isLeft, isList, isLeftmost, goesOn⟩ :=
        tracking.of_lineUp? inOrder found
      have isVisit : visit ∈ left ⟨0, filled⟩ := isLeft ▸ List.mem_cons_self
      have inDoc := tracking.inDoc visit isVisit
      obtain ⟨fits, _⟩ := Option.filter_eq_some_iff.mp hits
      have nearest :=
        (nearest_iff filled inOrder isList isLeftmost inDoc).mpr fits
      obtain ⟨_, _, spanning, _⟩ := id nearest
      have isLater : ∀ other ∈ pass ⟨0, filled⟩ lined.left ⟨0, filled⟩,
          ∀ last ∈ some whole, last.doc = doc ∧
            last.start < other.span.start := by
        intro other member last isLast
        cases isLast
        have steady := tracking.steady ⟨0, filled⟩
        rw [spansOf, isLeft, List.map_cons] at steady
        refine ⟨spanning.doc.trans inDoc, ?_⟩
        rw [spanning.start]
        exact (List.rel_of_pairwise_cons steady
          (List.mem_map_of_mem member)).1
      simp only [pivots] at ih ⊢
      rw [List.map_cons, List.mem_cons, spansOf, isLeft, List.map_cons,
        List.exists_mem_cons_iff]
      apply (or_congr_right (ih goesOn isLater)).trans
      apply or_congr_left
      constructor
      · rintro rfl
        exact nearest
      · intro isNearest
        have same :=
          (nearest_iff filled inOrder isList isLeftmost inDoc).mp isNearest
        rw [fits] at same
        exact (Option.some.inj same).symm

/-- The matches of steady children are the spans of leftmost arrangements. -/
theorem mem_allMatches_inOrder (inOrder : rule.arrangement = .inOrder)
    (filled : 0 < size)
    (steady : ∀ doc child, Steady (spansOf (within doc all) child)) :
    span ∈ (rule.allMatches all).map Visit.span ↔
      ∃ first ∈ spansOf all ⟨0, filled⟩, first.doc = span.doc ∧
        Nearest rule.slop (spansOf (within span.doc all)) first span := by
  rw [mem_map_allMatches filled,
    (tracking_within filled (steady span.doc)).mem_slide inOrder
    (by rintro _ _ _ ⟨⟩)]
  constructor
  · rintro ⟨first, isFirst, nearest⟩
    obtain ⟨inAll, inDoc⟩ := mem_spansOf_within.mp isFirst
    exact ⟨first, inAll, inDoc, nearest⟩
  · rintro ⟨first, inAll, inDoc, nearest⟩
    exact ⟨first, mem_spansOf_within.mpr ⟨inAll, inDoc⟩, nearest⟩

/-! ## The narrowest arrangement -/

/-- In a document, children with spans of one length each are steady. -/
theorem steady_within (fixed : ∀ child, FixedWidth (spansOf all child))
    (ordered : ∀ child, (all child).Ordered) (doc : DocId)
    (child : Fin size) : Steady (spansOf (within doc all) child) := by
  obtain ⟨width, isWidth⟩ := fixed child
  apply FixedWidth.steady
  · exact ⟨width, fun span member =>
      isWidth span (mem_spansOf_within.mp member).1⟩
  · exact List.pairwise_map.mpr ((ordered child).filter _)
  · exact fun span member => (mem_spansOf_within.mp member).2

/-- Spans of the same children are equally long, if each has one length. -/
theorem sum_length_eq (fixed : ∀ child, FixedWidth (yields child))
    {others : List Span}
    (yielded : List.Forall₂ (fun span child => span ∈ yields child) chosen
      children)
    (alsoYielded : List.Forall₂ (fun span child => span ∈ yields child) others
      children) :
    (chosen.map Span.length).sum = (others.map Span.length).sum := by
  induction yielded generalizing others with
  | nil =>
      cases alsoYielded
      rfl
  | @cons span child spans rest member _ ih =>
      cases alsoYielded with
      | cons alsoMember alsoLater =>
          obtain ⟨width, isWidth⟩ := fixed child
          simp only [List.map_cons, List.sum_cons]
          rw [ih alsoLater, isWidth _ member, isWidth _ alsoMember]

theorem finRange_eq_cons (filled : 0 < size) :
    List.finRange size = ⟨0, filled⟩ :: (List.finRange size).tail := by
  obtain ⟨count, rfl⟩ := Nat.exists_eq_succ_of_ne_zero (Nat.ne_of_gt filled)
  rw [List.finRange_succ]
  rfl

/-- To choose spans in a document is to choose spans that are all in it. -/
theorem yielded_within_iff :
    List.Forall₂ (fun span child => span ∈ spansOf (within doc all) child)
        chosen children ↔
      (∀ span ∈ chosen, span.doc = doc) ∧
        List.Forall₂ (fun span child => span ∈ spansOf all child) chosen
          children := by
  simp only [mem_spansOf_within, and_comm (a := _ ∈ _),
    List.forall₂_and_left]

/-- The leftmost spans make an arrangement, if they are within the slop. -/
theorem arranged_of_leftmost?_within (filled : 0 < size) {slop : Nat}
    {first : Span} {rest : List Span}
    (member : first ∈ spansOf all ⟨0, filled⟩)
    (found : leftmost? (spansOf (within first.doc all)) first.stop
      (List.finRange size).tail = some rest)
    (slack : gaps (first :: rest) ≤ slop) :
    Arranged slop (spansOf all) (first :: rest) := by
  obtain ⟨yielded, chain⟩ := arranged_of_leftmost? found rfl
  obtain ⟨inDoc, isYielded⟩ := yielded_within_iff.mp yielded
  have docs : ∀ one ∈ first :: rest, one.doc = first.doc := by
    intro one isOne
    rcases List.mem_cons.mp isOne with rfl | later
    · rfl
    · exact inDoc one later
  constructor
  · rw [finRange_eq_cons filled]
    exact .cons member isYielded
  · exact fun one isOne other isOther =>
      (docs one isOne).trans (docs other isOther).symm
  · exact chain
  · exact slack

/-- An arrangement stops no sooner than the leftmost one. -/
theorem exists_leftmost_of_arranged (filled : 0 < size)
    (steady : ∀ doc child, Steady (spansOf (within doc all) child))
    {slop : Nat} {first : Span} {rest : List Span}
    (arranged : Arranged slop (spansOf all) (first :: rest)) :
    first ∈ spansOf all ⟨0, filled⟩ ∧
      ∃ nearest, leftmost? (spansOf (within first.doc all)) first.stop
          (List.finRange size).tail = some nearest ∧
        (nearest.getLastD first).stop ≤ (rest.getLastD first).stop := by
  have yielded := arranged.yielded
  rw [finRange_eq_cons filled] at yielded
  obtain ⟨member, later⟩ := List.forall₂_cons.mp yielded
  have within := yielded_within_iff.mpr ⟨fun span isSpan =>
    arranged.together span (List.mem_cons_of_mem _ isSpan) first
      List.mem_cons_self, later⟩
  obtain ⟨nearest, isNearest, noLater⟩ := exists_leftmost_le
    (fun child _ => steady first.doc child) within arranged.inOrder
    (UInt32.le_refl _)
  exact ⟨member, nearest, isNearest, getLastD_stop_le first noLater⟩

/--
Of children with spans of one length each, the leftmost arrangement of a span
is one that stops first.
-/
theorem nearest_iff_narrowest (filled : 0 < size)
    (fixed : ∀ child, FixedWidth (spansOf all child))
    (ordered : ∀ child, (all child).Ordered) {first : Span} {slop : Nat} :
    first ∈ spansOf all ⟨0, filled⟩ ∧
        Nearest slop (spansOf (within first.doc all)) first span ↔
      ∃ rest, Arranged slop (spansOf all) (first :: rest) ∧
        Spanning first rest span ∧
        ∀ others, Arranged slop (spansOf all) (first :: others) →
          span.stop ≤ (others.getLastD first).stop := by
  have steady := steady_within fixed ordered
  constructor
  · rintro ⟨member, rest, found, spanning, slack⟩
    refine ⟨rest, arranged_of_leftmost?_within filled member found slack,
      spanning, ?_⟩
    intro others arranged
    obtain ⟨_, nearest, isNearest, noLater⟩ :=
      exists_leftmost_of_arranged filled steady arranged
    rw [found] at isNearest
    cases isNearest
    rw [spanning.stop]
    exact noLater
  · rintro ⟨rest, arranged, spanning, narrowest⟩
    obtain ⟨member, nearest, isNearest, noLater⟩ :=
      exists_leftmost_of_arranged filled steady arranged
    obtain ⟨yielded, chain⟩ := arranged_of_leftmost? isNearest rfl
    -- At equal lengths the gaps grow with the place of the last stop.
    have slack : gaps (first :: nearest) ≤ slop := by
      have filledGaps := chain.gaps_add_lengths
      have alsoFilled := arranged.inOrder.gaps_add_lengths
      have alsoYielded := arranged.yielded
      rw [finRange_eq_cons filled] at alsoYielded
      have lengths := sum_length_eq fixed
        (.cons member (yielded_within_iff.mp yielded).2) alsoYielded
      have stops := UInt32.le_iff_toNat_le.mp noLater
      have within := arranged.slack
      omega
    have isArranged :=
      arranged_of_leftmost?_within filled member isNearest slack
    refine ⟨member, nearest, isNearest, ⟨spanning.doc, spanning.start, ?_⟩,
      slack⟩
    apply UInt32.le_antisymm
    · exact narrowest nearest isArranged
    · rw [spanning.stop]
      exact noLater

end Nearness

/-! ## Queries in order -/

namespace Query

variable {queries : List Query}

/-- The tokens of a term are all one position long, but for the last of all. -/
theorem fixedWidth_visits {occurrences : List Occurrence}
    (inner : ∀ occurrence ∈ occurrences,
      occurrence.position.toNat + 1 < 2 ^ 32) :
    FixedWidth ((Occurrence.visits occurrences).map Visit.span) := by
  refine ⟨1, fun span member => ?_⟩
  have listed := (Occurrence.map_span_visits_sublist occurrences).subset member
  obtain ⟨occurrence, isFiled, rfl⟩ := List.mem_map.mp listed
  have bound := inner occurrence (Occurrence.mem_of_mem_collate isFiled)
  rw [Span.length, Occurrence.span, Span.toNat_stop_ofToken,
    Span.start_ofToken, UInt32.size]
  omega

/--
A node in order whose children have spans of one length each answers, in
ascending order, one span for each span of the first child that some
arrangement within the slop starts with: from there to where the first of these
arrangements stops.
-/
theorem inOrder_drains_narrowest
    (faultFree : ∀ child ∈ queries, child.FaultFree) (slop : Nat)
    (collects : Bool) :
    ∃ (yields : Fin queries.length → List Span) (answered : List Span),
      (∀ child, Walk.drain (queries.get child).openTree =
        .ok (yields child)) ∧
      Walk.drain (proximity .inOrder slop collects queries).openTree =
        .ok answered ∧
      ((∀ child, FixedWidth (yields child)) →
        answered.Pairwise (· < ·) ∧
        ∀ span, span ∈ answered ↔ ∃ first rest,
          Arranged slop yields (first :: rest) ∧ Spanning first rest span ∧
          ∀ others, Arranged slop yields (first :: others) →
            span.stop ≤ (others.getLastD first).stop) := by
  have ordered : ∀ child : Fin queries.length,
      (queries.get child).visits.Ordered := fun child => ordered_visits _
  refine ⟨Nearness.spansOf fun child => (queries.get child).visits, _,
    fun child => drain_openTree (faultFree _ (List.get_mem _ _)),
    drain_openTree (.proximity _ _ _ faultFree), fun fixed => ⟨?_, ?_⟩⟩
  · exact List.pairwise_map.mpr (ordered_visits _)
  · intro span
    rw [visits_proximity]
    by_cases filled : 0 < queries.length
    · rw [Nearness.mem_allMatches_inOrder rfl filled
        (Nearness.steady_within fixed ordered)]
      apply exists_congr
      intro first
      rw [← Nearness.nearest_iff_narrowest filled fixed ordered]
      constructor
      · rintro ⟨member, inDoc, nearest⟩
        exact ⟨member, inDoc ▸ nearest⟩
      · rintro ⟨member, rest, found, spanning, slack⟩
        refine ⟨member, spanning.doc.symm, rest, ?_, spanning, slack⟩
        rw [spanning.doc]
        exact found
    · constructor
      · intro member
        rw [Nearness.allMatches, dif_neg filled] at member
        exact absurd member List.not_mem_nil
      · rintro ⟨first, rest, arranged, _⟩
        have same := arranged.yielded.length_eq
        rw [List.length_finRange] at same
        exact absurd (same ▸ Nat.succ_pos rest.length) filled

/-- Two terms with a gap of one or three positions between them. -/
def spaced : List Query :=
  [.term [⟨1, 0, none⟩, ⟨1, 2, none⟩, ⟨2, 0, none⟩],
    .term [⟨1, 4, none⟩, ⟨1, 5, none⟩, ⟨2, 9, none⟩]]

/-- For each token of the first term the next one of the second is taken. -/
theorem spaced_drains_narrowest :
    (∀ child ∈ spaced, child.FaultFree) ∧
      Walk.drain (proximity .inOrder 3 false spaced).openTree =
        .ok [⟨1, 0, 5, by decide⟩, ⟨1, 2, 5, by decide⟩] ∧
      ∃ yields : Fin spaced.length → List Span,
        (∀ child, Walk.drain (spaced.get child).openTree =
          .ok (yields child)) ∧
        (∀ child, FixedWidth (yields child)) ∧
        ∃ first rest, Arranged 3 yields (first :: rest) ∧
          Spanning first rest ⟨1, 0, 5, by decide⟩ ∧
          ∀ others, Arranged 3 yields (first :: others) →
            5 ≤ (others.getLastD first).stop := by
  have faultFree : ∀ child ∈ spaced, child.FaultFree :=
    forall_mem_pair (.term _) (.term _)
  have drained : Walk.drain (proximity .inOrder 3 false spaced).openTree =
      .ok [⟨1, 0, 5, by decide⟩, ⟨1, 2, 5, by decide⟩] := by
    cbv
  obtain ⟨yields, answered, own, isDrained, narrowest⟩ :=
    inOrder_drains_narrowest faultFree 3 false
  have fixed : ∀ child, FixedWidth (yields child) := by
    intro child
    have isOwn := own child
    rw [drain_openTree (faultFree _ (List.get_mem _ _)),
      Except.ok.injEq] at isOwn
    rw [← isOwn]
    obtain ⟨_ | _ | place, inside⟩ := child
    · exact fixedWidth_visits (by decide)
    · exact fixedWidth_visits (by decide)
    · exact absurd inside (Nat.not_lt.mpr (Nat.le_add_left 2 place))
  rw [drained, Except.ok.injEq] at isDrained
  subst isDrained
  obtain ⟨_, answers⟩ := narrowest fixed
  obtain ⟨first, rest, found⟩ := (answers _).mp List.mem_cons_self
  exact ⟨faultFree, drained, yields, own, fixed, first, rest, found⟩

end Query

end PositionalSearch
