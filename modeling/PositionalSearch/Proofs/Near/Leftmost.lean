import PositionalSearch.Proofs.Near.InOrder

/-!
# Leftmost arrangements of spans of any length

A search in order moves children forward only.  A child that was moved on for
one span of the first child stays there for the next, so where a child is when
the first child comes to a span depends on all the spans that the first child
has passed.  This says for children with spans of any lengths what is answered.
It is the leftmost arrangement of a span of the first child, unless a child was
moved on further for an earlier one.
-/

namespace PositionalSearch

variable {size : Nat} {yields : Fin size → List Span} {slop place : Nat}
  {doc : DocId} {first earlier next span other : Span} {rest : List Span}

/-! ## Stations -/

/-- What the child at a place yields. -/
def yieldAt (yields : Fin size → List Span) (place : Nat) : List Span :=
  if inside : place < size then yields ⟨place, inside⟩ else []

theorem yieldAt_val (yields : Fin size → List Span) (child : Fin size) :
    yieldAt yields child.val = yields child := dif_pos child.isLt

/-- What the children yield in a document. -/
def inDocument (doc : DocId) (yields : Fin size → List Span) :
    Fin size → List Span :=
  fun child => (yields child).filter fun span => span.doc = doc

theorem mem_yieldAt_inDocument :
    span ∈ yieldAt (inDocument doc yields) place ↔
      span ∈ yieldAt yields place ∧ span.doc = doc := by
  unfold yieldAt
  split
  · simp only [inDocument, List.mem_filter, decide_eq_true_eq]
  · simp only [List.not_mem_nil, false_and]

/--
Where the child at a place is when the first child has come to `first`: on its
first span that starts no sooner than its predecessor stops, now and for all
that the first child has passed.
-/
def station? (yields : Fin size → List Span) : Nat → Span → Option Span
  | 0, first => some first
  | place + 1, first =>
      (yieldAt yields (place + 1)).find? fun span =>
        ∀ passed ∈ yieldAt yields 0, passed ≤ first →
          ∀ before ∈ station? yields place passed, before.stop ≤ span.start

/-- The stations of all children after the first. -/
def Stations (yields : Fin size → List Span) (first : Span)
    (rest : List Span) : Prop :=
  ((List.finRange size).tail.map fun child =>
    station? yields child.val first) = rest.map some

theorem Stations.eq (stations : Stations yields first rest)
    {others : List Span} (alsoStations : Stations yields first others) :
    rest = others :=
  List.map_injective_iff.mpr (Option.some_injective Span)
    (stations.symm.trans alsoStations)

/-- Each child after the first has a station. -/
theorem Stations.exists_eq_some (stations : Stations yields first rest)
    {child : Fin size} (member : child ∈ (List.finRange size).tail) :
    ∃ span, station? yields child.val first = some span := by
  have isStation := List.mem_map_of_mem
    (f := fun child : Fin size => station? yields child.val first) member
  rw [stations] at isStation
  obtain ⟨span, _, own⟩ := List.mem_map.mp isStation
  exact ⟨span, own.symm⟩

/-- A child that has no station has none later on. -/
theorem station?_eq_none_of_le (notAfter : earlier ≤ first)
    (ended : station? yields place earlier = none) :
    station? yields place first = none := by
  cases place with
  | zero => cases ended
  | succ place =>
      rw [station?, List.find?_eq_none] at ended ⊢
      intro span member late
      refine ended span member ?_
      rw [decide_eq_true_eq] at late ⊢
      exact fun passed isPassed upTo =>
        late passed isPassed (le_trans upTo notAfter)

/-- Of the items of a list in order none that is wanted comes before. -/
theorem le_of_find?_eq_some {yield : List Span} {wanted : Span → Bool}
    (ordered : yield.Pairwise (· < ·)) (found : yield.find? wanted = some span)
    (member : other ∈ yield) (holds : wanted other) : span ≤ other := by
  obtain ⟨_, before, after, rfl, sooner⟩ :=
    List.find?_eq_some_iff_append.mp found
  rcases List.mem_append.mp member with isBefore | isAfter
  · have unwanted := sooner other isBefore
    rw [holds] at unwanted
    cases unwanted
  · rcases List.mem_cons.mp isAfter with rfl | later
    · exact le_refl other
    · have tail := (List.pairwise_append.mp ordered).2.1
      exact le_of_lt (List.rel_of_pairwise_cons tail later)

/-- The stations of a child never go back. -/
theorem station?_le {before own : Span}
    (ordered : ∀ child, (yields child).Pairwise (· < ·))
    (notAfter : earlier ≤ first)
    (isBefore : station? yields place earlier = some before)
    (isOwn : station? yields place first = some own) : before ≤ own := by
  cases place with
  | zero =>
      cases isBefore
      cases isOwn
      exact notAfter
  | succ place =>
      have inOrder : (yieldAt yields (place + 1)).Pairwise (· < ·) := by
        unfold yieldAt
        split
        · exact ordered _
        · exact .nil
      rw [station?] at isBefore isOwn
      apply le_of_find?_eq_some inOrder isBefore
        (List.mem_of_find?_eq_some isOwn)
      have late := List.find?_some isOwn
      rw [decide_eq_true_eq] at late ⊢
      exact fun passed isPassed upTo =>
        late passed isPassed (le_trans upTo notAfter)

/-- A station is a span of its child. -/
theorem mem_of_station? (member : first ∈ yieldAt yields 0)
    (isStation : station? yields place first = some span) :
    span ∈ yieldAt yields place := by
  cases place with
  | zero =>
      cases isStation
      exact member
  | succ place =>
      rw [station?] at isStation
      exact List.mem_of_find?_eq_some isStation

/-! ## Proposals -/

/--
A span of the first child proposes what lies between it and the last station,
if the gaps on the way are within the slop.
-/
structure Proposes (slop : Nat) (yields : Fin size → List Span)
    (first span : Span) : Prop where
  member : first ∈ yieldAt yields 0
  proposal : ∃ rest, Stations yields first rest ∧ Spanning first rest span ∧
    gaps (first :: rest) ≤ slop

/--
One of some spans of the first child proposes a span, and what the ones before
it propose comes before that.
-/
def Prevails (slop : Nat) (yields : Fin size → List Span)
    (firsts : List Span) (span : Span) : Prop :=
  ∃ first ∈ firsts, Proposes slop yields first span ∧
    ∀ earlier ∈ firsts, earlier < first →
      ∀ other, Proposes slop yields earlier other → other < span

/-- What the first of all proposes prevails, and what comes after it does. -/
theorem prevails_cons {firsts : List Span}
    (ahead : ∀ later ∈ firsts, first < later) :
    Prevails slop yields (first :: firsts) span ↔
      Proposes slop yields first span ∨
        (∀ other, Proposes slop yields first other → other < span) ∧
          Prevails slop yields firsts span := by
  constructor
  · rintro ⟨own, isOwn, proposes, before⟩
    rcases List.mem_cons.mp isOwn with rfl | later
    · exact .inl proposes
    · exact .inr ⟨before first List.mem_cons_self (ahead own later), own, later,
        proposes, fun earlier member =>
          before earlier (List.mem_cons_of_mem _ member)⟩
  · rintro (proposes | ⟨beyond, own, isOwn, proposes, before⟩)
    · refine ⟨first, List.mem_cons_self, proposes, ?_⟩
      intro earlier isEarlier sooner
      rcases List.mem_cons.mp isEarlier with rfl | later
      · exact absurd sooner (lt_irrefl earlier)
      · exact absurd sooner (not_lt_of_gt (ahead earlier later))
    · refine ⟨own, List.mem_cons_of_mem _ isOwn, proposes, ?_⟩
      intro earlier isEarlier sooner
      rcases List.mem_cons.mp isEarlier with rfl | later
      · exact beyond
      · exact before earlier later sooner

/--
What a span of the first child proposes prevails over the earlier spans', or is
not after something that does and that an earlier span proposes.
-/
theorem Proposes.prevails_or (proposes : Proposes slop yields first span) :
    Prevails slop yields (yieldAt yields 0) span ∨
      ∃ earlier < first, ∃ last,
        Prevails slop yields (yieldAt yields 0) last ∧
          Proposes slop yields earlier last ∧ ¬ last < span := by
  by_cases before : ∀ earlier ∈ yieldAt yields 0, earlier < first →
      ∀ other, Proposes slop yields earlier other → other < span
  · exact .inl ⟨first, proposes.member, proposes, before⟩
  · simp only [not_forall, not_lt, exists_prop] at before
    obtain ⟨some, isSome, sooner, other, isOther, notBefore⟩ := before
    -- The first of the spans that propose as much: all before it propose less.
    obtain ⟨earlier, isEarlier, ⟨last, isLast, above⟩, least⟩ := exists_least
      (fun earlier => ∃ last, Proposes slop yields earlier last ∧ span ≤ last)
      ⟨some, isSome, other, isOther, notBefore⟩
    refine .inr ⟨earlier, lt_of_le_of_lt (least some isSome
      ⟨other, isOther, notBefore⟩) sooner, last, ?_, isLast, not_lt.mpr above⟩
    refine ⟨earlier, isEarlier, isLast, ?_⟩
    intro further isFurther isBefore beyond isBeyond
    refine lt_of_lt_of_le (not_le.mp fun reaches => ?_) above
    exact absurd (least further isFurther ⟨beyond, isBeyond, reaches⟩)
      (not_le.mpr isBefore)

/-- What is proposed in a document is in it. -/
theorem Proposes.doc_eq
    (proposes : Proposes slop (inDocument doc yields) first span) :
    span.doc = doc := by
  obtain ⟨member, _, _, spanning, _⟩ := proposes
  exact spanning.doc.trans (mem_yieldAt_inDocument.mp member).2

/-! ## Leftmost stations -/

/--
A span that the first child has passed took some child to a station that stops
too late for a span of the next child, one that could follow the station which
the child has for `first`.
-/
def Overtakes (yields : Fin size → List Span) (passed first : Span) : Prop :=
  ∃ place before own, station? yields place passed = some before ∧
    station? yields place first = some own ∧
    ∃ next ∈ yieldAt yields (place + 1), own.stop ≤ next.start ∧
      next.start < before.stop

/-- No earlier span of the first child overtakes one. -/
def Unhindered (yields : Fin size → List Span) (first : Span) : Prop :=
  ∀ passed ∈ yieldAt yields 0, passed < first →
    ¬ Overtakes yields passed first

/-- No span stops before an earlier one does. -/
def NeverRetreats (yield : List Span) : Prop :=
  ∀ earlier ∈ yield, ∀ later ∈ yield, earlier ≤ later →
    earlier.stop ≤ later.stop

/-- Spans that never retreat do not overtake the spans of the next child. -/
theorem unhindered_of_neverRetreats
    (ordered : ∀ child, (yields child).Pairwise (· < ·))
    (steady : ∀ child : Fin size, child.val + 1 < size →
      NeverRetreats (yields child)) (member : first ∈ yieldAt yields 0) :
    Unhindered yields first := by
  rintro passed isPassed sooner
    ⟨place, before, own, isBefore, isOwn, next, isNext, meets, overtaken⟩
  have inside : place + 1 < size := by
    by_contra outside
    rw [yieldAt, dif_neg outside] at isNext
    exact absurd isNext List.not_mem_nil
  have notAfter : before.stop ≤ own.stop := by
    have isChild : yieldAt yields place = yields ⟨place, by omega⟩ :=
      yieldAt_val yields ⟨place, _⟩
    exact steady ⟨place, by omega⟩ inside before
      (isChild ▸ mem_of_station? isPassed isBefore) own
      (isChild ▸ mem_of_station? member isOwn)
      (station?_le ordered (le_of_lt sooner) isBefore isOwn)
  exact UInt32.not_le.mpr overtaken (UInt32.le_trans notAfter meets)

/-- What is found first stays so when less is looked for. -/
theorem find?_eq_some_of_imp {α : Type} {list : List α}
    {wanted narrower : α → Bool} {item : α}
    (found : list.find? wanted = some item)
    (narrows : ∀ other, narrower other → wanted other)
    (holds : narrower item) : list.find? narrower = some item := by
  obtain ⟨_, before, after, rfl, sooner⟩ :=
    List.find?_eq_some_iff_append.mp found
  refine List.find?_eq_some_iff_append.mpr
    ⟨holds, before, after, rfl, fun other member => ?_⟩
  have unwanted := sooner other member
  rw [Bool.not_eq_true'] at unwanted ⊢
  by_contra isNarrower
  rw [narrows other (by simpa using isNarrower)] at unwanted
  cases unwanted

/-- From one child on the children come one after the other. -/
theorem of_drop_finRange_eq_cons {child : Fin size} {others : List (Fin size)}
    (isDrop : (List.finRange size).drop place = child :: others) :
    child.val = place ∧ (List.finRange size).drop (place + 1) = others := by
  constructor
  · have isHead := congrArg (·[0]?) isDrop
    simp only [List.getElem?_drop, Nat.add_zero, List.getElem?_cons_zero,
      List.getElem?_eq_some_iff, List.getElem_finRange] at isHead
    obtain ⟨_, rfl⟩ := isHead
    rfl
  · rw [← List.tail_drop, isDrop, List.tail_cons]

/-- Where no child was taken further before, the stations are leftmost. -/
theorem stations_of_leftmost? (member : first ∈ yieldAt yields 0)
    (unhindered : Unhindered yields first)
    (found : leftmost? yields first.stop (List.finRange size).tail =
      some rest) : Stations yields first rest := by
  -- Along the children, from the station `own` of the one before them.
  suffices general : ∀ children spans place own,
      (List.finRange size).drop (place + 1) = children →
      station? yields place first = some own →
      leftmost? yields own.stop children = some spans →
        (children.map fun child => station? yields child.val first) =
          spans.map some from
    general _ _ 0 first List.drop_one rfl found
  intro children
  induction children with
  | nil =>
      intro spans place own _ _ isLeftmost
      cases isLeftmost
      rfl
  | cons child others ih =>
      intro spans place own isDrop isOwn isLeftmost
      obtain ⟨isPlace, isFurther⟩ := of_drop_finRange_eq_cons isDrop
      cases isNext : (yields child).find?
          fun span => own.stop ≤ span.start with
      | none =>
          rw [leftmost?_of_none isNext] at isLeftmost
          cases isLeftmost
      | some next =>
          rw [leftmost?_of_some isNext] at isLeftmost
          obtain ⟨later, isLater, rfl⟩ := Option.map_eq_some_iff.mp isLeftmost
          have meets := List.find?_some isNext
          have isYielded := List.mem_of_find?_eq_some isNext
          rw [← yieldAt_val yields child, isPlace] at isNext isYielded
          rw [decide_eq_true_eq] at meets
          have isStation : station? yields (place + 1) first = some next := by
            rw [station?]
            apply find?_eq_some_of_imp isNext
            · intro span late
              rw [decide_eq_true_eq] at late ⊢
              exact late first member (le_refl first) own isOwn
            · rw [decide_eq_true_eq]
              intro passed isPassed upTo before isBefore
              rcases lt_or_eq_of_le upTo with sooner | rfl
              · by_contra beyond
                exact unhindered passed isPassed sooner ⟨place, before, own,
                  isBefore, isOwn, next, isYielded, meets,
                  UInt32.not_le.mp beyond⟩
              · rw [isOwn] at isBefore
                cases isBefore
                exact meets
          rw [List.map_cons, List.map_cons, isPlace, isStation,
            ih later (place + 1) next isFurther isStation isLater]

/-! ## Children that are moved on -/

namespace Nearness

variable {all left ready : Fin size → Visits} {passed : List Span}
  {child : Fin size} {children : List (Fin size)} {visit : Visit}
  {visits later : Visits} {before : Span}

theorem spansOf_within (doc : DocId) (all : Fin size → Visits) :
    spansOf (within doc all) = inDocument doc (spansOf all) := by
  funext child
  rw [spansOf, within, Visits.inside, inDocument, spansOf, List.filter_map]
  rfl

/-- A visit starts too early for what the first child has passed. -/
def isBehind (yields : Fin size → List Span) (passed : List Span)
    (place : Nat) (visit : Visit) : Bool :=
  passed.any fun earlier =>
    (station? yields place earlier).any fun before =>
      visit.span.start < before.stop

theorem isBehind_iff : isBehind yields passed place visit ↔
    ∃ earlier ∈ passed, ∃ before ∈ station? yields place earlier,
      visit.span.start < before.stop := by
  simp only [isBehind, List.any_eq_true, Option.any_eq_true,
    decide_eq_true_eq, Option.mem_def]

theorem isBehind_concat
    (isStation : station? yields place first = some before) :
    isBehind yields (passed ++ [first]) place = fun visit =>
      isBehind yields passed place visit ||
        decide (visit.span.start < before.stop) := by
  funext visit
  simp only [isBehind, List.any_append, List.any_cons, List.any_nil,
    isStation, Option.any_some, Bool.or_false]

/-- Of two bounds the further one decides what is dropped. -/
theorem dropWhile_dropWhile {α : Type} {early sooner : α → Bool}
    (nested : (∀ item, early item → sooner item) ∨
      ∀ item, sooner item → early item) (list : List α) :
    (list.dropWhile sooner).dropWhile early =
      list.dropWhile fun item => sooner item || early item := by
  induction list with
  | nil => rfl
  | cons item rest ih =>
      by_cases isSooner : sooner item
      · rw [List.dropWhile_cons_of_pos isSooner, ih,
          List.dropWhile_cons_of_pos (by rw [isSooner, Bool.true_or])]
      · rw [List.dropWhile_cons_of_neg isSooner]
        rcases nested with within | beyond
        · have isLate := mt (within item) isSooner
          rw [List.dropWhile_cons_of_neg isLate,
            List.dropWhile_cons_of_neg (by simp [isSooner, isLate])]
        · congr 1
          funext other
          cases isOther : sooner other with
          | false => rw [Bool.false_or]
          | true => rw [beyond other isOther, Bool.true_or]

/--
What a child has left when it was moved on for some spans that the first child
has passed.
-/
def leftAfter (all : Fin size → Visits) (passed : List Span)
    (child : Fin size) : Visits :=
  (all child).dropWhile (isBehind (spansOf all) passed (child.val - 1))

/-- A child is moved on for one more span from where it was. -/
theorem startingAt_leftAfter
    (isStation : station? (spansOf all) (child.val - 1) first = some before) :
    (leftAfter all passed child).startingAt before.stop =
      leftAfter all (passed ++ [first]) child := by
  rw [leftAfter, leftAfter, isBehind_concat isStation, Visits.startingAt]
  apply dropWhile_dropWhile
  -- Either some passed span took the predecessor as far, or none did.
  by_cases further : ∃ earlier ∈ passed,
      ∃ other ∈ station? (spansOf all) (child.val - 1) earlier,
        before.stop ≤ other.stop
  · obtain ⟨earlier, isPassed, other, isOther, further⟩ := further
    refine .inl fun visit early => isBehind_iff.mpr
      ⟨earlier, isPassed, other, isOther, ?_⟩
    exact UInt32.lt_of_lt_of_le (of_decide_eq_true early) further
  · refine .inr fun visit behind => decide_eq_true ?_
    obtain ⟨earlier, isPassed, other, isOther, early⟩ := isBehind_iff.mp behind
    apply UInt32.lt_trans early
    apply UInt32.not_le.mp
    exact fun above => further ⟨earlier, isPassed, other, isOther, above⟩

section

variable {firsts : List Span}
  (isFirst : yieldAt (spansOf all) 0 = passed ++ first :: firsts)
  (ordered : (yieldAt (spansOf all) 0).Pairwise (· < ·))

include isFirst ordered

/-- The spans up to one of the first child are those that it has passed. -/
theorem mem_upTo_iff : span ∈ yieldAt (spansOf all) 0 ∧ span ≤ first ↔
    span ∈ passed ++ [first] := by
  rw [isFirst] at ordered ⊢
  obtain ⟨_, tail, across⟩ := List.pairwise_append.mp ordered
  simp only [List.mem_append, List.mem_cons, List.not_mem_nil, or_false]
  constructor
  · rintro ⟨isPassed | rfl | later, notAfter⟩
    · exact .inl isPassed
    · exact .inr rfl
    · exact absurd (List.rel_of_pairwise_cons tail later)
        (not_lt_of_ge notAfter)
  · rintro (isPassed | rfl)
    · exact ⟨.inl isPassed,
        le_of_lt (across span isPassed first List.mem_cons_self)⟩
    · exact ⟨.inr (.inl rfl), le_refl span⟩

/-- A child that is moved on is at its station. -/
theorem head?_leftAfter (further : child.val ≠ 0) :
    (leftAfter all (passed ++ [first]) child).head?.map Visit.span =
      station? (spansOf all) child.val first := by
  obtain ⟨place, isPlace⟩ := Nat.exists_eq_succ_of_ne_zero further
  rw [leftAfter, isPlace, Nat.succ_sub_one, Nat.succ_eq_add_one, station?,
    ← Nat.succ_eq_add_one, ← isPlace, yieldAt_val, spansOf, List.find?_map,
    ← List.find?_not_eq_head?_dropWhile]
  congr 2
  funext visit
  rw [Bool.eq_iff_iff, Bool.not_eq_true', ← Bool.not_eq_true, isBehind_iff,
    Function.comp_apply, decide_eq_true_eq]
  constructor
  · intro ahead earlier isEarlier notAfter before isStation
    by_contra early
    exact ahead ⟨earlier,
      (mem_upTo_iff isFirst ordered).mp ⟨isEarlier, notAfter⟩, before,
      isStation, UInt32.not_le.mp early⟩
  · rintro late ⟨earlier, isEarlier, before, isStation, early⟩
    obtain ⟨member, notAfter⟩ := (mem_upTo_iff isFirst ordered).mpr isEarlier
    exact UInt32.not_le.mpr early
      (late earlier member notAfter before isStation)

/--
When the first child comes to a span, the children are moved on one by one to
their stations, up to one that has none.
-/
theorem stretch_to_stations
    (isDrop : (List.finRange size).drop (place + 1) = children)
    (isOwn : station? (spansOf all) place first = some before)
    (moved : ∀ child ∈ children, left child = leftAfter all passed child) :
    (stretch before.stop children left = none →
      ∃ child ∈ children, station? (spansOf all) child.val first = none) ∧
    ∀ ready, stretch before.stop children left = some ready →
      ∀ child ∈ children,
        ready child = leftAfter all (passed ++ [first]) child := by
  induction children generalizing place before left with
  | nil =>
      constructor
      · exact fun ended => nomatch ended
      · exact fun _ _ _ member => absurd member List.not_mem_nil
  | cons child others ih =>
      obtain ⟨isPlace, isFurther⟩ := of_drop_finRange_eq_cons isDrop
      have once : (child :: others).Nodup := by
        rw [← isDrop]
        exact (List.nodup_finRange size).sublist (List.drop_sublist _ _)
      obtain ⟨notLater, _⟩ := List.nodup_cons.mp once
      have further : child.val ≠ 0 := by
        rw [isPlace]
        exact Nat.succ_ne_zero place
      have isHead := head?_leftAfter isFirst ordered further
      have isMoved : (left child).startingAt before.stop =
          leftAfter all (passed ++ [first]) child := by
        rw [moved child List.mem_cons_self]
        apply startingAt_leftAfter
        rw [isPlace]
        exact isOwn
      rw [← isMoved] at isHead
      cases starts : (left child).startingAt before.stop with
      | nil =>
          rw [starts] at isHead
          rw [stretch_of_nil starts]
          exact ⟨fun _ => ⟨child, List.mem_cons_self, isHead.symm⟩,
            fun _ impossible => nomatch impossible⟩
      | cons head rest =>
          rw [starts, List.head?_cons, Option.map_some, isPlace] at isHead
          have movedOthers : ∀ other ∈ others,
              Function.update left child (head :: rest) other =
                leftAfter all passed other := by
            intro other member
            rw [Function.update_of_ne (ne_of_mem_of_not_mem member notLater)]
            exact moved other (List.mem_cons_of_mem _ member)
          obtain ⟨ended, goesOn⟩ := ih isFurther isHead.symm movedOthers
          rw [stretch_of_cons starts]
          constructor
          · intro isNone
            obtain ⟨other, member, none⟩ := ended isNone
            exact ⟨other, List.mem_cons_of_mem _ member, none⟩
          · intro ready stretched other member
            rcases List.mem_cons.mp member with rfl | later
            · rw [stretch_of_not_mem stretched notLater, Function.update_self,
                ← starts, isMoved]
            · exact goesOn ready stretched other later

end

/--
While a search in order goes on, each child but the first was moved on for the
spans that the first child has passed.
-/
structure MovedOn (filled : 0 < size) (all left : Fin size → Visits)
    (passed : List Span) : Prop where
  firsts : yieldAt (spansOf all) 0 = passed ++ spansOf left ⟨0, filled⟩
  others : ∀ child ∈ (List.finRange size).tail,
    left child = leftAfter all passed child

/-- At first nothing is passed. -/
theorem movedOn_nil (filled : 0 < size) (all : Fin size → Visits) :
    MovedOn filled all all [] where
  firsts := yieldAt_val (spansOf all) ⟨0, filled⟩
  others child _ := by
    rw [leftAfter, List.dropWhile_eq_self_iff.mpr]
    exact fun _ => Bool.false_ne_true

section

variable {rule : Nearness} {filled : 0 < size} {lined : Lined size}
  {last? : Option Span}

/-- The first child goes through its spans one after the other. -/
theorem MovedOn.head (movedOn : MovedOn filled all left passed)
    (ordered : (yieldAt (spansOf all) 0).Pairwise (· < ·))
    (isLeft : left ⟨0, filled⟩ = visit :: visits) :
    visit.span ∈ yieldAt (spansOf all) 0 ∧
      ∀ later ∈ visits.map Visit.span, visit.span < later := by
  have isFirst := movedOn.firsts
  rw [spansOf, isLeft, List.map_cons] at isFirst
  rw [isFirst] at ordered ⊢
  have tail := (List.pairwise_append.mp ordered).2.1
  exact ⟨List.mem_append_right _ List.mem_cons_self,
    fun later member => List.rel_of_pairwise_cons tail member⟩

/-- What is lined up for a span of the first child are its stations. -/
theorem MovedOn.of_lineUp? (inOrder : rule.arrangement = .inOrder)
    (movedOn : MovedOn filled all left passed)
    (ordered : (yieldAt (spansOf all) 0).Pairwise (· < ·))
    (found : rule.lineUp? filled left = some lined) :
    ∃ visit spans,
      left ⟨0, filled⟩ = visit :: pass ⟨0, filled⟩ lined.left ⟨0, filled⟩ ∧
      lined.spans.toList = visit.span :: spans ∧
      InOrder (visit.span :: spans) ∧
      Stations (spansOf all) visit.span spans ∧
      MovedOn filled all (pass ⟨0, filled⟩ lined.left)
        (passed ++ [visit.span]) := by
  obtain ⟨visit, isLeft, stretched, isList⟩ :=
    exists_stretch_of_lineUp? inOrder found
  have isFirst := movedOn.firsts
  rw [spansOf, isLeft, List.map_cons] at isFirst
  have moved := (stretch_to_stations isFirst ordered List.drop_one rfl
    movedOn.others).2 lined.left stretched
  refine ⟨visit, _, isLeft, isList, ?_, ?_, ?_, ?_⟩
  · exact inOrder_of_stretch (fun child => lined.spans[child]) stretched
      Lineup.nodup_tail_finRange rfl
      fun child _ => map_span_head?_left lined child
  · rw [Stations, List.map_map]
    apply List.map_congr_left
    intro child member
    have further : child.val ≠ 0 := fun isZero =>
      Lineup.first_not_mem_tail filled
        ((Fin.ext isZero : child = ⟨0, filled⟩) ▸ member)
    rw [← head?_leftAfter isFirst ordered further, ← moved child member]
    exact map_span_head?_left lined child
  · rw [isFirst, List.append_assoc]
    rfl
  · intro child member
    rw [pass_of_ne (ne_of_mem_of_not_mem member
      (Lineup.first_not_mem_tail filled))]
    exact moved child member

/-- Where nothing can be lined up nothing is proposed from there on. -/
theorem MovedOn.not_proposes (inOrder : rule.arrangement = .inOrder)
    (movedOn : MovedOn filled all left passed)
    (ordered : (yieldAt (spansOf all) 0).Pairwise (· < ·))
    (ended : rule.lineUp? filled left = none)
    (isFirst : first ∈ spansOf left ⟨0, filled⟩) :
    ¬ Proposes slop (spansOf all) first span := by
  rintro ⟨_, rest, stations, _⟩
  obtain ⟨visit, others, isLeft⟩ := List.exists_cons_of_ne_nil
    (List.ne_nil_of_mem (List.mem_map.mp isFirst).choose_spec.1)
  have isHead := movedOn.firsts
  rw [spansOf, isLeft, List.map_cons] at isHead isFirst
  obtain ⟨child, member, none⟩ := (stretch_to_stations isHead ordered
    List.drop_one rfl movedOn.others).1
      (stretch_eq_none_of_lineUp? inOrder ended isLeft)
  have notAfter : visit.span ≤ first := by
    rcases List.mem_cons.mp isFirst with rfl | later
    · exact le_refl _
    · exact le_of_lt ((movedOn.head ordered isLeft).2 first later)
  obtain ⟨station, isStation⟩ := stations.exists_eq_some member
  rw [station?_eq_none_of_le notAfter none] at isStation
  cases isStation

/-- A span of the first child proposes what fits of the spans lined up for it. -/
theorem proposes_iff (inOrder : rule.arrangement = .inOrder)
    {yields : Fin size → List Span} (member : first ∈ yieldAt yields 0)
    (isList : lined.spans.toList = first :: rest)
    (chain : InOrder (first :: rest)) (stations : Stations yields first rest)
    (inDoc : first.doc = doc) :
    Proposes rule.slop yields first span ↔
      rule.fitting? filled doc lined = some span := by
  rw [fitting?_inOrder inOrder isList chain inDoc]
  constructor
  · rintro ⟨_, others, alsoStations, fits⟩
    cases stations.eq alsoStations
    exact fits
  · exact fun fits => ⟨member, rest, stations, fits⟩

/--
A search in order of what the children have left answers what prevails, if it
is new.
-/
theorem MovedOn.mem_slide (inOrder : rule.arrangement = .inOrder)
    (movedOn : MovedOn filled all left passed)
    (ordered : (yieldAt (spansOf all) 0).Pairwise (· < ·))
    (inDoc : ∀ span ∈ yieldAt (spansOf all) 0, span.doc = doc) :
    span ∈ (rule.slide filled doc last? left).map Visit.span ↔
      isNew last? span ∧
        Prevails rule.slop (spansOf all) (spansOf left ⟨0, filled⟩) span := by
  have pivots : ∀ lined, rule.pivot filled lined = ⟨0, filled⟩ := by
    intro lined
    unfold pivot
    rw [inOrder]
  fun_induction slide rule filled doc last? left generalizing passed with
  | case1 last? left ended =>
      constructor
      · exact fun none => absurd none List.not_mem_nil
      · rintro ⟨_, first, isFirst, proposes, _⟩
        exact absurd proposes (movedOn.not_proposes inOrder ordered ended
          isFirst)
  | case2 last? left lined found shorter misses ih =>
      obtain ⟨visit, rest, isLeft, isList, chain, stations, goesOn⟩ :=
        movedOn.of_lineUp? inOrder ordered found
      obtain ⟨member, ahead⟩ := movedOn.head ordered isLeft
      have fitting : ∀ span, Proposes rule.slop (spansOf all) visit.span span ↔
          rule.fitting? filled doc lined = some span := fun _ =>
        proposes_iff inOrder member isList chain stations (inDoc _ member)
      simp only [pivots] at ih ⊢
      rw [spansOf, isLeft, List.map_cons, prevails_cons ahead, fitting]
      apply (ih goesOn).trans
      apply and_congr_right
      intro new
      constructor
      · intro prevails
        -- What the passed span proposes is old, so it is before what is new.
        refine .inr ⟨fun other proposes => ?_, prevails⟩
        by_contra notBefore
        rw [(fitting other).mp proposes, Option.filter_some,
          if_pos (isNew_of_le new (not_lt.mp notBefore))] at misses
        cases misses
      · rintro (fits | ⟨_, prevails⟩)
        · rw [fits, Option.filter_some, if_pos new] at misses
          cases misses
        · exact prevails
  | case3 last? left lined found shorter whole hits ih =>
      obtain ⟨visit, rest, isLeft, isList, chain, stations, goesOn⟩ :=
        movedOn.of_lineUp? inOrder ordered found
      obtain ⟨member, ahead⟩ := movedOn.head ordered isLeft
      have fitting : ∀ span, Proposes rule.slop (spansOf all) visit.span span ↔
          rule.fitting? filled doc lined = some span := fun _ =>
        proposes_iff inOrder member isList chain stations (inDoc _ member)
      obtain ⟨fits, new⟩ := Option.filter_eq_some_iff.mp hits
      simp only [pivots] at ih ⊢
      rw [spansOf, isLeft, List.map_cons, List.map_cons, List.mem_cons,
        prevails_cons ahead, fitting, fits]
      apply (or_congr_right (ih goesOn)).trans
      constructor
      · rintro (rfl | ⟨later, prevails⟩)
        · exact ⟨new, .inl rfl⟩
        · refine ⟨isNew_trans new later, .inr ⟨?_, prevails⟩⟩
          intro other proposes
          rw [(fitting other).mp proposes] at fits
          cases fits
          exact of_decide_eq_true later
      · rintro ⟨_, isWhole | ⟨beyond, prevails⟩⟩
        · exact .inl (Option.some.inj isWhole).symm
        · exact .inr ⟨decide_eq_true (beyond whole ((fitting whole).mpr fits)),
            prevails⟩

/-- The matches of children with spans of any lengths are what prevails. -/
theorem mem_allMatches_prevails (inOrder : rule.arrangement = .inOrder)
    (ordered : ∀ child, (all child).Ordered) :
    span ∈ (rule.allMatches all).map Visit.span ↔
      Prevails rule.slop (inDocument span.doc (spansOf all))
        (yieldAt (inDocument span.doc (spansOf all)) 0) span := by
  rw [← spansOf_within]
  by_cases filled : 0 < size
  · have firsts := yieldAt_val (spansOf (within span.doc all)) ⟨0, filled⟩
    rw [mem_map_allMatches filled,
      (movedOn_nil filled (within span.doc all)).mem_slide inOrder, firsts]
    · exact and_iff_right rfl
    · rw [firsts]
      exact List.pairwise_map.mpr ((ordered ⟨0, filled⟩).filter _)
    · rw [firsts]
      exact fun one member => (mem_spansOf_within.mp member).2
  · constructor
    · intro member
      rw [allMatches, dif_neg filled] at member
      exact absurd member List.not_mem_nil
    · rintro ⟨first, isFirst, _⟩
      rw [yieldAt, dif_neg filled] at isFirst
      exact absurd isFirst List.not_mem_nil

end

end Nearness

/-! ## Queries in order, with spans of any lengths -/

namespace Query

variable {queries : List Query}

/--
A node in order answers what prevails among what the spans of the first child
propose, document by document.  For a span that no earlier one overtakes that is
its leftmost arrangement, which is thus answered if it is within the slop, or
is not after what is answered for an earlier span.  Where no child but the last
has a span that stops before an earlier one no span is overtaken.
-/
theorem inOrder_drains_leftmost
    (faultFree : ∀ child ∈ queries, child.FaultFree) (slop : Nat)
    (collects : Bool) :
    ∃ (yields : Fin queries.length → List Span) (answered : List Span),
      (∀ child, Walk.drain (queries.get child).openTree =
        .ok (yields child)) ∧
      Walk.drain (proximity .inOrder slop collects queries).openTree =
        .ok answered ∧
      answered.Pairwise (· < ·) ∧
      (∀ span, span ∈ answered ↔
        Prevails slop (inDocument span.doc yields)
          (yieldAt (inDocument span.doc yields) 0) span) ∧
      ∀ first ∈ yieldAt yields 0, ∀ rest span,
        leftmost? (inDocument first.doc yields) first.stop
          (List.finRange queries.length).tail = some rest →
        gaps (first :: rest) ≤ slop → Spanning first rest span →
        (Unhindered (inDocument first.doc yields) first ∨
          ∀ child : Fin queries.length, child.val + 1 < queries.length →
            NeverRetreats (inDocument first.doc yields child)) →
        span ∈ answered ∨ ∃ earlier < first, ∃ last ∈ answered,
          Proposes slop (inDocument first.doc yields) earlier last ∧
            ¬ last < span := by
  have ordered : ∀ child : Fin queries.length,
      (queries.get child).visits.Ordered := fun child => ordered_visits _
  have prevails : ∀ span, span ∈
      (proximity .inOrder slop collects queries).visits.map Visit.span ↔
        Prevails slop (inDocument span.doc (Nearness.spansOf
            fun child => (queries.get child).visits))
          (yieldAt (inDocument span.doc (Nearness.spansOf
            fun child => (queries.get child).visits)) 0) span := by
    intro span
    rw [visits_proximity, Nearness.mem_allMatches_prevails rfl ordered]
  refine ⟨_, _, fun child => drain_openTree (faultFree _ (List.get_mem _ _)),
    drain_openTree (.proximity _ _ _ faultFree),
    List.pairwise_map.mpr (ordered_visits _), prevails, ?_⟩
  intro first isFirst rest span isLeftmost slack spanning clear
  have member := mem_yieldAt_inDocument.mpr ⟨isFirst, rfl⟩
  have unhindered := clear.elim id fun steady =>
    unhindered_of_neverRetreats (fun child =>
      (List.pairwise_map.mpr (ordered child)).filter _) steady member
  have proposes : Proposes slop _ first span := ⟨member, rest,
    stations_of_leftmost? member unhindered isLeftmost, spanning, slack⟩
  rcases proposes.prevails_or with best | ⟨earlier, sooner, last, best, others⟩
  · rw [← proposes.doc_eq] at best
    exact .inl ((prevails span).mpr best)
  · rw [← others.1.doc_eq] at best
    exact .inr ⟨earlier, sooner, last, (prevails last).mpr best, others⟩

/-- The first child has a span inside a longer one, the second one span. -/
def indented : List Query := [spread 1 [(0, 4), (1, 2)], spread 1 [(5, 8)]]

/-- What the two children yield. -/
def indentedSpans : Fin 2 → List Span :=
  ![[⟨1, 0, 4, by decide⟩, ⟨1, 1, 2, by decide⟩], [⟨1, 5, 8, by decide⟩]]

/-- The longer span stops early enough to leave the shorter one its leftmost. -/
theorem unhindered_indented :
    Unhindered (inDocument 1 indentedSpans) ⟨1, 1, 2, by decide⟩ := by
  rintro passed isPassed sooner
    ⟨_ | place, before, own, isBefore, isOwn, next, isNext, _, overtaken⟩
  · cases isBefore
    have clear : ∀ passed ∈ yieldAt (inDocument 1 indentedSpans) 0,
        ∀ next ∈ yieldAt (inDocument 1 indentedSpans) 1,
          ¬ next.start < passed.stop := by
      decide
    exact clear passed isPassed next isNext overtaken
  · rw [yieldAt, dif_neg (Nat.not_lt.mpr (Nat.le_add_left 2 place))] at isNext
    exact absurd isNext List.not_mem_nil

/-- For both spans of the first child the second child's span is answered. -/
theorem indented_drains_leftmost :
    (∀ child ∈ indented, child.FaultFree) ∧
      Walk.drain (proximity .inOrder 3 false indented).openTree =
        .ok [⟨1, 0, 8, by decide⟩, ⟨1, 1, 8, by decide⟩] ∧
      Unhindered (inDocument 1 indentedSpans) ⟨1, 1, 2, by decide⟩ ∧
      leftmost? (inDocument 1 indentedSpans) 2 (List.finRange 2).tail =
        some [⟨1, 5, 8, by decide⟩] ∧
      Prevails 3 (inDocument 1 indentedSpans)
        (yieldAt (inDocument 1 indentedSpans) 0) ⟨1, 1, 8, by decide⟩ := by
  have faultFree : ∀ child ∈ indented, child.FaultFree :=
    forall_mem_pair (faultFree_spread _ _) (faultFree_spread _ _)
  have drained : Walk.drain (proximity .inOrder 3 false indented).openTree =
      .ok [⟨1, 0, 8, by decide⟩, ⟨1, 1, 8, by decide⟩] := by
    cbv
  obtain ⟨yields, answered, own, isDrained, _, prevails, _⟩ :=
    inOrder_drains_leftmost faultFree 3 false
  have isYielded : yields = indentedSpans := by
    funext child
    apply Except.ok.inj (ε := Failure)
    rw [← own child]
    obtain ⟨_ | _ | place, inside⟩ := child
    · cbv
    · cbv
    · exact absurd inside (Nat.not_lt.mpr (Nat.le_add_left 2 place))
  rw [drained, Except.ok.injEq] at isDrained
  subst isDrained isYielded
  exact ⟨faultFree, drained, unhindered_indented, by decide,
    (prevails _).mp (List.mem_cons_of_mem _ List.mem_cons_self)⟩

/-- A wide span of the first child leads past what the next one could take. -/
def detoured : List Query :=
  [spread 1 [(0, 10), (1, 2)], spread 1 [(2, 3), (10, 11)]]

/--
The second child is moved on for the wide span, and is not moved back for the
next: its leftmost span for that one is adjacent, and is not answered.
-/
theorem detoured_misses_leftmost :
    (∀ child ∈ detoured, child.FaultFree) ∧
      Walk.drain (proximity .inOrder 0 false detoured).openTree =
        .ok [⟨1, 0, 11, by decide⟩] ∧
      ∃ yields : Fin detoured.length → List Span,
        (∀ child, Walk.drain (detoured.get child).openTree =
          .ok (yields child)) ∧
        ⟨1, 1, 2, by decide⟩ ∈ yieldAt yields 0 ∧
        leftmost? (inDocument 1 yields) 2 (List.finRange detoured.length).tail =
          some [⟨1, 2, 3, by decide⟩] ∧
        gaps [⟨1, 1, 2, by decide⟩, ⟨1, 2, 3, by decide⟩] = 0 ∧
        (⟨1, 0, 11, by decide⟩ : Span) < ⟨1, 1, 3, by decide⟩ := by
  refine ⟨forall_mem_pair (faultFree_spread _ _) (faultFree_spread _ _),
    by cbv, ![[⟨1, 0, 10, by decide⟩, ⟨1, 1, 2, by decide⟩],
      [⟨1, 2, 3, by decide⟩, ⟨1, 10, 11, by decide⟩]], ?_, ?_, ?_, ?_, ?_⟩
  · intro child
    obtain ⟨_ | _ | place, inside⟩ := child
    · cbv
    · cbv
    · exact absurd inside (Nat.not_lt.mpr (Nat.le_add_left 2 place))
  · decide
  · decide
  · decide
  · decide

end Query

end PositionalSearch
