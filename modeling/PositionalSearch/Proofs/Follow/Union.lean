import PositionalSearch.Proofs.Order.Union
import PositionalSearch.Proofs.Plain

/-!
# Unions follow plain cursors

A union yields what any of its children yields, each span once, with the
payloads that the first child with this span has there.  What is left of a
union is merged from what is left of its children, and its queue holds the
first span of each child that has some left.
-/

namespace PositionalSearch

open Cursor (Follows Mirrors Takes)

/-! ## Merging visits -/

namespace Visits

/-- Put a visit in its place, unless its span is there already. -/
def file (added : Visit) : Visits → Visits
  | [] => [added]
  | first :: rest =>
      if added.span < first.span then added :: first :: rest
      else if first.span < added.span then first :: file added rest
      else first :: rest

/-- All visits of two lists; of two with one span, that of the first list. -/
def merge (first second : Visits) : Visits :=
  second.foldl (fun filed added => file added filed) first

/-- All visits of some lists; of those with one span, that of the first. -/
def mergeAll : List Visits → Visits
  | [] => []
  | first :: rest => merge first (mergeAll rest)

/-- No visit has the span. -/
def Lacks (visits : Visits) (span : Span) : Prop :=
  ∀ visit ∈ visits, visit.span ≠ span

variable {visits first second : Visits} {added visit : Visit}

theorem mem_file (ordered : visits.Ordered) :
    visit ∈ file added visits ↔
      visit ∈ visits ∨ visit = added ∧ visits.Lacks added.span := by
  induction visits with
  | nil => simp [file, Lacks]
  | cons head rest ih =>
      unfold file
      split
      · rename_i before
        have lacks : Lacks (head :: rest) added.span := by
          intro other member
          rcases List.mem_cons.mp member with rfl | later
          · exact ne_of_gt before
          · exact ne_of_gt (lt_trans before (ordered.head_lt later))
        simp [lacks, or_comm]
      · rename_i notBefore
        split
        · rename_i after
          have same : Lacks (head :: rest) added.span ↔
              Lacks rest added.span := by
            simp [Lacks, ne_of_lt after]
          simp only [List.mem_cons, ih ordered.tail, same, or_assoc]
        · rename_i notAfter
          have same : head.span = added.span :=
            le_antisymm (le_of_not_gt notBefore) (le_of_not_gt notAfter)
          have has : ¬ Lacks (head :: rest) added.span := fun lacks =>
            lacks head List.mem_cons_self same
          simp [has]

theorem ordered_file (added : Visit) (ordered : visits.Ordered) :
    (file added visits).Ordered := by
  induction visits with
  | nil => exact List.pairwise_singleton _ _
  | cons head rest ih =>
      unfold file
      split
      · rename_i before
        refine List.pairwise_cons.mpr ⟨fun later member => ?_, ordered⟩
        rcases List.mem_cons.mp member with rfl | further
        · exact before
        · exact lt_trans before (ordered.head_lt further)
      · split
        · rename_i after
          refine List.pairwise_cons.mpr
            ⟨fun later member => ?_, ih ordered.tail⟩
          rcases (mem_file ordered.tail).mp member with old | ⟨rfl, _⟩
          · exact ordered.head_lt old
          · exact after
        · exact ordered

theorem ordered_merge (ordered : first.Ordered) :
    (merge first second).Ordered := by
  induction second generalizing first with
  | nil => exact ordered
  | cons added rest ih => exact ih (ordered_file added ordered)

theorem mem_merge (left : first.Ordered) (right : second.Ordered) :
    visit ∈ merge first second ↔
      visit ∈ first ∨ visit ∈ second ∧ first.Lacks visit.span := by
  induction second generalizing first with
  | nil => simp [merge]
  | cons added rest ih =>
      have filed := ih (ordered_file added left) right.tail
      change visit ∈ merge (file added first) rest ↔ _
      rw [filed, mem_file left, List.mem_cons]
      constructor
      · rintro ((old | ⟨rfl, lacks⟩) | ⟨later, lacks⟩)
        · exact .inl old
        · exact .inr ⟨.inl rfl, lacks⟩
        · exact .inr ⟨.inr later, fun other member =>
            lacks other ((mem_file left).mpr (.inl member))⟩
      · rintro (old | ⟨rfl | later, lacks⟩)
        · exact .inl (.inl old)
        · exact .inl (.inr ⟨rfl, lacks⟩)
        · refine .inr ⟨later, fun other member => ?_⟩
          rcases (mem_file left).mp member with old | ⟨rfl, _⟩
          · exact lacks other old
          · exact ne_of_lt (right.head_lt later)

theorem ordered_mergeAll {lists : List Visits}
    (ordered : ∀ list ∈ lists, Ordered list) : (mergeAll lists).Ordered := by
  cases lists with
  | nil => exact Ordered.nil
  | cons first rest =>
      exact ordered_merge (ordered first List.mem_cons_self)

/-- What is merged is what no earlier list has. -/
theorem mem_mergeAll {lists : List Visits}
    (ordered : ∀ list ∈ lists, Ordered list) :
    visit ∈ mergeAll lists ↔ ∃ (place : Nat) (inside : place < lists.length),
      visit ∈ lists[place] ∧ ∀ (earlier : Nat) (before : earlier < place),
        Lacks lists[earlier] visit.span := by
  induction lists with
  | nil => simp [mergeAll]
  | cons first rest ih =>
      have tail : ∀ list ∈ rest, Ordered list := fun list member =>
        ordered list (List.mem_cons_of_mem _ member)
      rw [mergeAll, mem_merge (ordered first List.mem_cons_self)
        (ordered_mergeAll tail), ih tail]
      constructor
      · rintro (here | ⟨⟨place, inside, member, lacks⟩, firstLacks⟩)
        · exact ⟨0, Nat.succ_pos _, here, nofun⟩
        · refine ⟨place + 1, Nat.succ_lt_succ inside, member, ?_⟩
          intro earlier before
          cases earlier with
          | zero => exact firstLacks
          | succ earlier => exact lacks earlier (Nat.lt_of_succ_lt_succ before)
      · rintro ⟨place, inside, member, lacks⟩
        cases place with
        | zero => exact .inl member
        | succ place =>
            exact .inr ⟨⟨place, Nat.lt_of_succ_lt_succ inside, member,
              fun earlier before => lacks (earlier + 1)
                (Nat.succ_lt_succ before)⟩, lacks 0 (Nat.succ_pos _)⟩

end Visits

namespace Union

variable {σ : Type} {size : Nat}

/-- Some visits are merged from those of the children. -/
structure Merges (left : Fin size → Visits) (visits : Visits) : Prop where
  ordered : visits.Ordered
  mem_iff : ∀ visit, visit ∈ visits ↔ ∃ child, visit ∈ left child ∧
    ∀ earlier < child, (left earlier).Lacks visit.span

/-- What the children yield is merged as a list of lists. -/
theorem merges_ofFn {left : Fin size → Visits}
    (ordered : ∀ child, (left child).Ordered) :
    Merges left (Visits.mergeAll (List.ofFn left)) := by
  have all : ∀ list ∈ List.ofFn left, Visits.Ordered list := by
    intro list member
    obtain ⟨child, rfl⟩ := List.mem_ofFn.mp member
    exact ordered child
  refine ⟨Visits.ordered_mergeAll all, fun visit => ?_⟩
  rw [Visits.mem_mergeAll all]
  constructor
  · rintro ⟨place, inside, member, lacks⟩
    rw [List.length_ofFn] at inside
    rw [List.getElem_ofFn] at member
    refine ⟨⟨place, inside⟩, member, fun earlier before => ?_⟩
    have lacking := lacks earlier.val before
    rw [List.getElem_ofFn] at lacking
    exact lacking
  · rintro ⟨child, member, lacks⟩
    refine ⟨child.val, by simp, by simpa using member, ?_⟩
    intro earlier before
    rw [List.getElem_ofFn]
    exact lacks ⟨earlier, Nat.lt_trans before child.isLt⟩ before

/-- A test of spans can be made before or after merging. -/
theorem Merges.filter {left : Fin size → Visits} {visits : Visits}
    (merges : Merges left visits) (keeps : Span → Bool) :
    Merges (fun child => (left child).filter fun visit => keeps visit.span)
      (visits.filter fun visit => keeps visit.span) := by
  refine ⟨merges.ordered.filter _, fun visit => ?_⟩
  simp only [List.mem_filter, merges.mem_iff]
  constructor
  · rintro ⟨⟨child, member, lacks⟩, kept⟩
    exact ⟨child, ⟨member, kept⟩, fun earlier before other isOther =>
      lacks earlier before other (List.mem_filter.mp isOther).1⟩
  · rintro ⟨child, ⟨member, kept⟩, lacks⟩
    refine ⟨⟨child, member, fun earlier before other isOther same => ?_⟩, kept⟩
    refine lacks earlier before other (List.mem_filter.mpr ⟨isOther, ?_⟩) same
    rw [same]
    exact kept

/-! ## The queue and what is left -/

variable [Cursor σ]

/--
The children that were entered have some visits left each, and those with any
are queued under the first; the others were not entered yet.
-/
structure Lists (target? : Option DocId) (left : Fin size → Visits)
    (node : Union σ size) : Prop where
  heaped : node.queue.Heaped
  apart : (node.queue.heads.toList.map Head.child).Nodup
  mem_heads : ∀ head, head ∈ node.queue.heads.toList ↔
    head.child.val < node.entered ∧
      (left head.child).head?.map Visit.span = some head.span
  entered : ∀ child : Fin size, child.val < node.entered →
    Follows node.children[child] (.upon (left child))
  rest : ∀ child : Fin size, node.entered ≤ child.val →
    ∃ all, Follows node.children[child] (.fresh all) ∧
      Visits.Ordered all ∧ left child = all.sinceAny target?
  ordered : ∀ child, (left child).Ordered

variable {node : Union σ size} {left : Fin size → Visits}
  {target? : Option DocId}

/-- The next child was entered. -/
theorem Lists.enter (lists : Lists target? left node)
    (inside : node.entered < size) {cursor : σ} {queue : HeadQueue (Fin size)}
    (follows : Follows cursor (.upon (left ⟨node.entered, inside⟩)))
    (heaped : queue.Heaped)
    (heads : queue.heads.toList.Perm
      (((left ⟨node.entered, inside⟩).head?.map fun visit =>
        Head.mk visit.span ⟨node.entered, inside⟩).toList ++
          node.queue.heads.toList)) :
    Lists target? left
      { node.keep ⟨node.entered, inside⟩ cursor with
        queue := queue
        entered := node.entered + 1 } := by
  have older : ∀ head ∈ node.queue.heads.toList,
      head.child.val < node.entered := fun head member =>
    ((lists.mem_heads head).mp member).1
  refine ⟨heaped, ?_, ?_, ?_, ?_, lists.ordered⟩
  · refine ((heads.map Head.child).nodup_iff).mpr ?_
    cases (left ⟨node.entered, inside⟩).head? with
    | none => exact lists.apart
    | some visit =>
        refine List.nodup_cons.mpr ⟨fun member => ?_, lists.apart⟩
        obtain ⟨head, isHead, same⟩ := List.mem_map.mp member
        have below := older head isHead
        rw [same] at below
        exact Nat.lt_irrefl _ below
  · intro head
    rw [heads.mem_iff, List.mem_append, lists.mem_heads, Option.mem_toList,
      Option.map_eq_some_iff, Nat.lt_succ_iff]
    constructor
    · rintro (⟨visit, isFirst, rfl⟩ | ⟨below, isFirst⟩)
      · exact ⟨Nat.le_refl _, by rw [isFirst]; rfl⟩
      · exact ⟨Nat.le_of_lt below, isFirst⟩
    · rintro ⟨notBeyond, isFirst⟩
      rcases Nat.lt_or_eq_of_le notBeyond with below | same
      · exact .inr ⟨below, isFirst⟩
      · have isNext : head.child = ⟨node.entered, inside⟩ := Fin.ext same
        rw [isNext] at isFirst
        obtain ⟨visit, first, span⟩ := Option.map_eq_some_iff.mp isFirst
        exact .inl ⟨visit, first, by rw [span, ← isNext]⟩
  · intro child below
    rcases Nat.lt_or_eq_of_le (Nat.le_of_lt_succ below) with before | same
    · have other : node.entered ≠ child.val := Nat.ne_of_gt before
      simpa [keep, Vector.getElem_set_ne _ _ other] using
        lists.entered child before
    · have isNext : child = ⟨node.entered, inside⟩ := Fin.ext same
      subst isNext
      simpa [keep] using follows
  · intro child notEntered
    have other : node.entered ≠ child.val := Nat.ne_of_lt notEntered
    simpa [keep, Vector.getElem_set_ne _ _ other] using
      lists.rest child (Nat.le_of_succ_le notEntered)

/-- The child of the least head passed some of its visits. -/
theorem Lists.pass (lists : Lists target? left node)
    (entered : size ≤ node.entered) (filled : 0 < node.queue.heads.size)
    {cursor : σ} {queue : HeadQueue (Fin size)} {visits : Visits}
    (follows : Follows cursor (.upon visits)) (ordered : visits.Ordered)
    (heaped : queue.Heaped)
    (heads : queue.heads.toList.Perm
      ((visits.head?.map fun visit =>
        Head.mk visit.span node.queue.heads[0].child).toList ++
          node.queue.heads.toList.tail)) :
    Lists target? (Function.update left node.queue.heads[0].child visits)
      { node.keep node.queue.heads[0].child cursor with queue := queue } := by
  have apart := lists.apart
  rw [toList_heads filled, List.map_cons, List.nodup_cons] at apart
  obtain ⟨others, tailApart⟩ := apart
  have inTail : ∀ head, head ∈ node.queue.heads.toList.tail ↔
      head ∈ node.queue.heads.toList ∧
        head.child ≠ node.queue.heads[0].child := by
    intro head
    constructor
    · intro member
      refine ⟨List.mem_of_mem_tail member, fun same => ?_⟩
      exact others (List.mem_map.mpr ⟨head, member, same⟩)
    · rintro ⟨member, other⟩
      rw [toList_heads filled] at member
      rcases List.mem_cons.mp member with rfl | later
      · exact absurd rfl other
      · exact later
  refine ⟨heaped, ?_, ?_, ?_, ?_, ?_⟩
  · refine ((heads.map Head.child).nodup_iff).mpr ?_
    cases visits.head? with
    | none => exact tailApart
    | some visit => exact List.nodup_cons.mpr ⟨others, tailApart⟩
  · intro head
    rw [heads.mem_iff, List.mem_append, inTail, lists.mem_heads,
      Option.mem_toList, Option.map_eq_some_iff]
    by_cases same : head.child = node.queue.heads[0].child
    · rw [same, Function.update_self]
      constructor
      · rintro (⟨visit, isFirst, rfl⟩ | ⟨_, other⟩)
        · refine ⟨?_, by rw [isFirst]; rfl⟩
          exact Nat.lt_of_lt_of_le (Fin.isLt _) entered
        · exact absurd rfl other
      · rintro ⟨_, isFirst⟩
        obtain ⟨visit, first, span⟩ := Option.map_eq_some_iff.mp isFirst
        exact .inl ⟨visit, first, by rw [span, ← same]⟩
    · rw [Function.update_of_ne same]
      constructor
      · rintro (⟨visit, isFirst, rfl⟩ | ⟨⟨below, isFirst⟩, _⟩)
        · exact absurd rfl same
        · exact ⟨below, isFirst⟩
      · rintro ⟨below, isFirst⟩
        exact .inr ⟨⟨below, isFirst⟩, same⟩
  · intro child below
    by_cases same : child = node.queue.heads[0].child
    · subst same
      rw [Function.update_self]
      simpa [keep] using follows
    · have other : node.queue.heads[0].child.val ≠ child.val := fun equal =>
        same (Fin.ext equal).symm
      rw [Function.update_of_ne same]
      simpa [keep, Vector.getElem_set_ne _ _ other] using
        lists.entered child below
  · intro child notEntered
    exact absurd (Nat.lt_of_lt_of_le child.isLt entered)
      (Nat.not_lt.mpr notEntered)
  · intro child
    by_cases same : child = node.queue.heads[0].child
    · subst same
      rw [Function.update_self]
      exact ordered
    · rw [Function.update_of_ne same]
      exact lists.ordered child

/-- Without failures all children are entered. -/
theorem lists_enterRest {node : Union σ size}
    (lists : Lists target? left node) :
    (enterRest target?).Meets node
      (fun _ reached => Lists target? left reached ∧ size ≤ reached.entered)
      (fun _ _ => False) := by
  by_cases inside : node.entered < size
  · obtain ⟨all, fresh, ordered, isLeft⟩ :=
      lists.rest ⟨node.entered, inside⟩ (Nat.le_refl _)
    rw [meets_enterRest_of_lt inside]
    apply (fresh.meets_enter ordered target?).mono
    · rintro span? cursor ⟨isHead, follows⟩
      rw [← isLeft] at isHead follows
      have heads := node.queue.receive_perm ⟨node.entered, inside⟩ span?
      rw [isHead, Option.map_map] at heads
      subst isHead
      exact lists_enterRest (lists.enter inside follows
        (HeadQueue.heaped_receive lists.heaped _ _) heads)
    · intro _ _ failed
      exact failed.elim
  · rw [meets_enterRest_of_le (Nat.not_lt.mp inside)]
    exact ⟨lists, Nat.not_lt.mp inside⟩
termination_by size - node.entered

/-- What is left of the children once nothing lags any more. -/
def passed (lags : Span → Bool) (left : Fin size → Visits) :
    Fin size → Visits :=
  fun child => (left child).filter fun visit => !lags visit.span

/-- What comes after a span that does not lag does not lag either. -/
def Settled (lags : Span → Bool) (left : Fin size → Visits) : Prop :=
  ∀ child, ∀ visit ∈ left child, ∀ later : Span, visit.span ≤ later →
    lags later → lags visit.span

/-- Nothing that is left precedes the least head. -/
theorem Lists.least_le (lists : Lists target? left node)
    (entered : size ≤ node.entered) {least : Head (Fin size)}
    (isLeast : node.queue.least? = some least) {child : Fin size}
    {visit : Visit} (member : visit ∈ left child) :
    least.span ≤ visit.span := by
  have ordered := lists.ordered child
  cases isLeft : left child with
  | nil =>
      rw [isLeft] at member
      exact absurd member List.not_mem_nil
  | cons first rest =>
      have queued : (⟨first.span, child⟩ : Head (Fin size)) ∈
          node.queue.heads.toList := by
        refine (lists.mem_heads _).mpr
          ⟨Nat.lt_of_lt_of_le child.isLt entered, ?_⟩
        rw [isLeft]
        rfl
      have notAfter := Head.span_le_of_le
        (lists.heaped.least_le isLeast (Array.mem_toList_iff.mp queued))
      rw [isLeft] at member ordered
      rcases List.mem_cons.mp member with rfl | later
      · exact notAfter
      · exact le_trans notAfter (le_of_lt (ordered.head_lt later))

/-- The least head is what some child has left. -/
theorem Lists.exists_least (lists : Lists target? left node)
    {least : Head (Fin size)} (isLeast : node.queue.least? = some least) :
    ∃ visit ∈ left least.child, visit.span = least.span := by
  obtain ⟨filled, rfl⟩ := Array.getElem?_eq_some_iff.mp isLeast
  obtain ⟨_, isFirst⟩ := (lists.mem_heads node.queue.heads[0]).mp (by simp)
  obtain ⟨visit, first, span⟩ := Option.map_eq_some_iff.mp isFirst
  exact ⟨visit, List.mem_of_mem_head? first, span⟩

/-- Without a head nothing is left. -/
theorem Lists.left_eq_nil (lists : Lists target? left node)
    (entered : size ≤ node.entered) (none : node.queue.least? = none)
    (child : Fin size) : left child = [] := by
  cases isLeft : left child with
  | nil => rfl
  | cons first rest =>
      have queued : (⟨first.span, child⟩ : Head (Fin size)) ∈
          node.queue.heads.toList := by
        refine (lists.mem_heads _).mpr
          ⟨Nat.lt_of_lt_of_le child.isLt entered, ?_⟩
        rw [isLeft]
        rfl
      have empty : node.queue.heads = #[] := by
        simpa [HeadQueue.least?] using none
      rw [empty] at queued
      exact absurd queued List.not_mem_nil

/-- The least head does not lag, so nothing does. -/
theorem Lists.passed_eq (lists : Lists target? left node)
    (entered : size ≤ node.entered) {lags : Span → Bool}
    (settled : Settled lags left)
    (least : ∀ head ∈ node.queue.least?, lags head.span = false) :
    passed lags left = left := by
  funext child
  refine List.filter_eq_self.mpr fun visit member => ?_
  rw [Bool.not_eq_true', ← Bool.not_eq_true]
  intro lagging
  cases isLeast : node.queue.least? with
  | none =>
      rw [lists.left_eq_nil entered isLeast child] at member
      exact List.not_mem_nil member
  | some head =>
      obtain ⟨top, isTop, same⟩ := lists.exists_least isLeast
      have notAfter := lists.least_le entered isLeast member
      rw [← same] at notAfter
      have topLags := settled _ top isTop visit.span notAfter lagging
      rw [same, least head isLeast] at topLags
      cases topLags

omit [Cursor σ] in
theorem not_lags_of_mem_passed {lags : Span → Bool} {child : Fin size}
    {visit : Visit} (member : visit ∈ passed lags left child) :
    lags visit.span = false := by
  simpa using (List.mem_filter.mp member).2

omit [Cursor σ] in
/-- A child that passed what lags does not lag. -/
theorem head?_passed_any (lags : Span → Bool) (left : Fin size → Visits)
    (child : Fin size) :
    ((passed lags left child).head?.any fun visit => lags visit.span) =
      false := by
  cases first : (passed lags left child).head? with
  | none => rfl
  | some visit => exact not_lags_of_mem_passed (List.mem_of_mem_head? first)

/-- A lagging child passes its visits that lag. -/
def Passing (lags : Span → Bool) (step : Attempt Failure σ (Option Span))
    (left : Fin size → Visits) : Prop :=
  ∀ (child : Fin size) (visit : Visit) (rest : Visits) (cursor : σ),
    left child = visit :: rest → lags visit.span →
      Follows cursor (.on visit rest) →
        step.Meets cursor (Takes Follows (passed lags left child))
          (fun _ _ => False)

/-- One child passed what lags. -/
def passedAt (lags : Span → Bool) (left : Fin size → Visits)
    (child : Fin size) : Fin size → Visits :=
  Function.update left child (passed lags left child)

omit [Cursor σ] in
theorem mem_of_mem_passedAt {lags : Span → Bool} {child other : Fin size}
    {visit : Visit} (member : visit ∈ passedAt lags left child other) :
    visit ∈ left other := by
  unfold passedAt at member
  by_cases same : other = child
  · subst same
    rw [Function.update_self] at member
    exact (List.mem_filter.mp member).1
  · rwa [Function.update_of_ne same] at member

omit [Cursor σ] in
theorem passed_passedAt (lags : Span → Bool) (left : Fin size → Visits)
    (child : Fin size) :
    passed lags (passedAt lags left child) = passed lags left := by
  funext other
  unfold passed passedAt
  by_cases same : other = child
  · subst same
    rw [Function.update_self]
    unfold passed
    rw [List.filter_filter]
    simp only [Bool.and_self]
  · rw [Function.update_of_ne same]

theorem Passing.passedAt {lags : Span → Bool}
    {step : Attempt Failure σ (Option Span)} (passing : Passing lags step left)
    (child : Fin size) : Passing lags step (passedAt lags left child) := by
  intro other visit rest cursor isLeft lagging
  rw [passed_passedAt]
  unfold Union.passedAt at isLeft
  by_cases same : other = child
  · subst same
    rw [Function.update_self] at isLeft
    have member : visit ∈ passed lags left other := by
      rw [isLeft]
      exact List.mem_cons_self
    rw [not_lags_of_mem_passed member] at lagging
    cases lagging
  · rw [Function.update_of_ne same] at isLeft
    exact passing other visit rest cursor isLeft lagging

/--
Each child with a first visit that lags made one step, and each other one is
where it was.
-/
def Stepped (lags : Span → Bool) (step : Attempt Failure σ (Option Span))
    (left : Fin size → Visits) (node reached : Union σ size) : Prop :=
  ∀ child : Fin size, reached.children[child] =
    if (left child).head?.any fun visit => lags visit.span then
      (step node.children[child]).2
    else node.children[child]

omit [Cursor σ] in
/-- Where nothing lags no child makes a step. -/
theorem stepped_self {lags : Span → Bool}
    {step : Attempt Failure σ (Option Span)}
    (none : passed lags left = left) : Stepped lags step left node node := by
  intro child
  have quiet := head?_passed_any lags left child
  rw [none] at quiet
  rw [if_neg (by rw [quiet]; exact Bool.false_ne_true)]

omit [Cursor σ] in
/-- One child made a step, and then each that still lagged did. -/
theorem Stepped.cons {lags : Span → Bool}
    {step : Attempt Failure σ (Option Span)} {first : Fin size}
    {middle reached : Union σ size}
    (lagging : ((left first).head?.any fun visit => lags visit.span) = true)
    (here : middle.children[first] = (step node.children[first]).2)
    (others : ∀ child : Fin size, child ≠ first →
      middle.children[child] = node.children[child])
    (stepped : Stepped lags step (passedAt lags left first) middle reached) :
    Stepped lags step left node reached := by
  intro child
  rw [stepped child]
  by_cases same : child = first
  · subst same
    have quiet := head?_passed_any lags left child
    rw [passedAt, Function.update_self, if_pos lagging,
      if_neg (by rw [quiet]; exact Bool.false_ne_true), here]
  · rw [passedAt, Function.update_of_ne same, others child same]

/-- Each lagging child is moved once, and none lags then. -/
theorem lists_moveLagging {lags : Span → Bool}
    {step : Attempt Failure σ (Option Span)} (moves : Nat)
    {left : Fin size → Visits} {node : Union σ size}
    (lists : Lists target? left node) (entered : size ≤ node.entered)
    (settled : Settled lags left) (passing : Passing lags step left)
    (enough : node.queue.heads.toList.countP (fun head => lags head.span) ≤
      moves) :
    (moveLagging lags step moves).Meets node
      (fun _ reached => Lists target? (passed lags left) reached ∧
        size ≤ reached.entered ∧ Stepped lags step left node reached)
      (fun _ _ => False) := by
  induction moves generalizing left node with
  | zero =>
      have none := List.countP_eq_zero.mp (Nat.le_zero.mp enough)
      have least : ∀ head ∈ node.queue.least?, lags head.span = false := by
        intro head isLeast
        obtain ⟨inside, rfl⟩ := Array.getElem?_eq_some_iff.mp isLeast
        simpa using none node.queue.heads[0] (by simp)
      have none := lists.passed_eq entered settled least
      rw [meets_moveLagging_of_settled least, none]
      exact ⟨lists, entered, stepped_self none⟩
  | succ moves ih =>
      rcases node.queue.exists_or_forall_least (lags ·.span) with
        ⟨filled, lagging⟩ | least
      · have member : node.queue.heads[0] ∈ node.queue.heads.toList := by
          simp
        obtain ⟨below, isFirst⟩ := (lists.mem_heads _).mp member
        obtain ⟨visit, first, span⟩ := Option.map_eq_some_iff.mp isFirst
        obtain ⟨rest, isLeft⟩ := List.head?_eq_some_iff.mp first
        have follows := lists.entered _ below
        rw [isLeft] at follows
        have met := passing _ visit rest _ isLeft (by rw [span]; exact lagging)
          follows
        have fewer : node.queue.heads.toList.tail.countP
            (fun head => lags head.span) ≤ moves := by
          rw [toList_heads filled, List.countP_cons, if_pos lagging] at enough
          exact Nat.le_of_succ_le_succ enough
        rw [← passed_passedAt lags left node.queue.heads[0].child,
          meets_moveLagging_succ filled lagging]
        apply (met.and (Attempt.meets_self _ _)).mono
        · rintro span? cursor ⟨⟨isHead, followsOn⟩, went⟩
          have heads := node.queue.exchange_perm filled span?
          rw [isHead, Option.map_map] at heads
          subst isHead
          refine (ih (lists.pass entered filled followsOn
            ((lists.ordered _).filter _)
            (HeadQueue.heaped_exchange lists.heaped filled _) heads) entered
            ?_ (passing.passedAt node.queue.heads[0].child) ?_).imp_answer ?_
          · intro child visit member
            exact settled child visit (mem_of_mem_passedAt member)
          · -- The child has passed what lags, so its new head does not.
            have quiet : ((((passed lags left
                node.queue.heads[0].child).head?.map
                  ((Head.mk · node.queue.heads[0].child) ∘ Visit.span)
                    ).toList).countP fun head => lags head.span) = 0 := by
              apply List.countP_eq_zero.mpr
              intro head isHead
              obtain ⟨next, isNext, rfl⟩ :=
                Option.map_eq_some_iff.mp (Option.mem_toList.mp isHead)
              simpa using
                not_lags_of_mem_passed (List.mem_of_mem_head? isNext)
            rw [heads.countP_eq, List.countP_append, quiet, Nat.zero_add]
            exact fewer
          · rintro _ reached ⟨listsOn, enteredOn, stepped⟩
            refine ⟨listsOn, enteredOn, stepped.cons ?_ ?_ ?_⟩
            · rw [first, Option.any_some, span]
              exact lagging
            · rw [went]
              simp [keep]
            · intro child other
              have apart : node.queue.heads[0].child.val ≠ child.val :=
                fun same => other (Fin.ext same).symm
              simp [keep, Vector.getElem_set_ne _ _ apart]
        · rintro _ _ ⟨failed, _⟩
          exact failed.elim
      · have none := lists.passed_eq entered settled least
        rw [meets_moveLagging_of_settled least, none]
        exact ⟨lists, entered, stepped_self none⟩

/-- What is left from a document on. -/
theorem passed_before (target : DocId) :
    passed (·.doc < target) left = fun child => (left child).since target := by
  funext child
  refine List.filter_congr fun visit _ => ?_
  by_cases behind : visit.doc < target
  · simp [behind, UInt64.not_le.mpr behind]
  · simp [behind, UInt64.not_lt.mp behind]

/-- Each child that stands before a document is moved to it or beyond. -/
theorem lists_seekLagging (lists : Lists target? left node)
    (entered : size ≤ node.entered) (target : DocId) :
    (seekLagging target).Meets node
      (fun _ reached =>
        Lists target? (fun child => (left child).since target) reached ∧
          size ≤ reached.entered ∧
          Stepped (·.doc < target) (Cursor.seek target) left node reached)
      (fun _ _ => False) := by
  have passing : Passing (·.doc < target)
      (Cursor.seek target : Attempt Failure σ _) left := by
    intro child visit rest cursor isLeft lagging follows
    have behind : visit.doc < target := by simpa using lagging
    have goes := (Plain.planSeek_on_iff rest).mpr behind
    have ordered := lists.ordered child
    rw [isLeft] at ordered
    have met := follows.meets_seek goes ordered
    rw [congrFun (passed_before target) child, isLeft,
      Visits.since_cons_of_lt behind]
    exact met
  have settled : Settled (·.doc < target) left := by
    intro child visit _ later notAfter lagging
    have behind : later.doc < target := by simpa using lagging
    simpa using UInt64.lt_of_le_of_lt (Span.doc_le_of_le notAfter) behind
  rw [← passed_before target]
  simp only [seekLagging, Attempt.meets_bind, Attempt.meets_look]
  exact lists_moveLagging _ lists entered settled passing
    List.countP_le_length

/-- Each child that stands on the least span that is left is moved past it. -/
theorem lists_movePast (lists : Lists target? left node)
    (entered : size ≤ node.entered) {span : Span}
    (notBefore : ∀ child, ∀ visit ∈ left child, span ≤ visit.span) :
    (movePast span).Meets node
      (fun _ reached => Lists target? (passed (· == span) left) reached ∧
        size ≤ reached.entered ∧
        Stepped (· == span) Cursor.next left node reached)
      (fun _ _ => False) := by
  have passing : Passing (· == span)
      (Cursor.next : Attempt Failure σ _) left := by
    intro child first others cursor isLeft lagging follows
    have same : first.span = span := by simpa using lagging
    have ordered := lists.ordered child
    rw [isLeft] at ordered
    have dropped : passed (· == span) left child = others := by
      rw [passed, isLeft, List.filter_cons_of_neg (by simpa using same)]
      refine List.filter_eq_self.mpr fun later member => ?_
      have after := ordered.head_lt member
      rw [same] at after
      simpa using ne_of_gt after
    rw [dropped]
    exact follows.meets_next rfl
  have settled : Settled (· == span) left := by
    intro child other member later notAfter lagging
    have same : later = span := by simpa using lagging
    rw [same] at notAfter
    simpa using le_antisymm notAfter (notBefore child other member)
  simp only [movePast, Attempt.meets_bind, Attempt.meets_look]
  exact lists_moveLagging _ lists entered settled passing
    List.countP_le_length

/-! ## The union follows what is merged -/

/-- The children are as far as the node. -/
def Like (node : Union σ size) : Plain → Prop
  | .fresh visits => node.standing = .unstarted ∧ visits.Ordered ∧
      node.entered = 0 ∧ node.queue = .empty ∧ ∃ all : Fin size → Visits,
        (∀ child : Fin size, Follows node.children[child] (.fresh (all child)) ∧
          (all child).Ordered) ∧ Merges all visits
  | .on visit rest => node.standing = .on visit.span ∧
      size ≤ node.entered ∧ ∃ target? left, Lists target? left node ∧
        Merges left (visit :: rest) ∧
        Cursor.payloads node = .ok visit.payloads
  | .ended => node.standing = .exhausted
  | .closed => False

omit [Cursor σ] in
/-- Every span that is left is merged, if for another child. -/
theorem Merges.exists_mem {visits : Visits} (merges : Merges left visits)
    {child : Fin size} {other : Visit} (member : other ∈ left child) :
    ∃ visit ∈ visits, visit.span = other.span := by
  by_cases lacks : ∀ earlier < child, (left earlier).Lacks other.span
  · exact ⟨other, (merges.mem_iff other).mpr ⟨child, member, lacks⟩, rfl⟩
  · simp only [Visits.Lacks, not_forall, not_not] at lacks
    obtain ⟨earlier, before, twin, isTwin, same⟩ := lacks
    obtain ⟨visit, isVisit, equal⟩ := merges.exists_mem isTwin
    exact ⟨visit, isVisit, equal.trans same⟩
termination_by child.val

omit [Cursor σ] in
/-- Nothing that is left precedes the first of what is merged. -/
theorem Merges.le_of_mem {visit other : Visit} {rest : Visits}
    (merges : Merges left (visit :: rest)) {child : Fin size}
    (member : other ∈ left child) : visit.span ≤ other.span := by
  obtain ⟨found, isFound, same⟩ := merges.exists_mem member
  rw [← same]
  rcases List.mem_cons.mp isFound with rfl | later
  · exact le_refl _
  · exact le_of_lt (merges.ordered.head_lt later)

/-- The first of what is merged is the head of the first child that has it. -/
theorem Merges.least {visit : Visit} {rest : Visits}
    (merges : Merges left (visit :: rest)) (lists : Lists target? left node)
    (entered : size ≤ node.entered) :
    ∃ child, node.queue.least? = some ⟨visit.span, child⟩ ∧
      (left child).head? = some visit := by
  obtain ⟨child, member, lacks⟩ :=
    (merges.mem_iff visit).mp List.mem_cons_self
  have isHead : (left child).head? = some visit := by
    have ordered := lists.ordered child
    cases isLeft : left child with
    | nil =>
        rw [isLeft] at member
        exact absurd member List.not_mem_nil
    | cons first others =>
        have isFirst : first ∈ left child := isLeft ▸ List.mem_cons_self
        rw [isLeft] at member ordered
        rcases List.mem_cons.mp member with rfl | later
        · rfl
        · exact absurd (ordered.head_lt later)
            (not_lt_of_ge (merges.le_of_mem isFirst))
  have queued : (⟨visit.span, child⟩ : Head (Fin size)) ∈
      node.queue.heads.toList := by
    refine (lists.mem_heads _).mpr
      ⟨Nat.lt_of_lt_of_le child.isLt entered, ?_⟩
    rw [isHead]
    rfl
  have filled : 0 < node.queue.heads.size := by
    rw [← Array.length_toList]
    exact List.length_pos_of_mem queued
  have isLeast : node.queue.least? = some node.queue.heads[0] :=
    Array.getElem?_eq_getElem filled
  refine ⟨child, ?_, isHead⟩
  have notAfter := lists.heaped.least_le isLeast
    (Array.mem_toList_iff.mp queued)
  obtain ⟨_, isFirst⟩ := (lists.mem_heads node.queue.heads[0]).mp (by simp)
  obtain ⟨top, topFirst, topSpan⟩ := Option.map_eq_some_iff.mp isFirst
  have topMember := List.mem_of_mem_head? topFirst
  have sameSpan : node.queue.heads[0].span = visit.span :=
    le_antisymm (Head.span_le_of_le notAfter)
      (topSpan ▸ merges.le_of_mem topMember)
  have sameChild : node.queue.heads[0].child = child := by
    refine le_antisymm ?_ ?_
    · by_contra further
      exact notAfter (Head.lt_iff.mpr
        (.inr ⟨sameSpan.symm, not_le.mp further⟩))
    · by_contra earlier
      exact lacks _ (not_le.mp earlier) top topMember
        (topSpan.trans sameSpan)
  rw [isLeast, ← sameSpan, ← sameChild]

/-- The least head is the first of the visits that are left. -/
theorem takes_settle {visits : Visits} (lists : Lists target? left node)
    (entered : size ≤ node.entered) (merges : Merges left visits) :
    settle.Meets node (Takes Like visits) (fun _ _ => False) := by
  refine (Attempt.meets_of_ok (show settle node =
    (.ok (node.queue.least?.map Head.span),
      { node with
        standing := .after (node.queue.least?.map Head.span) }) from
    rfl)).mpr ?_
  cases visits with
  | nil =>
      have none : node.queue.least? = none := by
        cases isLeast : node.queue.least? with
        | none => rfl
        | some head =>
            obtain ⟨top, isTop, _⟩ := lists.exists_least isLeast
            obtain ⟨visit, isVisit, _⟩ := merges.exists_mem isTop
            exact absurd isVisit List.not_mem_nil
      rw [none]
      exact ⟨rfl, rfl⟩
  | cons visit rest =>
      obtain ⟨child, isLeast, isHead⟩ := merges.least lists entered
      rw [isLeast]
      refine ⟨rfl, rfl, entered, target?, left, ?_, merges, ?_⟩
      · exact ⟨lists.heaped, lists.apart, lists.mem_heads, lists.entered,
          lists.rest, lists.ordered⟩
      · obtain ⟨others, isLeft⟩ := List.head?_eq_some_iff.mp isHead
        have follows := lists.entered child
          (Nat.lt_of_lt_of_le child.isLt entered)
        rw [isLeft] at follows
        simp only [Cursor.payloads, isLeast]
        exact follows.payloads_eq

/-- Before its children are entered a union has all they yield left. -/
theorem lists_of_fresh {all : Fin size → Visits}
    (isFresh : node.entered = 0) (isEmpty : node.queue = .empty)
    (follows : ∀ child : Fin size,
      Follows node.children[child] (.fresh (all child)) ∧
        (all child).Ordered)
    (target? : Option DocId) :
    Lists target? (fun child => (all child).sinceAny target?) node := by
  refine ⟨isEmpty ▸ HeadQueue.heaped_empty, ?_, ?_, ?_, ?_, ?_⟩
  · rw [isEmpty]
    exact .nil
  · intro head
    rw [isEmpty, isFresh]
    exact ⟨fun member => absurd member List.not_mem_nil,
      fun below => absurd below.1 (Nat.not_lt_zero _)⟩
  · intro child below
    rw [isFresh] at below
    exact absurd below (Nat.not_lt_zero _)
  · exact fun child _ => ⟨all child, (follows child).1, (follows child).2, rfl⟩
  · exact fun child => (follows child).2.sinceAny target?

/-- What is merged from a document on. -/
theorem Merges.since {visits : Visits} (merges : Merges left visits)
    (target : DocId) :
    Merges (fun child => (left child).since target) (visits.since target) :=
  merges.filter fun span => target ≤ span.doc

/-- Children that stand before a document are moved to it or beyond. -/
theorem takes_seekLagging {visits : Visits} (lists : Lists target? left node)
    (entered : size ≤ node.entered) (merges : Merges left visits)
    (target : DocId) :
    (do
      seekLagging target
      settle : Attempt Failure (Union σ size) _).Meets node
      (Takes Like (visits.since target)) (fun _ _ => False) := by
  rw [Attempt.meets_bind]
  apply (lists_seekLagging lists entered target).imp_answer
  rintro _ reached ⟨listsOn, enteredOn, _⟩
  exact takes_settle listsOn enteredOn (merges.since target)

/-- Children that stand on the span of the union are moved past it. -/
theorem takes_movePast {visit : Visit} {rest : Visits}
    (lists : Lists target? left node) (entered : size ≤ node.entered)
    (merges : Merges left (visit :: rest)) :
    (do
      movePast visit.span
      settle : Attempt Failure (Union σ size) _).Meets node
      (Takes Like rest) (fun _ _ => False) := by
  have left_eq : (visit :: rest).filter
      (fun other => !(other.span == visit.span)) = rest := by
    rw [List.filter_cons_of_neg (by simp)]
    refine List.filter_eq_self.mpr fun later member => ?_
    simpa using ne_of_gt (merges.ordered.head_lt member)
  rw [Attempt.meets_bind]
  apply (lists_movePast lists entered fun _ _ =>
    merges.le_of_mem).imp_answer
  rintro _ reached ⟨listsOn, enteredOn, _⟩
  refine takes_settle listsOn enteredOn ?_
  have filtered := merges.filter fun span => !(span == visit.span)
  rw [left_eq] at filtered
  exact filtered

/-- The first move of a union is to the first of what is merged. -/
theorem takes_onward {visits : Visits} (alike : Like node (.fresh visits)) :
    onward.Meets node (Takes Like visits) (fun _ _ => False) := by
  obtain ⟨stands, _, isFresh, isEmpty, all, follows, merges⟩ := alike
  have lists := lists_of_fresh isFresh isEmpty follows none
  unfold onward
  simp only [Attempt.meets_bind, Attempt.meets_look]
  split
  · rw [Attempt.meets_bind]
    apply (lists_enterRest lists).imp_answer
    rintro _ reached ⟨lists, entered⟩
    exact takes_settle lists entered merges
  · rename_i entered
    rw [stands]
    exact takes_settle lists (Nat.not_lt.mp entered) merges

/-- A union that goes forward to its first document. -/
theorem takes_forward_fresh {visits : Visits}
    (alike : Like node (.fresh visits)) (target : DocId) :
    (forward target).Meets node (Takes Like (visits.since target))
      (fun _ _ => False) := by
  obtain ⟨_, ordered, isFresh, isEmpty, all, follows, merges⟩ := alike
  unfold forward
  rw [Attempt.meets_bind]
  apply (lists_enterRest (lists_of_fresh isFresh isEmpty follows
    (some target))).imp_answer
  rintro _ reached ⟨lists, entered⟩
  rw [← Visits.since_since]
  exact takes_seekLagging lists entered (merges.since target) target

/-- A union answers as the plain cursor over what is merged. -/
theorem mirrors : Mirrors (Like : Union σ size → Plain → Prop) := by
  refine planned.mirrors ?_ ?_ ?_ ?_ ?_
  · intro node plain alike
    cases plain with
    | fresh visits => exact alike.1
    | on visit rest => exact alike.1
    | ended => exact alike
    | closed => exact alike.elim
  · intro node plain alike
    cases plain with
    | on visit rest =>
        obtain ⟨_, _, _, _, _, _, payloads⟩ := alike
        exact payloads
    | fresh visits =>
        change (do node.standing.requireSpan; _) = _
        rw [alike.1]
        rfl
    | ended =>
        change (do node.standing.requireSpan; _) = _
        rw [show node.standing = _ from alike]
        rfl
    | closed => exact alike.elim
  · intro node plain alike
    cases plain with
    | fresh visits => exact alike.2.1
    | on visit rest =>
        obtain ⟨_, _, _, _, _, merges, _⟩ := alike
        exact merges.ordered
    | ended => exact Visits.Ordered.nil
    | closed => exact alike.elim
  · intro node plain alike goes
    cases plain with
    | fresh visits => exact takes_onward alike
    | on visit rest =>
        obtain ⟨stands, entered, target?, left, lists, merges, _⟩ := alike
        unfold onward
        rw [Attempt.meets_bind, Attempt.meets_look,
          if_neg (Nat.not_lt.mpr entered), stands]
        exact takes_movePast lists entered merges
    | ended => cases goes
    | closed => cases goes
  · intro node plain target alike goes
    cases plain with
    | fresh visits => exact takes_forward_fresh alike target
    | on visit rest =>
        obtain ⟨stands, entered, target?, left, lists, merges, _⟩ := alike
        have ahead := (Plain.planSeek_on_iff rest).mp goes
        have stays : enterRest (some target) node = (.ok (), node) := by
          rw [enterRest, dif_neg (Nat.not_lt.mpr entered)]
        unfold forward
        rw [Attempt.meets_bind, Attempt.meets_of_ok stays]
        change Attempt.Meets _ _ (Takes Like (Visits.since target rest)) _
        rw [← Visits.since_cons_of_lt ahead]
        exact takes_seekLagging lists entered merges target
    | ended => cases goes
    | closed => cases goes

/-- A union of cursors yields what any of them yields, each span once. -/
theorem follows_ofCursors {cursors : Vector σ size} {all : Fin size → Visits}
    (follows : ∀ child : Fin size,
      Follows cursors[child] (.fresh (all child)) ∧ (all child).Ordered) :
    Follows (ofCursors cursors)
      (.fresh (Visits.mergeAll (List.ofFn all))) := by
  have merges := merges_ofFn fun child => (follows child).2
  exact ⟨Like, mirrors, rfl, merges.ordered, rfl, rfl, all, follows, merges⟩

end Union

end PositionalSearch
