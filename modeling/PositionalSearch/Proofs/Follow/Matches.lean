import Mathlib.Algebra.Order.BigOperators.Group.Finset
import Mathlib.Data.Fintype.Basic
import Mathlib.Data.List.Dedup
import PositionalSearch.Proofs.Heads
import PositionalSearch.Proofs.Visits
import PositionalSearch.Proximity

/-!
# The matches of a proximity node

What a proximity node yields is read off the visits that its children have
left.  In each document the arrangement of the first visits is tried, a child
passes its first visit, and the next arrangement is tried, until a child has
no more visits there.  Documents are searched one after the other, and a
document that some child does not visit has no matches.
-/

namespace PositionalSearch

/-- What a proximity node asks of a match, and whether it collects payloads. -/
structure Nearness where
  arrangement : Arrangement
  slop : Nat
  collects : Bool

variable {size : Nat}

/-! ## Arrangements of first visits -/

/-- Children that have visits left, and the first visit of each. -/
structure Lined (size : Nat) where
  left : Fin size → Visits
  heads : Vector Visit size
  head?_left : ∀ child : Fin size, (left child).head? = some heads[child]

namespace Lined

/-- The first visits of children that all have some. -/
def ofFilled (left : Fin size → Visits) (filled : ∀ child, left child ≠ []) :
    Lined size where
  left := left
  heads := Vector.ofFn fun child => (left child).head (filled child)
  head?_left child := by
    rw [List.head?_eq_some_head (filled child)]
    simp

/-- The first visits, if no child has run out of them. -/
def of? (left : Fin size → Visits) : Option (Lined size) :=
  if filled : ∀ child, left child ≠ [] then some (ofFilled left filled)
  else none

/-- The spans of the first visits. -/
def spans (lined : Lined size) : Vector Span size :=
  lined.heads.map Visit.span

/-- The payloads of the first visits, in the order of the children. -/
def payloads (lined : Lined size) : List Payload :=
  lined.heads.toList.flatMap Visit.payloads

theorem of?_eq_some_iff {left : Fin size → Visits} {lined : Lined size} :
    of? left = some lined ↔ lined.left = left := by
  unfold of?
  constructor
  · intro found
    split at found
    · exact congrArg Lined.left (Option.some.inj found).symm
    · cases found
  · rintro rfl
    have filled : ∀ child, lined.left child ≠ [] := fun child none => by
      have isHead := lined.head?_left child
      rw [none] at isHead
      cases isHead
    rw [dif_pos filled, Option.some.injEq]
    have heads : Vector.ofFn (fun child => (lined.left child).head
        (filled child)) = lined.heads := by
      ext place inside
      rw [Vector.getElem_ofFn]
      have isHead := lined.head?_left ⟨place, inside⟩
      rw [List.head?_eq_some_head (filled _)] at isHead
      exact Option.some.inj isHead
    cases lined
    simp only [ofFilled, mk.injEq, true_and]
    exact heads

/-- The same first visits, with other visits behind them. -/
def before (lined : Lined size) (left : Fin size → Visits)
    (same : ∀ child, (left child).head? = (lined.left child).head?) :
    Lined size where
  left := left
  heads := lined.heads
  head?_left child := (same child).trans (lined.head?_left child)

end Lined

namespace Nearness

/-- A child passes the first of its visits. -/
def pass (child : Fin size) (left : Fin size → Visits) : Fin size → Visits :=
  Function.update left child (left child).tail

@[simp] theorem pass_self (child : Fin size) (left : Fin size → Visits) :
    pass child left child = (left child).tail := Function.update_self ..

theorem pass_of_ne {left : Fin size → Visits} {child other : Fin size}
    (isOther : other ≠ child) : pass child left other = left other :=
  Function.update_of_ne isOther ..

/-- What is left in one document. -/
def within (doc : DocId) (left : Fin size → Visits) : Fin size → Visits :=
  fun child => (left child).inside doc

/-- What is left in the documents after one. -/
def after (doc : DocId) (left : Fin size → Visits) : Fin size → Visits :=
  fun child => (left child).beyond doc

theorem within_after {doc later : DocId} (beyond : doc < later)
    (left : Fin size → Visits) : within later (after doc left) =
      within later left :=
  funext fun _ => Visits.inside_beyond beyond

/-- How many visits are left in all. -/
def extent (left : Fin size → Visits) : Nat :=
  ∑ child, (left child).length

/--
Each of the given children passes its visits up to one that starts where its
predecessor stops or later, the first of them up to one at `floor` or later.
-/
def stretch (floor : Position) :
    List (Fin size) → (Fin size → Visits) → Option (Fin size → Visits)
  | [], left => some left
  | child :: rest, left =>
      match (left child).startingAt floor with
      | [] => none
      | head :: later =>
          stretch head.span.stop rest
            (Function.update left child (head :: later))

theorem stretch_of_cons {floor : Position} {child : Fin size}
    {rest : List (Fin size)} {left : Fin size → Visits} {head : Visit}
    {later : Visits} (starts : (left child).startingAt floor = head :: later) :
    stretch floor (child :: rest) left = stretch head.span.stop rest
      (Function.update left child (head :: later)) := by
  rw [stretch, starts]

theorem stretch_of_nil {floor : Position} {child : Fin size}
    {rest : List (Fin size)} {left : Fin size → Visits}
    (starts : (left child).startingAt floor = []) :
    stretch floor (child :: rest) left = none := by
  rw [stretch, starts]

/-- Only the given children pass visits. -/
theorem stretch_of_not_mem {floor : Position} {children : List (Fin size)}
    {left ready : Fin size → Visits} {child : Fin size}
    (stretched : stretch floor children left = some ready)
    (other : child ∉ children) : ready child = left child := by
  induction children generalizing floor left with
  | nil =>
      cases stretched
      rfl
  | cons first rest ih =>
      rw [List.mem_cons, not_or] at other
      cases starts : (left first).startingAt floor with
      | nil =>
          rw [stretch_of_nil starts] at stretched
          cases stretched
      | cons head later =>
          rw [stretch_of_cons starts] at stretched
          rw [ih stretched other.2, Function.update_of_ne other.1]

/-- Stretched children start one after the other. -/
theorem inOrder_of_stretch {floor : Position} {children : List (Fin size)}
    {left ready : Fin size → Visits} {first : Span}
    (spans : Fin size → Span)
    (stretched : stretch floor children left = some ready)
    (once : children.Nodup) (stops : first.stop = floor)
    (heads : ∀ child ∈ children,
      (ready child).head?.map Visit.span = some (spans child)) :
    InOrder (first :: children.map spans) := by
  induction children generalizing floor left first with
  | nil => exact List.isChain_singleton _
  | cons child rest ih =>
      obtain ⟨notLater, onceOn⟩ := List.nodup_cons.mp once
      cases starts : (left child).startingAt floor with
      | nil =>
          rw [stretch_of_nil starts] at stretched
          cases stretched
      | cons head later =>
          rw [stretch_of_cons starts] at stretched
          have isReady := stretch_of_not_mem stretched notLater
          rw [Function.update_self] at isReady
          have isHead := heads child List.mem_cons_self
          rw [isReady] at isHead
          have isHead : head.span = spans child := Option.some.inj isHead
          rw [List.map_cons]
          refine List.isChain_cons_cons.mpr ⟨?_, ?_⟩
          · rw [stops, ← isHead]
            exact Visits.le_start_of_startingAt starts
          · exact ih stretched onceOn (congrArg Span.stop isHead.symm)
              fun other member => heads other (List.mem_cons_of_mem _ member)

/-- Children that are stretched already stay as they are. -/
theorem stretch_of_stretched {floor : Position} {children : List (Fin size)}
    {left ready : Fin size → Visits}
    (stretched : stretch floor children left = some ready)
    (once : children.Nodup) : stretch floor children ready = some ready := by
  induction children generalizing floor left with
  | nil => rfl
  | cons child rest ih =>
      obtain ⟨notLater, onceOn⟩ := List.nodup_cons.mp once
      cases starts : (left child).startingAt floor with
      | nil =>
          rw [stretch_of_nil starts] at stretched
          cases stretched
      | cons head later =>
          rw [stretch_of_cons starts] at stretched
          have isReady := stretch_of_not_mem stretched notLater
          rw [Function.update_self, ← starts] at isReady
          have again : (ready child).startingAt floor = head :: later := by
            rw [isReady, Visits.startingAt_startingAt, starts]
          have same : Function.update ready child (head :: later) = ready := by
            rw [← starts, ← isReady]
            exact Function.update_eq_self _ _
          rw [stretch_of_cons again, same]
          exact ih stretched onceOn

/-- No stretched child has run out of visits. -/
theorem stretch_ne_nil {floor : Position} {children : List (Fin size)}
    {left ready : Fin size → Visits} {child : Fin size}
    (stretched : stretch floor children left = some ready)
    (once : children.Nodup) (member : child ∈ children) :
    ready child ≠ [] := by
  induction children generalizing floor left with
  | nil => exact absurd member List.not_mem_nil
  | cons first rest ih =>
      obtain ⟨notLater, onceOn⟩ := List.nodup_cons.mp once
      cases starts : (left first).startingAt floor with
      | nil =>
          rw [stretch_of_nil starts] at stretched
          cases stretched
      | cons head later =>
          rw [stretch_of_cons starts] at stretched
          rcases List.mem_cons.mp member with rfl | further
          · rw [stretch_of_not_mem stretched notLater, Function.update_self]
            exact List.cons_ne_nil _ _
          · exact ih stretched onceOn further

/-- The children that come next in an arrangement that can be tried. -/
def lineUp? (rule : Nearness) (filled : 0 < size)
    (left : Fin size → Visits) : Option (Lined size) :=
  match rule.arrangement with
  | .inOrder => do
      let first ← (left ⟨0, filled⟩).head?
      Lined.of? (← stretch first.span.stop (List.finRange size).tail left)
  | .anyOrder => Lined.of? left

/-- The child that passes its visit when an arrangement was tried. -/
def pivot (rule : Nearness) (filled : 0 < size) (lined : Lined size) :
    Fin size :=
  match rule.arrangement with
  | .inOrder => ⟨0, filled⟩
  | .anyOrder => Lineup.leastChild lined.spans filled

/-- The span that an arrangement has in a document, if it is within the slop. -/
def fitting? (rule : Nearness) (filled : 0 < size) (doc : DocId)
    (lined : Lined size) : Option Span :=
  match rule.arrangement with
  | .inOrder => do
      let span ← Span.ofBounds? doc lined.spans[0].start
        lined.spans[lastPlace filled].stop
      let slack ← gaps? lined.spans.toList
      if slack ≤ rule.slop then some span else none
  | .anyOrder => do
      let window ← Span.ofBounds? doc
        lined.spans[Lineup.leastChild lined.spans filled].start
        (Lineup.latestStop lined.spans)
      if window.length ≤ rule.slop + Lineup.covered lined.spans then
        some window
      else none

section

variable {rule : Nearness} {filled : 0 < size} {doc : DocId}
  {lined : Lined size} {whole : Span} {slack : Nat}

/-- In order a span fits when the gaps in it are within the slop. -/
theorem fitting?_of_inOrder (inOrder : rule.arrangement = .inOrder)
    (bounded : Span.ofBounds? doc lined.spans[0].start
      lined.spans[lastPlace filled].stop = some whole)
    (isSlack : gaps? lined.spans.toList = some slack) :
    rule.fitting? filled doc lined =
      if slack ≤ rule.slop then some whole else none := by
  simp only [fitting?, inOrder, bounded, isSlack, Option.bind_eq_bind,
    Option.bind_some]

/-- In any order it fits when what it covers beside the heads is. -/
theorem fitting?_of_anyOrder (anyOrder : rule.arrangement = .anyOrder)
    (bounded : Span.ofBounds? doc
      lined.spans[Lineup.leastChild lined.spans filled].start
      (Lineup.latestStop lined.spans) = some whole) :
    rule.fitting? filled doc lined =
      if whole.length ≤ rule.slop + Lineup.covered lined.spans then
        some whole
      else none := by
  simp only [fitting?, anyOrder, bounded, Option.bind_eq_bind,
    Option.bind_some]

/-- A span that fits is a match if it is new. -/
theorem filter_isNew_ite {fits : Prop} [Decidable fits]
    (last? : Option Span) (span : Span) :
    (if fits then some span else none).filter (isNew last?) =
      if fits ∧ isNew last? span then some span else none := by
  by_cases holds : fits
  · simp only [holds, true_and, ↓reduceIte, Option.filter_some]
  · simp only [holds, false_and, ↓reduceIte, Option.filter_none]

end

theorem doc_of_fitting? {rule : Nearness} {filled : 0 < size} {doc : DocId}
    {lined : Lined size} {span : Span}
    (fits : rule.fitting? filled doc lined = some span) : span.doc = doc := by
  unfold fitting? at fits
  split at fits
  · obtain ⟨found, isFound, rest⟩ := Option.bind_eq_some_iff.mp fits
    obtain ⟨_, _, same⟩ := Option.bind_eq_some_iff.mp rest
    split at same
    · cases same
      exact (Span.ofBounds?_eq_some isFound).1
    · cases same
  · obtain ⟨found, isFound, same⟩ := Option.bind_eq_some_iff.mp fits
    split at same
    · cases same
      exact (Span.ofBounds?_eq_some isFound).1
    · cases same

/-! ## What is left gets shorter -/

variable {left ready : Fin size → Visits} {child : Fin size}

/-- Stretching only passes visits. -/
theorem suffix_of_stretch {floor : Position} {children : List (Fin size)}
    (stretched : stretch floor children left = some ready)
    (child : Fin size) : ready child <:+ left child := by
  induction children generalizing floor left with
  | nil =>
      cases stretched
      exact List.suffix_rfl
  | cons first rest ih =>
      unfold stretch at stretched
      split at stretched
      · cases stretched
      · rename_i head later dropped
        have shorter := ih stretched
        by_cases same : child = first
        · subst same
          rw [Function.update_self] at shorter
          refine shorter.trans ?_
          rw [← dropped]
          exact List.dropWhile_suffix _
        · rw [Function.update_of_ne same] at shorter
          exact shorter

theorem suffix_of_lineUp? {rule : Nearness} {filled : 0 < size}
    {lined : Lined size} (found : rule.lineUp? filled left = some lined)
    (child : Fin size) : lined.left child <:+ left child := by
  unfold lineUp? at found
  split at found
  · obtain ⟨first, _, rest⟩ := Option.bind_eq_some_iff.mp found
    obtain ⟨ready, stretched, isLined⟩ := Option.bind_eq_some_iff.mp rest
    rw [Lined.of?_eq_some_iff.mp isLined]
    exact suffix_of_stretch stretched child
  · rw [Lined.of?_eq_some_iff.mp found]

theorem extent_pass_lt {rule : Nearness} {filled : 0 < size}
    {lined : Lined size} (found : rule.lineUp? filled left = some lined)
    (child : Fin size) : extent (pass child lined.left) < extent left := by
  have notLonger := fun other => (suffix_of_lineUp? found other).length_le
  refine Finset.sum_lt_sum (fun other _ => ?_) ⟨child, Finset.mem_univ _, ?_⟩
  · refine Nat.le_trans ?_ (notLonger other)
    by_cases same : other = child
    · subst same
      rw [pass_self, List.length_tail]
      exact Nat.sub_le _ _
    · rw [pass_of_ne same]
  · refine Nat.lt_of_lt_of_le ?_ (notLonger child)
    obtain ⟨rest, isLeft⟩ := List.head?_eq_some_iff.mp (lined.head?_left child)
    rw [pass_self, isLeft]
    exact Nat.lt_succ_self rest.length

/-! ## The matches in a document -/

/-- The matches in one document that come after the last one. -/
def slide (rule : Nearness) (filled : 0 < size) (doc : DocId)
    (last? : Option Span) (left : Fin size → Visits) : Visits :=
  match found : rule.lineUp? filled left with
  | none => []
  | some lined =>
      have := extent_pass_lt found (rule.pivot filled lined)
      match (rule.fitting? filled doc lined).filter (isNew last?) with
      | none =>
          slide rule filled doc last?
            (pass (rule.pivot filled lined) lined.left)
      | some span =>
          ⟨span, if rule.collects then lined.payloads else []⟩ ::
            slide rule filled doc (some span)
              (pass (rule.pivot filled lined) lined.left)
termination_by extent left

variable {rule : Nearness} {filled : 0 < size} {doc : DocId}
  {last? : Option Span} {lined : Lined size} {visit : Visit}

theorem slide_of_none (ended : rule.lineUp? filled left = none) :
    rule.slide filled doc last? left = [] := by
  rw [slide]
  split
  · rfl
  · rename_i found
    rw [ended] at found
    cases found

/-- An arrangement that is no new match is passed. -/
theorem slide_of_miss (found : rule.lineUp? filled left = some lined)
    (misses : (rule.fitting? filled doc lined).filter (isNew last?) = none) :
    rule.slide filled doc last? left =
      rule.slide filled doc last?
        (pass (rule.pivot filled lined) lined.left) := by
  rw [slide]
  split
  · rename_i ended
    rw [ended] at found
    cases found
  · rename_i isFound
    rw [found] at isFound
    cases isFound
    rw [misses]

/-- An arrangement that is a new match comes first. -/
theorem slide_of_hit {span : Span}
    (found : rule.lineUp? filled left = some lined)
    (hits : (rule.fitting? filled doc lined).filter (isNew last?) =
      some span) :
    rule.slide filled doc last? left =
      ⟨span, if rule.collects then lined.payloads else []⟩ ::
        rule.slide filled doc (some span)
          (pass (rule.pivot filled lined) lined.left) := by
  rw [slide]
  split
  · rename_i ended
    rw [ended] at found
    cases found
  · rename_i isFound
    rw [found] at isFound
    cases isFound
    rw [hits]

/-- The matches depend only on the arrangement that is tried first. -/
theorem slide_congr {ready : Fin size → Visits}
    (same : rule.lineUp? filled ready = rule.lineUp? filled left) :
    rule.slide filled doc last? ready = rule.slide filled doc last? left := by
  cases found : rule.lineUp? filled left with
  | none => rw [slide_of_none found, slide_of_none (same.trans found)]
  | some lined =>
      cases hits : (rule.fitting? filled doc lined).filter (isNew last?) with
      | none =>
          rw [slide_of_miss found hits, slide_of_miss (same.trans found) hits]
      | some span =>
          rw [slide_of_hit found hits, slide_of_hit (same.trans found) hits]

/-- When a child has no more visits there are no more matches. -/
theorem slide_eq_nil (child : Fin size) (none : left child = []) :
    rule.slide filled doc last? left = [] := by
  refine slide_of_none ?_
  cases found : rule.lineUp? filled left with
  | none => rfl
  | some lined =>
      have shorter := suffix_of_lineUp? found child
      have isHead := lined.head?_left child
      rw [none] at shorter
      rw [List.suffix_nil.mp shorter] at isHead
      cases isHead

/-- Matches are in the document, and come after the last one. -/
theorem of_mem_slide
    (member : visit ∈ rule.slide filled doc last? left) :
    visit.doc = doc ∧ isNew last? visit.span := by
  fun_induction slide rule filled doc last? left with
  | case1 => exact absurd member List.not_mem_nil
  | case2 last? left lined found shorter misses ih => exact ih member
  | case3 last? left lined found shorter span hits ih =>
      obtain ⟨fits, new⟩ := Option.filter_eq_some_iff.mp hits
      rcases List.mem_cons.mp member with rfl | later
      · exact ⟨doc_of_fitting? fits, new⟩
      · obtain ⟨inDoc, after⟩ := ih later
        refine ⟨inDoc, ?_⟩
        cases last? with
        | none => rfl
        | some last =>
            simp only [isNew, Option.all_some, decide_eq_true_eq] at new after ⊢
            exact Span.lt_trans new after

theorem ordered_slide : (rule.slide filled doc last? left).Ordered := by
  fun_induction slide rule filled doc last? left with
  | case1 => exact Visits.Ordered.nil
  | case2 last? left lined found shorter misses ih => exact ih
  | case3 last? left lined found shorter span hits ih =>
      refine List.pairwise_cons.mpr ⟨fun later member => ?_, ih⟩
      have after := (of_mem_slide member).2
      simpa [isNew] using after

/-- A match in an earlier document has no say in this one. -/
theorem slide_of_doc_lt (left : Fin size → Visits) {last : Span}
    (earlier : last.doc < doc) :
    rule.slide filled doc (some last) left =
      rule.slide filled doc none left := by
  cases found : rule.lineUp? filled left with
  | none => rw [slide_of_none found, slide_of_none found]
  | some lined =>
      have shorter := extent_pass_lt found (rule.pivot filled lined)
      cases fits : rule.fitting? filled doc lined with
      | none =>
          rw [slide_of_miss found (by rw [fits]; rfl),
            slide_of_miss found (by rw [fits]; rfl)]
          exact slide_of_doc_lt _ earlier
      | some span =>
          have new : last < span := by
            refine Span.lt_of_doc_lt ?_
            rw [doc_of_fitting? fits]
            exact earlier
          have hits : (some span).filter (isNew (some last)) = some span :=
            Option.filter_eq_some_iff.mpr ⟨rfl, decide_eq_true new⟩
          rw [slide_of_hit found (by rw [fits]; exact hits),
            slide_of_hit found (by rw [fits]; rfl)]
termination_by extent left

/-! ## All matches -/

/-- The documents visited, in their order. -/
def documents (visits : Visits) : List DocId := (visits.map Visit.doc).dedup

/-- The matches in all documents. -/
def allMatches (rule : Nearness) (left : Fin size → Visits) : Visits :=
  if filled : 0 < size then
    (documents (left ⟨0, filled⟩)).flatMap fun doc =>
      rule.slide filled doc none (within doc left)
  else []

/-- Children may be numbered up to an equal number. -/
theorem allMatches_cast {count : Nat} (same : count = size) :
    rule.allMatches (fun place : Fin count => left (place.cast same)) =
      rule.allMatches left := by
  subst same
  rfl

/-- Each match is one of its own document. -/
theorem mem_allMatches (filled : 0 < size) :
    visit ∈ rule.allMatches left ↔
      visit ∈ rule.slide filled visit.doc none (within visit.doc left) := by
  unfold allMatches
  rw [dif_pos filled, List.mem_flatMap]
  constructor
  · rintro ⟨doc, _, member⟩
    rw [(of_mem_slide member).1]
    exact member
  · intro member
    refine ⟨visit.doc, List.mem_dedup.mpr ?_, member⟩
    by_contra elsewhere
    have none : (left ⟨0, filled⟩).inside visit.doc = [] := by
      refine List.filter_eq_nil_iff.mpr fun other isOther => ?_
      rw [decide_eq_true_eq]
      exact fun same => elsewhere (List.mem_map.mpr ⟨other, isOther, same⟩)
    rw [slide_eq_nil _ none] at member
    exact absurd member List.not_mem_nil

/-- Every child visits the document of a match. -/
theorem exists_mem_of_mem_allMatches
    (member : visit ∈ rule.allMatches left) (child : Fin size) :
    ∃ other ∈ left child, other.doc = visit.doc := by
  by_contra elsewhere
  have filled : 0 < size := Nat.lt_of_le_of_lt (Nat.zero_le _) child.isLt
  have none : (left child).inside visit.doc = [] := by
    refine List.filter_eq_nil_iff.mpr fun other isOther => ?_
    rw [decide_eq_true_eq]
    exact fun same => elsewhere ⟨other, isOther, same⟩
  rw [mem_allMatches filled, slide_eq_nil child none] at member
  exact absurd member List.not_mem_nil

theorem ordered_documents {visits : Visits} (ordered : visits.Ordered) :
    (documents visits).Pairwise (· < ·) := by
  have sorted : (visits.map Visit.doc).Pairwise (· ≤ ·) :=
    List.pairwise_map.mpr (ordered.imp fun before => Span.doc_le_of_lt before)
  refine ((sorted.sublist (List.dedup_sublist _)).and
    (List.nodup_dedup _)).imp ?_
  rintro first second ⟨notAfter, other⟩
  exact UInt64.lt_of_le_of_ne notAfter other

theorem ordered_allMatches (ordered : ∀ child, (left child).Ordered) :
    (rule.allMatches left).Ordered := by
  unfold allMatches
  split
  · refine List.pairwise_flatMap.mpr ⟨fun doc _ => ordered_slide, ?_⟩
    refine (ordered_documents (ordered _)).imp fun before => ?_
    intro one inOne other inOther
    refine Span.lt_of_doc_lt ?_
    have oneDoc := (of_mem_slide inOne).1
    have otherDoc := (of_mem_slide inOther).1
    change one.doc < other.doc
    rw [oneDoc, otherDoc]
    exact before
  · exact Visits.Ordered.nil

/-- Only the documents that all children visit count. -/
theorem allMatches_congr (ordered : ∀ child, (left child).Ordered)
    (readyOrdered : ∀ child, (ready child).Ordered)
    (same : ∀ doc, (∀ child, (left child).inside doc ≠ []) ∨
      (∀ child, (ready child).inside doc ≠ []) →
        ∀ child, (ready child).inside doc = (left child).inside doc) :
    rule.allMatches ready = rule.allMatches left := by
  by_cases filled : 0 < size
  · refine (ordered_allMatches readyOrdered).eq_of_mem_iff
      (ordered_allMatches ordered) fun visit => ?_
    have visited : ∀ {group : Fin size → Visits},
        visit ∈ rule.slide filled visit.doc none group →
          ∀ child, group child ≠ [] := by
      intro group member child none
      rw [slide_eq_nil child none] at member
      exact absurd member List.not_mem_nil
    rw [mem_allMatches filled, mem_allMatches filled]
    constructor
    · intro member
      have equal := same visit.doc (.inr (visited member))
      rw [show within visit.doc ready = within visit.doc left from
        funext equal] at member
      exact member
    · intro member
      have equal := same visit.doc (.inl (visited member))
      rw [show within visit.doc ready = within visit.doc left from
        funext equal]
      exact member
  · simp only [allMatches, filled, ↓reduceDIte]

/-- To seek a document is to pass the matches before it. -/
theorem allMatches_since (ordered : ∀ child, (left child).Ordered)
    (target : DocId) :
    rule.allMatches (fun child => (left child).since target) =
      (rule.allMatches left).since target := by
  by_cases filled : 0 < size
  · refine (ordered_allMatches fun child =>
      (ordered child).since target).eq_of_mem_iff
        ((ordered_allMatches ordered).since target) fun visit => ?_
    rw [Visits.mem_since, mem_allMatches filled, mem_allMatches filled]
    by_cases reached : target ≤ visit.doc
    · rw [show within visit.doc (fun child => (left child).since target) =
        within visit.doc left from
        funext fun _ => Visits.inside_since_of_le reached]
      exact ⟨fun member => ⟨member, reached⟩, And.left⟩
    · have before := UInt64.not_le.mp reached
      rw [slide_eq_nil ⟨0, filled⟩ (Visits.inside_since_of_lt before)]
      exact ⟨fun member => absurd member List.not_mem_nil,
        fun member => absurd member.2 reached⟩
  · simp only [allMatches, filled, ↓reduceDIte]
    rfl

theorem allMatches_sinceAny (ordered : ∀ child, (left child).Ordered)
    (target? : Option DocId) :
    rule.allMatches (fun child => (left child).sinceAny target?) =
      (rule.allMatches left).sinceAny target? := by
  cases target? with
  | none => rfl
  | some target => exact allMatches_since ordered target

/-- The matches of the first document, then those of the documents after. -/
theorem allMatches_eq_append (filled : 0 < size)
    (ordered : ∀ child, (left child).Ordered)
    (since : ∀ child, ∀ visit ∈ left child, doc ≤ visit.doc) :
    rule.allMatches left =
      rule.slide filled doc none (within doc left) ++
        rule.allMatches (after doc left) := by
  have later : ∀ visit ∈ rule.allMatches (after doc left),
      doc < visit.doc := by
    intro visit member
    obtain ⟨other, isOther, same⟩ :=
      exists_mem_of_mem_allMatches member ⟨0, filled⟩
    rw [← same]
    exact (Visits.mem_beyond.mp isOther).2
  refine (ordered_allMatches ordered).eq_of_mem_iff ?_ fun visit => ?_
  · refine List.pairwise_append.mpr ⟨ordered_slide,
      ordered_allMatches fun child => (ordered child).filter _, ?_⟩
    intro one inOne other inOther
    refine Span.lt_of_doc_lt ?_
    have inDoc := (of_mem_slide inOne).1
    change one.doc < other.doc
    rw [inDoc]
    exact later other inOther
  · rw [List.mem_append, mem_allMatches filled]
    constructor
    · intro member
      by_cases same : visit.doc = doc
      · rw [same] at member
        exact .inl member
      · obtain ⟨other, isOther, inDoc⟩ := exists_mem_of_mem_allMatches
          ((mem_allMatches filled).mpr member) ⟨0, filled⟩
        have reached := since _ other isOther
        rw [inDoc] at reached
        have before := UInt64.lt_of_le_of_ne reached (Ne.symm same)
        refine .inr ((mem_allMatches filled).mpr ?_)
        rw [within_after before]
        exact member
    · rintro (member | member)
      · rw [(of_mem_slide member).1]
        exact member
      · have before := later visit member
        rw [mem_allMatches filled, within_after before] at member
        exact member

end Nearness

end PositionalSearch
