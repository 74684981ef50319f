import Mathlib
import PositionalSearch.HeadQueue
import PositionalSearch.Proofs.SpanOrder

/-!
# The queue of heads is a heap

Every entry of a queue but the first has its parent at half its place.  A
queue is heaped when no entry precedes its parent; then none precedes the
first.  A sift starts from entries of which one may be out of order, and ends
with heaped ones; it only exchanges entries.
-/

namespace PositionalSearch

namespace Head

variable {ι : Type} [LinearOrder ι]

theorem lt_iff {left right : Head ι} :
    left < right ↔ left.span < right.span ∨
      left.span = right.span ∧ left.child < right.child := Iff.rfl

/-- Heads are linearly ordered, by span and then by child. -/
instance : LinearOrder (Head ι) where
  le left right := ¬ right < left
  lt := (· < ·)
  le_refl head := by
    simp only [lt_iff]
    grind
  le_trans first second third := by
    simp only [lt_iff]
    grind
  lt_iff_le_not_ge left right := by
    simp only [lt_iff]
    grind
  le_antisymm left right := by
    cases left
    cases right
    simp only [lt_iff, Head.mk.injEq]
    grind
  le_total left right := by
    simp only [lt_iff]
    grind
  toDecidableLE left right := inferInstanceAs (Decidable (¬ right < left))
  toDecidableLT left right := inferInstance

/-- The span decides first. -/
theorem span_le_of_le {left right : Head ι} (notAfter : left ≤ right) :
    left.span ≤ right.span := by
  have notBefore : ¬ right < left := notAfter
  simp only [lt_iff] at notBefore
  grind

end Head

namespace HeadQueue

variable {ι : Type} [LinearOrder ι] {size : Nat}

/-- No entry precedes its parent, but perhaps the one at the hole. -/
def HeapedBelow (heads : Vector (Head ι) size) (hole : Nat) : Prop :=
  ∀ (place : Nat) (inside : place < size), 0 < place → place ≠ hole →
    heads[(place - 1) / 2] ≤ heads[place]

/-- No entry precedes its parent, but perhaps those whose parent is the hole. -/
def HeapedAbove (heads : Vector (Head ι) size) (hole : Nat) : Prop :=
  ∀ (place : Nat) (inside : place < size), 0 < place →
    (place - 1) / 2 ≠ hole → heads[(place - 1) / 2] ≤ heads[place]

/-- No entry below the hole precedes the parent of the hole. -/
def HeapedAround (heads : Vector (Head ι) size) (hole : Nat) : Prop :=
  ∀ (place : Nat) (inside : place < size), 0 < place →
    (place - 1) / 2 = hole → 0 < hole →
      heads[((place - 1) / 2 - 1) / 2] ≤ heads[place]

/-- No entry precedes its parent. -/
def HeapedAll (heads : Vector (Head ι) size) : Prop :=
  ∀ (place : Nat) (inside : place < size), 0 < place →
    heads[(place - 1) / 2] ≤ heads[place]

/-- No head of the queue precedes its parent. -/
def Heaped (queue : HeadQueue ι) : Prop :=
  HeapedAll (⟨queue.heads, rfl⟩ : Vector (Head ι) queue.heads.size)

/-- The first entry precedes all others. -/
theorem HeapedAll.first_le {heads : Vector (Head ι) size}
    (heaped : HeapedAll heads) (place : Nat) (inside : place < size) :
    heads[0] ≤ heads[place] := by
  induction place using Nat.strongRecOn with
  | ind place ih =>
      rcases Nat.eq_zero_or_pos place with rfl | positive
      · exact le_refl _
      · exact le_trans (ih ((place - 1) / 2) (by omega) (by omega))
          (heaped place inside positive)

/-! ## Sifting up -/

/-- One step up leaves at most the parent out of order. -/
theorem HeapedBelow.swap {heads : Vector (Head ι) size} {place : Nat}
    (inside : place < size) (notTop : place ≠ 0)
    (below : HeapedBelow heads place) (around : HeapedAround heads place)
    (precedes : heads[place] < heads[(place - 1) / 2]) :
    HeapedBelow (heads.swap place ((place - 1) / 2)) ((place - 1) / 2) := by
  intro other otherInside positive notParent
  have parentLe := below ((place - 1) / 2) (by omega)
  have otherLe := below other otherInside positive
  have childLe := around other otherInside positive
  simp only [Vector.getElem_swap]
  split_ifs <;> grind

/-- One step up keeps what is below the parent after what is above it. -/
theorem HeapedAround.swap {heads : Vector (Head ι) size} {place : Nat}
    (inside : place < size) (below : HeapedBelow heads place) :
    HeapedAround (heads.swap place ((place - 1) / 2)) ((place - 1) / 2) := by
  intro other otherInside positive isChild parentPositive
  have parentLe := below ((place - 1) / 2) (by omega) parentPositive
    (by omega)
  have otherLe := below other otherInside positive
  simp only [Vector.getElem_swap]
  split_ifs <;> grind

/-- To sift an entry up puts it in order. -/
theorem heapedAll_siftUp (heads : Vector (Head ι) size) (place : Fin size)
    (below : HeapedBelow heads place) (around : HeapedAround heads place) :
    HeapedAll (siftUp heads place) := by
  fun_induction siftUp heads place with
  | case1 heads place top =>
      intro other otherInside positive
      exact below other otherInside positive (by omega)
  | case2 heads place notTop parent precedes ih =>
      exact ih (below.swap place.isLt notTop around precedes)
        (HeapedAround.swap place.isLt below)
  | case3 heads place notTop parent stays =>
      intro other otherInside positive
      by_cases same : other = place
      · subst same
        exact not_lt.mp stays
      · exact below other otherInside positive same

theorem siftUp_perm (heads : Vector (Head ι) size) (place : Fin size) :
    (siftUp heads place).toList.Perm heads.toList := by
  fun_induction siftUp heads place with
  | case1 => exact .refl _
  | case2 heads place notTop parent precedes ih =>
      exact ih.trans (Vector.swap_perm _ _).toList
  | case3 => exact .refl _

/-! ## Sifting down -/

/-- The lesser child is a child, and no child precedes it. -/
theorem lesserChild?_eq_some {heads : Vector (Head ι) size}
    {place child : Fin size} {below : place.val < child.val}
    (found : lesserChild? heads place = some ⟨child, below⟩) :
    (child.val - 1) / 2 = place.val ∧
      ∀ (other : Nat) (inside : other < size), 0 < other →
        (other - 1) / 2 = place.val → heads[child] ≤ heads[other] := by
  unfold lesserChild? at found
  split at found
  · split at found
    · split at found
      · cases found
        refine ⟨by dsimp only; omega, fun other inside positive parent => ?_⟩
        have : other = 2 * place.val + 1 ∨ other = 2 * place.val + 2 := by
          omega
        grind
      · cases found
        refine ⟨by dsimp only; omega, fun other inside positive parent => ?_⟩
        have : other = 2 * place.val + 1 ∨ other = 2 * place.val + 2 := by
          omega
        grind
    · cases found
      refine ⟨by dsimp only; omega, fun other inside positive parent => ?_⟩
      have : other = 2 * place.val + 1 := by omega
      grind
  · cases found

/-- Without a lesser child there is no child. -/
theorem lesserChild?_eq_none {heads : Vector (Head ι) size}
    {place : Fin size} (none : lesserChild? heads place = none) {other : Nat}
    (inside : other < size) (positive : 0 < other) :
    (other - 1) / 2 ≠ place.val := by
  unfold lesserChild? at none
  split at none
  · split at none
    · split at none <;> cases none
    · cases none
  · omega

/-- One step down leaves at most the children of the child out of order. -/
theorem HeapedAbove.swap {heads : Vector (Head ι) size} {place child : Nat}
    (inside : place < size) (childInside : child < size)
    (isChild : (child - 1) / 2 = place) (further : place < child)
    (above : HeapedAbove heads place) (around : HeapedAround heads place)
    (least : ∀ (other : Nat) (inside : other < size), 0 < other →
      (other - 1) / 2 = place → heads[child] ≤ heads[other])
    (precedes : heads[child] < heads[place]) :
    HeapedAbove (heads.swap place child) child := by
  intro other otherInside positive notBelow
  have otherLe := above other otherInside positive
  have childLe := least other otherInside positive
  have upLe := around child childInside (by omega) isChild
  simp only [Vector.getElem_swap]
  split_ifs <;> grind

/-- One step down keeps what is below the child after what is above it. -/
theorem HeapedAround.swap_child {heads : Vector (Head ι) size}
    {place child : Nat} (inside : place < size) (childInside : child < size)
    (isChild : (child - 1) / 2 = place) (further : place < child)
    (above : HeapedAbove heads place) :
    HeapedAround (heads.swap place child) child := by
  intro other otherInside positive parent childPositive
  have otherLe := above other otherInside positive
  simp only [Vector.getElem_swap]
  split_ifs <;> grind

/-- To sift an entry down puts it in order. -/
theorem heapedAll_siftDown (heads : Vector (Head ι) size) (place : Fin size)
    (above : HeapedAbove heads place) (around : HeapedAround heads place) :
    HeapedAll (siftDown heads place) := by
  fun_induction siftDown heads place with
  | case1 heads place alone =>
      intro other otherInside positive
      exact above other otherInside positive
        (lesserChild?_eq_none alone otherInside positive)
  | case2 heads place child further found precedes _ ih =>
      obtain ⟨isChild, least⟩ := lesserChild?_eq_some found
      exact ih
        (above.swap place.isLt child.isLt isChild further around least
          precedes)
        (HeapedAround.swap_child place.isLt child.isLt isChild further above)
  | case3 heads place child further found stays =>
      obtain ⟨isChild, least⟩ := lesserChild?_eq_some found
      intro other otherInside positive
      by_cases parent : (other - 1) / 2 = place.val
      · have childLe := least other otherInside positive parent
        simp only [parent]
        exact le_trans (not_lt.mp stays) childLe
      · exact above other otherInside positive parent

theorem siftDown_perm (heads : Vector (Head ι) size) (place : Fin size) :
    (siftDown heads place).toList.Perm heads.toList := by
  fun_induction siftDown heads place with
  | case1 => exact .refl _
  | case2 heads place child further found precedes _ ih =>
      exact ih.trans (Vector.swap_perm _ _).toList
  | case3 => exact .refl _

/-! ## Queues -/

theorem heaped_empty : (empty : HeadQueue ι).Heaped := by
  intro place inside
  exact absurd inside (Nat.not_lt_zero _)

theorem heaped_of_heapedAll {heads : Vector (Head ι) size}
    (heaped : HeapedAll heads) : (⟨heads.toArray⟩ : HeadQueue ι).Heaped := by
  obtain ⟨array, rfl⟩ := heads
  exact heaped

/-- The least head precedes all others. -/
theorem Heaped.least_le {queue : HeadQueue ι} (heaped : queue.Heaped)
    {least head : Head ι} (first : queue.least? = some least)
    (member : head ∈ queue.heads) : least ≤ head := by
  obtain ⟨filled, rfl⟩ := Array.getElem?_eq_some_iff.mp first
  obtain ⟨place, inside, rfl⟩ := Array.getElem_of_mem member
  exact heaped.first_le place inside

theorem heaped_push {queue : HeadQueue ι} (heaped : queue.Heaped)
    (head : Head ι) : (queue.push head).Heaped := by
  refine heaped_of_heapedAll (heapedAll_siftUp _ _ ?_ ?_)
  · intro place inside positive other
    simp only [Array.size_push] at inside
    have older : place < queue.heads.size := by
      dsimp only at other
      omega
    have := heaped place older positive
    simpa [Array.getElem_push, older, show (place - 1) / 2 <
      queue.heads.size by omega] using this
  · intro place inside positive parent
    simp only [Array.size_push] at inside
    dsimp only at parent
    omega

theorem push_perm (queue : HeadQueue ι) (head : Head ι) :
    (queue.push head).heads.toList.Perm (head :: queue.heads.toList) := by
  refine (siftUp_perm _ _).trans ?_
  simp

theorem heaped_replaceLeast {queue : HeadQueue ι} (heaped : queue.Heaped)
    (filled : 0 < queue.heads.size) (head : Head ι) :
    (queue.replaceLeast filled head).Heaped := by
  refine heaped_of_heapedAll (heapedAll_siftDown _ _ ?_ ?_)
  · intro place inside positive notBelow
    have := heaped place inside positive
    have up : (place - 1) / 2 ≠ 0 := notBelow
    simpa [Array.getElem_set, Ne.symm up, positive.ne] using this
  · intro place inside positive parent topPositive
    exact absurd topPositive (Nat.lt_irrefl 0)

theorem replaceLeast_perm (queue : HeadQueue ι)
    (filled : 0 < queue.heads.size) (head : Head ι) :
    (queue.replaceLeast filled head).heads.toList.Perm
      (head :: queue.heads.toList.tail) := by
  refine (siftDown_perm _ _).trans ?_
  obtain ⟨heads⟩ := queue
  obtain ⟨list⟩ := heads
  cases list with
  | nil => exact absurd filled (Nat.lt_irrefl 0)
  | cons first rest => simp

theorem heaped_dropLeast {queue : HeadQueue ι} (heaped : queue.Heaped) :
    queue.dropLeast.Heaped := by
  have popped : (⟨queue.heads.pop⟩ : HeadQueue ι).Heaped := by
    intro place inside positive
    have := heaped place (by simp at inside; omega) positive
    simpa using this
  unfold dropLeast
  split
  · dsimp only
    split
    · exact heaped_replaceLeast popped _ _
    · exact popped
  · exact heaped

theorem dropLeast_perm (queue : HeadQueue ι) :
    queue.dropLeast.heads.toList.Perm queue.heads.toList.tail := by
  obtain ⟨⟨list⟩⟩ := queue
  cases list with
  | nil => simp [dropLeast]
  | cons first rest =>
      unfold dropLeast
      rw [dif_pos (by simp)]
      dsimp only
      split
      · rename_i left
        have rest_ne : rest ≠ [] := by
          rintro rfl
          simp at left
        refine (replaceLeast_perm _ _ _).trans ?_
        have last : (first :: rest)[(first :: rest).length - 1] =
            rest.getLast rest_ne := by
          rw [List.getElem_length_sub_one_eq_getLast]
          exact List.getLast_cons rest_ne
        have popped : (first :: rest).dropLast.tail = rest.dropLast := by
          rw [List.dropLast_cons_of_ne_nil rest_ne, List.tail_cons]
        simp only [List.size_toArray, List.getElem_toArray, List.pop_toArray,
          List.tail_cons]
        rw [last, popped]
        calc rest.getLast rest_ne :: rest.dropLast
            |>.Perm (rest.dropLast ++ [rest.getLast rest_ne]) :=
              (List.perm_append_singleton _ _).symm
          _ = rest := List.dropLast_concat_getLast rest_ne
      · rename_i single
        cases rest with
        | nil => simp
        | cons second rest => simp at single

/-- The queue once a child went to its first span, or to none. -/
def receive (queue : HeadQueue ι) (child : ι) : Option Span → HeadQueue ι
  | none => queue
  | some span => queue.push ⟨span, child⟩

theorem heaped_receive {queue : HeadQueue ι} (heaped : queue.Heaped) (child : ι)
    (span? : Option Span) : (queue.receive child span?).Heaped := by
  cases span? with
  | none => exact heaped
  | some span => exact heaped_push heaped _

theorem receive_perm (queue : HeadQueue ι) (child : ι) (span? : Option Span) :
    (queue.receive child span?).heads.toList.Perm
      ((span?.map (Head.mk · child)).toList ++ queue.heads.toList) := by
  cases span? with
  | none => exact .refl _
  | some span => exact push_perm queue _

/-- The queue once the child of its least head went to another span or none. -/
def exchange (queue : HeadQueue ι) (filled : 0 < queue.heads.size) :
    Option Span → HeadQueue ι
  | none => queue.dropLeast
  | some span => queue.replaceLeast filled ⟨span, queue.heads[0].child⟩

theorem heaped_exchange {queue : HeadQueue ι} (heaped : queue.Heaped)
    (filled : 0 < queue.heads.size) (span? : Option Span) :
    (queue.exchange filled span?).Heaped := by
  cases span? with
  | none => exact heaped_dropLeast heaped
  | some span => exact heaped_replaceLeast heaped filled _

theorem exchange_perm (queue : HeadQueue ι) (filled : 0 < queue.heads.size)
    (span? : Option Span) :
    (queue.exchange filled span?).heads.toList.Perm
      ((span?.map (Head.mk · queue.heads[0].child)).toList ++
        queue.heads.toList.tail) := by
  cases span? with
  | none => exact dropLeast_perm queue
  | some span => exact replaceLeast_perm queue filled _

omit [LinearOrder ι] in
/-- The least head satisfies a test, or there is none that does not. -/
theorem exists_or_forall_least (queue : HeadQueue ι) (test : Head ι → Bool) :
    (∃ filled : 0 < queue.heads.size, test queue.heads[0]) ∨
      ∀ least ∈ queue.least?, test least = false := by
  by_cases filled : 0 < queue.heads.size
  · cases holds : test queue.heads[0] with
    | true => exact .inl ⟨filled, holds⟩
    | false =>
        right
        intro least isLeast
        obtain ⟨_, rfl⟩ := Array.getElem?_eq_some_iff.mp isLeast
        exact holds
  · right
    intro least isLeast
    obtain ⟨inside, _⟩ := Array.getElem?_eq_some_iff.mp isLeast
    exact absurd inside filled

end HeadQueue

end PositionalSearch
