import Mathlib.Data.List.Chain
import PositionalSearch.Proofs.SpanOrder
import PositionalSearch.Proximity.Arrangement

/-!
# The heads under a window

The window around the heads of some children starts with the least head and
stops with the one that stops last.  Heads in order each start where the one
before stops or later.
-/

namespace PositionalSearch

namespace Lineup

variable {size : Nat}

/-- What heads cover is the sum of their lengths, child by child. -/
theorem covered_eq_sum (heads : Vector Span size) :
    covered heads =
      ((List.finRange size).map fun child => heads[child].length).sum := by
  have summed : ∀ spans : List Span,
      sumOf Span.length spans = (spans.map Span.length).sum := by
    intro spans
    induction spans with
    | nil => rfl
    | cons first rest ih => rw [sumOf, ih, List.map_cons, List.sum_cons]
  have same : heads.toList.map Span.length =
      (List.finRange size).map fun child => heads[child].length := by
    apply List.ext_getElem
    · simp
    · intro place _ _
      simp
  rw [covered, summed, same]

theorem max_eq_ite (left right : Position) :
    max left right = if left ≤ right then right else left := rfl

theorem le_foldl_max {items : List Position} {start : Position} :
    start ≤ items.foldl max start ∧
      ∀ item ∈ items, item ≤ items.foldl max start := by
  induction items generalizing start with
  | nil => exact ⟨UInt32.le_refl _, nofun⟩
  | cons first rest ih =>
      obtain ⟨starts, others⟩ := @ih (max start first)
      rw [List.foldl_cons]
      have grows : start ≤ max start first ∧ first ≤ max start first := by
        rw [max_eq_ite]
        split <;> grind
      refine ⟨UInt32.le_trans grows.1 starts, fun item member => ?_⟩
      rcases List.mem_cons.mp member with rfl | later
      · exact UInt32.le_trans grows.2 starts
      · exact others item later

theorem foldl_max_mem (items : List Position) (start : Position) :
    items.foldl max start ∈ start :: items := by
  induction items generalizing start with
  | nil => exact List.mem_cons_self
  | cons first rest ih =>
      rw [List.foldl_cons]
      have found := ih (max start first)
      have chosen : max start first = start ∨ max start first = first := by
        rw [max_eq_ite]
        split
        · exact .inr rfl
        · exact .inl rfl
      simp only [List.mem_cons] at found ⊢
      rcases found with isMax | later
      · rw [isMax]
        exact chosen.imp_right .inl
      · exact .inr (.inr later)

/-- The window stops with the head that stops last. -/
theorem latestStop_spec (heads : Vector Span size) (filled : 0 < size) :
    (∃ child : Fin size, heads[child].stop = latestStop heads) ∧
      ∀ child : Fin size, heads[child].stop ≤ latestStop heads := by
  have below : ∀ child : Fin size, heads[child].stop ≤ latestStop heads :=
    fun child => le_foldl_max.2 _ (List.mem_map_of_mem (by simp))
  refine ⟨?_, below⟩
  have found := foldl_max_mem (heads.toList.map Span.stop) 0
  rcases List.mem_cons.mp found with isZero | later
  · refine ⟨⟨0, filled⟩, ?_⟩
    have atMost := below ⟨0, filled⟩
    have isZero : latestStop heads = 0 := isZero
    rw [isZero] at atMost ⊢
    exact UInt32.le_antisymm atMost (by simp)
  · obtain ⟨head, isHead, stops⟩ := List.mem_map.mp later
    obtain ⟨place, inside, rfl⟩ := List.mem_iff_getElem.mp isHead
    simp only [Vector.length_toList] at inside
    rw [Vector.getElem_toList] at stops
    exact ⟨⟨place, inside⟩, stops⟩

/-- A window from the start of a head on stops after it. -/
theorem exists_window (heads : Vector Span size) (child : Fin size)
    (doc : DocId) : ∃ window, Span.ofBounds? doc heads[child].start
      (latestStop heads) = some window := by
  have filled : 0 < size := Nat.lt_of_le_of_lt (Nat.zero_le _) child.isLt
  have ordered : heads[child].start ≤ latestStop heads :=
    UInt32.le_trans heads[child].start_le_stop
      ((latestStop_spec heads filled).2 child)
  exact ⟨_, dif_pos ordered⟩

/-- A fold that takes the lesser of two children ends with the least one. -/
theorem foldl_lesser_le (heads : Vector Span size) (children : List (Fin size))
    (start : Fin size) :
    heads[children.foldl (fun least child =>
        if heads[child] < heads[least] then child else least) start] ≤
      heads[start] ∧
      ∀ child ∈ children, heads[children.foldl (fun least child =>
        if heads[child] < heads[least] then child else least) start] ≤
          heads[child] := by
  induction children generalizing start with
  | nil => exact ⟨le_refl _, nofun⟩
  | cons first rest ih =>
      simp only [List.foldl_cons]
      by_cases before : heads[first] < heads[start]
      · simp only [before, ↓reduceIte]
        obtain ⟨fromFirst, others⟩ := ih first
        refine ⟨le_trans fromFirst (le_of_lt before), fun child member => ?_⟩
        rcases List.mem_cons.mp member with rfl | later
        · exact fromFirst
        · exact others child later
      · simp only [before, ↓reduceIte]
        obtain ⟨fromStart, others⟩ := ih start
        refine ⟨fromStart, fun child member => ?_⟩
        rcases List.mem_cons.mp member with rfl | later
        · exact le_trans fromStart (le_of_not_gt before)
        · exact others child later

theorem leastChild_le (heads : Vector Span size) (filled : 0 < size)
    (child : Fin size) : heads[leastChild heads filled] ≤ heads[child] :=
  (foldl_lesser_le heads (List.finRange size) ⟨0, filled⟩).2 child (by simp)

/-! ## The first head and those after it -/

theorem nodup_tail_finRange : (List.finRange size).tail.Nodup :=
  (List.nodup_finRange size).sublist (List.tail_sublist _)

theorem toList_eq_cons {α : Type} (items : Vector α size)
    (filled : 0 < size) :
    items.toList = items[(⟨0, filled⟩ : Fin size)] ::
      (List.finRange size).tail.map fun child => items[child] := by
  obtain ⟨count, rfl⟩ := Nat.exists_eq_succ_of_ne_zero (Nat.ne_of_gt filled)
  apply List.ext_getElem
  · simp
  · intro place inside _
    cases place with
    | zero => simp
    | succ place => simp [List.finRange_succ]

/-- All children but the first come after it. -/
theorem eq_or_mem_tail (filled : 0 < size) (child : Fin size) :
    child = ⟨0, filled⟩ ∨ child ∈ (List.finRange size).tail := by
  obtain ⟨count, rfl⟩ := Nat.exists_eq_succ_of_ne_zero (Nat.ne_of_gt filled)
  have member := List.mem_finRange child
  rw [List.finRange_succ] at member ⊢
  rcases List.mem_cons.mp member with isFirst | later
  · exact .inl isFirst
  · exact .inr later

end Lineup

/-! ## Heads in order -/

/-- Each span starts where its predecessor stops or later. -/
def InOrder (spans : List Span) : Prop :=
  spans.IsChain fun first second => first.stop ≤ second.start

/-- Spans in order have gaps between them. -/
theorem InOrder.exists_gaps {spans : List Span} (inOrder : InOrder spans) :
    ∃ slack, gaps? spans = some slack := by
  induction spans with
  | nil => exact ⟨0, rfl⟩
  | cons first rest ih =>
      cases rest with
      | nil => exact ⟨0, rfl⟩
      | cons second others =>
          obtain ⟨meets, tail⟩ := List.isChain_cons_cons.mp inOrder
          obtain ⟨slack, isSlack⟩ := ih tail
          exact ⟨second.start.toNat - first.stop.toNat + slack, by
            rw [gaps?, if_pos meets, isSlack]
            rfl⟩

/-- The first of some spans in order starts before the last of them stops. -/
theorem InOrder.start_le_stop {first : Span} {rest : List Span}
    (inOrder : InOrder (first :: rest)) :
    first.start ≤ ((first :: rest).getLast (List.cons_ne_nil _ _)).stop := by
  induction rest generalizing first with
  | nil => exact first.start_le_stop
  | cons second others ih =>
      obtain ⟨meets, tail⟩ := List.isChain_cons_cons.mp inOrder
      rw [List.getLast_cons (List.cons_ne_nil _ _)]
      exact UInt32.le_trans first.start_le_stop
        (UInt32.le_trans meets (ih tail))

/-- Spans in order have a span from the first to the last of them. -/
theorem InOrder.exists_bounds {size : Nat} {heads : Vector Span size}
    (inOrder : InOrder heads.toList) (filled : 0 < size) (doc : DocId) :
    ∃ span, Span.ofBounds? doc heads[0].start
      heads[lastPlace filled].stop = some span := by
  have ordered : heads[0].start ≤ heads[lastPlace filled].stop := by
    cases isList : heads.toList with
    | nil =>
        have length := heads.length_toList
        rw [isList] at length
        exact absurd length (Nat.ne_of_lt filled)
    | cons first rest =>
        rw [isList] at inOrder
        have least := inOrder.start_le_stop
        have isFirst : heads[0] = first := by
          rw [← Vector.getElem_toList (by simpa using filled)]
          simp only [isList, List.getElem_cons_zero]
        have isLast : heads[lastPlace filled] =
            (first :: rest).getLast (List.cons_ne_nil _ _) := by
          rw [List.getLast_eq_getElem, getElem_place,
            ← Vector.getElem_toList (by simp)]
          have length := heads.length_toList
          simp only [isList, lastPlace] at length ⊢
          congr 1
          omega
        rw [isFirst, isLast]
        exact least
  exact ⟨_, dif_pos ordered⟩

end PositionalSearch
