import PositionalSearch.Proofs.Exact.Basic
import PositionalSearch.Proofs.InStep.Filters

/-!
# Nodes that leave spans out are exact

A region and the included child of an exclusion stand on one span; the
excluded child stands where the barrier is, until it ends and the barrier is
lifted.
-/

namespace PositionalSearch

open Cursor (Arrives Guided Left Stands Reliable)

variable {σ : Type} [Cursor σ] {fit : σ → Prop}

/-! ## Meters -/

/-- What arrives does so under a meter. -/
theorem Metered.arrives {node : Metered σ} {move : Move}
    (arrives : Arrives fit (Cursor.go move) node.child) :
    Arrives (fun node : Metered σ => fit node.child) (Cursor.go move) node :=
  meets_go arrives

/-! ## Regions -/

namespace Region

variable {node : Region σ}

/-- The child stands where the node does, if the node goes on. -/
structure Exact (fit : σ → Prop) (node : Region σ) : Prop where
  child : fit node.child
  stands : node.standing.planNext = .ok true →
    Stands fit node.standing.span? node.child

theorem arrives_settle_none (isFit : fit node.child) :
    Arrives (Exact fit) (settle none) node := ⟨⟨isFit, nofun⟩, rfl⟩

theorem arrives_settle {span : Span}
    (stands : Stands fit (some span) node.child) :
    Arrives (Exact fit) (settle (some span)) node :=
  ⟨⟨stands.fit, fun _ => stands⟩, rfl⟩

theorem arrives_settleFrom (guided : Guided fit) {node : Region σ}
    {span : Span} (stands : Stands fit (some span) node.child) :
    Arrives (Exact fit) (settleFrom span) node := by
  rw [settleFrom]
  simp only [Arrives, Attempt.meets_bind, Attempt.meets_look]
  split
  · exact arrives_settle stands
  · have moved : (moving (if node.high < span.start then
        Cursor.nextDocument span else Cursor.nextBeyond span)).Meets node
        (fun later? reached =>
          Left fit (later?.map Subtype.val) reached.child)
        fun _ _ => True := by
      rw [moving, Attempt.meets_within]
      split
      · exact guided.meets_nextDocument stands
      · exact guided.meets_nextBeyond stands span
    simp only [Attempt.meets_bind]
    apply moved.imp_answer
    intro later? reached left
    cases later? with
    | none => exact arrives_settle_none left.fit
    | some later =>
        obtain ⟨later, beyond⟩ := later
        have := Span.room_lt_room beyond
        exact arrives_settleFrom guided left.stands
termination_by span.room

theorem arrives_keep (guided : Guided fit) {span? : Option Span}
    (left : Left fit span? node.child) :
    Arrives (Exact fit) (keep span?) node := by
  cases span? with
  | none => exact arrives_settle_none left.fit
  | some span =>
      simp only [Arrives, keep, Attempt.meets_bind, Attempt.meets_look]
      split
      · exact arrives_settle_none left.fit
      · exact arrives_settleFrom guided left.stands

theorem reliable (guided : Guided fit) : Reliable (Exact fit) := by
  apply planned.reliable
  · intro node exact goes
    simp only [Arrives, moving, Attempt.meets_bind, Attempt.meets_within]
    exact (guided.meets_next (exact.stands goes)).imp_answer
      fun _ _ left => arrives_keep guided left
  · intro node target exact goes
    have stands := exact.stands (Standing.planNext_of_planSeek goes)
    simp only [Arrives, moving, Attempt.meets_bind, Attempt.meets_within]
    exact (guided.meets_seek stands (Standing.le_of_planSeek goes)).imp_answer
      fun _ _ left => arrives_keep guided left

theorem exact_ofCursor {low high : Position} {anchor : Anchor} {child : σ}
    (stands : Stands fit none child) :
    Exact fit (ofCursor low high anchor child) :=
  ⟨stands.fit, fun _ => stands⟩

theorem Exact.closed (exact : Exact fit node)
    (closes : ∀ cursor : σ, fit cursor → fit (Cursor.close cursor)) :
    Exact fit (Cursor.close node) := by
  simp only [Cursor.close]
  split
  · exact exact
  · exact ⟨closes _ exact.child, nofun⟩

/-- On a span of the node the child stands on the same span. -/
theorem Exact.standing_child (exact : Exact fit node) {span : Span}
    (isOn : node.standing = .on span) :
    Cursor.standing node.child = .on span := by
  have stands := exact.stands (by rw [isOn]; rfl)
  rw [isOn] at stands
  exact stands.there

end Region

/-! ## Exclusions -/

namespace Without

variable {node : Without σ} {seen? : Option Span}

/-- Both children stand where the node saw them, unless the second one ended. -/
structure Placed (fit : σ → Prop) (seen? : Option Span) (node : Without σ) :
    Prop where
  included : Stands fit seen? node.included
  excluded : fit node.excluded
  behind : node.barrier ≠ .lifted →
    Stands fit node.barrier.span? node.excluded

/-- The children stand where the node saw them, if the node goes on. -/
structure Exact (fit : σ → Prop) (node : Without σ) : Prop where
  included : fit node.included
  excluded : fit node.excluded
  placed : node.standing.planNext = .ok true →
    Placed fit node.standing.span? node

/-- The excluded child was moved from where it was seen. -/
theorem Placed.noted (placed : Placed fit seen? node) {child : σ}
    {span? : Option Span} (left : Left fit span? child) :
    Placed fit seen?
      { node with excluded := child, barrier := .after span? } := by
  refine ⟨placed.included, left.fit, fun notLifted => ?_⟩
  cases span? with
  | none => exact absurd rfl notLifted
  | some span => exact left.stands

/-- A span found in the document is the one that the barrier is on. -/
theorem guided_barrierIn (guided : Guided fit) (placed : Placed fit seen? node)
    (doc : DocId) :
    (barrierIn doc).Meets node
      (fun span? reached => Placed fit seen? reached ∧
        ∀ span ∈ span?, reached.barrier = .on span)
      fun _ _ => True := by
  have sought : node.barrier ≠ .lifted →
      (∀ last ∈ node.barrier.span?, last.doc ≤ doc) →
      (do
        let span? ← seekBarrier doc
        pure (span?.filter fun span => span.doc = doc) :
          Attempt Failure (Without σ) _).Meets node
        (fun span? reached => Placed fit seen? reached ∧
          ∀ span ∈ span?, reached.barrier = .on span)
        fun _ _ => True := by
    intro notLifted onward
    simp only [seekBarrier, excluding, noteBarrier, Attempt.meets_bind,
      Attempt.meets_within, Attempt.meets_update, Attempt.meets_pure]
    apply (guided.meets_seek (placed.behind notLifted) onward).imp_answer
    intro span? child left
    refine ⟨placed.noted left, fun span isSpan => ?_⟩
    obtain ⟨rfl, _⟩ := Option.mem_filter_iff.mp isSpan
    rfl
  simp only [barrierIn, Attempt.meets_bind, Attempt.meets_look]
  cases barrier : node.barrier with
  | lifted => exact ⟨placed, by rintro _ ⟨⟩⟩
  | unread =>
      rw [barrier] at sought
      exact sought (by rintro ⟨⟩) (by rintro _ ⟨⟩)
  | on span =>
      dsimp only
      split
      · rename_i before
        rw [barrier] at sought
        refine sought (by rintro ⟨⟩) ?_
        rintro _ ⟨rfl⟩
        exact UInt64.le_of_lt before
      · refine ⟨placed, fun found isFound => ?_⟩
        obtain ⟨⟨rfl⟩, _⟩ := Option.mem_filter_iff.mp isFound
        exact barrier

theorem guided_passBefore (guided : Guided fit) {node : Without σ}
    (placed : Placed fit seen? node) (doc : DocId) (edge : Nat) {span : Span}
    (isOn : node.barrier = .on span) :
    (passBefore doc edge span).Meets node (fun _ => Placed fit seen?)
      fun _ _ => True := by
  have stands : Stands fit (some span) node.excluded := by
    have behind := placed.behind (by rw [isOn]; rintro ⟨⟩)
    rw [isOn] at behind
    exact behind
  rw [passBefore]
  split
  · exact placed
  · simp only [excluding, noteBarrier, Attempt.meets_bind,
      Attempt.meets_within]
    apply (guided.meets_nextBeyond stands span).imp_answer
    intro later? child left
    cases later? with
    | none => exact placed.noted left
    | some later =>
        obtain ⟨later, beyond⟩ := later
        have := Span.room_lt_room beyond
        simp only [Attempt.meets_bind, Attempt.meets_update]
        split
        · exact guided_passBefore guided (placed.noted left) doc edge rfl
        · exact placed.noted left
termination_by span.room

theorem guided_clashes (guided : Guided fit) (placed : Placed fit seen? node)
    (span : Span) :
    (clashes span).Meets node (fun _ => Placed fit seen?)
      fun _ _ => True := by
  have barred := guided_barrierIn guided placed span.doc
  simp only [clashes, Attempt.meets_bind, Attempt.meets_look]
  cases node.clash with
  | inDocument =>
      simp only [Attempt.meets_bind, Attempt.meets_pure]
      exact barred.imp_answer fun _ _ still => still.1
  | overlap before behind =>
      simp only [Attempt.meets_bind]
      apply barred.imp_answer
      rintro first reached ⟨still, isOn⟩
      cases first with
      | none => exact still
      | some nearest =>
          refine Attempt.meets_bind.mpr ?_
          exact (guided_passBefore guided still _ _
            (isOn nearest rfl)).imp_answer fun _ _ placedOn => placedOn

theorem guided_nextCandidate (guided : Guided fit) {span : Span}
    (placed : Placed fit (some span) node) :
    (nextCandidate span).Meets node
      (fun later? reached => fit reached.included ∧ fit reached.excluded ∧
        ∀ later ∈ later?, Placed fit (some later.val) reached)
      fun _ _ => True := by
  have goesOn : ∀ {later? : Option { later : Span // span < later }}
      {child : σ}, Left fit (later?.map Subtype.val) child →
        fit child ∧ fit node.excluded ∧ ∀ later ∈ later?,
          Placed fit (some later.val) { node with included := child } := by
    intro later? child left
    refine ⟨left.fit, placed.excluded, ?_⟩
    rintro later ⟨rfl⟩
    exact ⟨left.stands, placed.excluded, placed.behind⟩
  simp only [nextCandidate, including, Attempt.meets_bind,
    Attempt.meets_look]
  cases node.clash with
  | inDocument =>
      rw [Attempt.meets_within]
      exact (guided.meets_nextDocument placed.included).imp_answer
        fun _ _ left => goesOn left
  | overlap before behind =>
      rw [Attempt.meets_within]
      exact (guided.meets_nextBeyond placed.included span).imp_answer
        fun _ _ left => goesOn left

theorem arrives_settle_none (ofIncluded : fit node.included)
    (ofExcluded : fit node.excluded) :
    Arrives (Exact fit) (settle none) node :=
  ⟨⟨ofIncluded, ofExcluded, nofun⟩, rfl⟩

theorem arrives_settle {span : Span} (placed : Placed fit (some span) node) :
    Arrives (Exact fit) (settle (some span)) node :=
  ⟨⟨placed.included.fit, placed.excluded,
    fun _ => ⟨placed.included, placed.excluded, placed.behind⟩⟩, rfl⟩

theorem arrives_settleFrom (guided : Guided fit) {node : Without σ}
    {span : Span} (placed : Placed fit (some span) node) :
    Arrives (Exact fit) (settleFrom span) node := by
  rw [settleFrom]
  simp only [Arrives, Attempt.meets_bind]
  apply (guided_clashes guided placed span).imp_answer
  intro found reached still
  cases found with
  | false => exact arrives_settle still
  | true =>
      simp only [↓reduceIte, Attempt.meets_bind]
      apply (guided_nextCandidate guided still).imp_answer
      rintro later? further ⟨ofIncluded, ofExcluded, placedOn⟩
      cases later? with
      | none => exact arrives_settle_none ofIncluded ofExcluded
      | some later =>
          obtain ⟨later, beyond⟩ := later
          have := Span.room_lt_room beyond
          exact arrives_settleFrom guided (placedOn _ rfl)
termination_by span.room

/-- The node keeps to what its included child was just moved to. -/
theorem arrives_keep (guided : Guided fit) (placed : Placed fit seen? node)
    {span? : Option Span} {child : σ} (left : Left fit span? child) :
    Arrives (Exact fit) (keep span?) { node with included := child } := by
  cases span? with
  | none => exact arrives_settle_none left.fit placed.excluded
  | some span =>
      exact arrives_settleFrom guided
        ⟨left.stands, placed.excluded, placed.behind⟩

theorem reliable (guided : Guided fit) : Reliable (Exact fit) := by
  apply planned.reliable
  · intro node exact goes
    have placed := exact.placed goes
    simp only [Arrives, including, Attempt.meets_bind, Attempt.meets_within]
    exact (guided.meets_next placed.included).imp_answer
      fun _ _ left => arrives_keep guided placed left
  · intro node target exact goes
    have placed := exact.placed (Standing.planNext_of_planSeek goes)
    simp only [Arrives, including, Attempt.meets_bind, Attempt.meets_within]
    exact (guided.meets_seek placed.included
      (Standing.le_of_planSeek goes)).imp_answer
        fun _ _ left => arrives_keep guided placed left

theorem exact_ofCursors {clash : Clash} {included excluded : σ}
    (ofIncluded : Stands fit none included)
    (ofExcluded : Stands fit none excluded) :
    Exact fit (ofCursors clash included excluded) :=
  ⟨ofIncluded.fit, ofExcluded.fit,
    fun _ => ⟨ofIncluded, ofExcluded.fit, fun _ => ofExcluded⟩⟩

theorem Exact.closed (exact : Exact fit node)
    (closes : ∀ cursor : σ, fit cursor → fit (Cursor.close cursor)) :
    Exact fit (Cursor.close node) := by
  simp only [Cursor.close]
  split
  · exact exact
  · exact ⟨closes _ exact.included, closes _ exact.excluded, nofun⟩

/-- On a span of the node the included child stands on the same span. -/
theorem Exact.standing_included (exact : Exact fit node) {span : Span}
    (isOn : node.standing = .on span) :
    Cursor.standing node.included = .on span := by
  have placed := exact.placed (by rw [isOn]; rfl)
  rw [isOn] at placed
  exact placed.included.there

end Without

end PositionalSearch
