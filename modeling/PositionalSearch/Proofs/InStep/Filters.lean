import PositionalSearch.Proofs.InStep.Candor
import PositionalSearch.Proofs.Order.Filters

/-!
# Nodes that leave spans out are candid

A region and an exclusion see their children on the span that they stand on,
and an exclusion sees its excluded child where the barrier is.  As long as no
child is in a later document than it was seen in, no child is asked to go
back.
-/

namespace PositionalSearch

open Attempt (Upholds)
open Cursor (Admits Candid Seen)

/-- A seek that goes forward does not go behind the current span. -/
theorem Standing.le_of_planSeek {standing : Standing} {target : DocId}
    (goes : standing.planSeek target = .ok .forward) :
    ∀ last ∈ standing.span?, last.doc ≤ target := by
  intro last isLast
  rcases planSeek_eq_forward_iff.mp goes with
    rfl | ⟨doc, rfl, _⟩ | ⟨span, rfl, before⟩
  · cases isLast
  · cases isLast
  · cases isLast
    exact UInt64.le_of_lt before

variable {σ : Type} [Cursor σ] {fit : σ → Prop}

/-! ## Meters -/

namespace Metered

/-- What is under the meter is fit. -/
def InStep (fit : σ → Prop) (node : Metered σ) : Prop := fit node.child

theorem candid (below : Candid fit) : Candid (InStep fit) where
  moves isFit move := meets_go (below.moves isFit move)
  payloads := below.payloads
  refuses isCurrent before := below.refuses isCurrent before
  closed isClosed := below.closed isClosed

end Metered

/-! ## Regions -/

namespace Region

variable {node : Region σ}

/-- The child is in no later document than the node, if the node goes on. -/
def InStep (fit : σ → Prop) (node : Region σ) : Prop :=
  node.standing.planNext = .ok true → Seen fit node.standing.span? node.child

theorem admits_settle_none (node : Region σ) :
    Admits (InStep fit) (settle none) node := by
  refine ⟨fun goes => ?_, rfl⟩
  cases goes

theorem admits_settle {span : Span} (seen : Seen fit (some span) node.child) :
    Admits (InStep fit) (settle (some span)) node :=
  ⟨fun _ => seen, rfl⟩

theorem admits_settleFrom (below : Candid fit) {node : Region σ} {span : Span}
    (seen : Seen fit (some span) node.child) :
    Admits (InStep fit) (settleFrom span) node := by
  rw [settleFrom]
  simp only [Admits, Attempt.meets_bind, Attempt.meets_look]
  split
  · exact admits_settle seen
  · have moved : (moving (if node.high < span.start then
        Cursor.nextDocument span else Cursor.nextBeyond span)).Meets node
        (fun later? reached => ∀ later ∈ later?,
          Seen fit (some later.val) reached.child)
        (fun failure _ => failure.isRefusal = false) := by
      rw [moving, Attempt.meets_within]
      split
      · exact below.meets_nextDocument seen
      · apply (below.meets_nextBeyond seen span).imp_answer
        rintro _ reached still later ⟨rfl⟩
        exact still
    simp only [Attempt.meets_bind]
    apply moved.imp_answer
    intro later? reached still
    cases later? with
    | none => exact admits_settle_none _
    | some later =>
        obtain ⟨later, beyond⟩ := later
        have := Span.room_lt_room beyond
        exact admits_settleFrom below (still _ rfl)
termination_by span.room

theorem admits_keep (below : Candid fit) {span? : Option Span}
    (seen : Seen fit span? node.child) :
    Admits (InStep fit) (keep span?) node := by
  cases span? with
  | none => exact admits_settle_none _
  | some span =>
      simp only [Admits, keep, Attempt.meets_bind, Attempt.meets_look]
      split
      · exact admits_settle_none _
      · exact admits_settleFrom below seen

theorem candid (below : Candid fit) : Candid (InStep fit) := by
  apply planned.candid
  · intro node inStep goes
    simp only [Admits, moving, Attempt.meets_bind, Attempt.meets_within]
    exact (below.meets_next (inStep goes)).imp_answer
      fun _ _ seen => admits_keep below seen
  · intro node target inStep goes
    have seen := inStep (Standing.planNext_of_planSeek goes)
    simp only [Admits, moving, Attempt.meets_bind, Attempt.meets_within]
    exact (below.meets_seek seen (Standing.le_of_planSeek goes)).imp_answer
      fun _ _ seen => admits_keep below seen
  · exact fun failed => Standing.isRefusal_requireSpan failed below.payloads
  · exact fun isClosed goes =>
      absurd goes (Standing.not_planNext_of_closed isClosed)

theorem inStep_ofCursor {low high : Position} {anchor : Anchor} {child : σ}
    (seen : Seen fit none child) :
    InStep fit (ofCursor low high anchor child) := fun _ => seen

end Region

/-! ## Exclusions -/

/-- The span that the excluded child was seen on last. -/
def Barrier.span? : Barrier → Option Span
  | .unread => none
  | .on span => some span
  | .lifted => none

namespace Without

variable {node : Without σ} {seen? : Option Span}

/-- No child is in a later document than it was seen in. -/
structure Paced (fit : σ → Prop) (seen? : Option Span) (node : Without σ) :
    Prop where
  included : Seen fit seen? node.included
  excluded : Seen fit node.barrier.span? node.excluded

/-- The children keep pace with the node, if the node goes on. -/
def InStep (fit : σ → Prop) (node : Without σ) : Prop :=
  node.standing.planNext = .ok true → Paced fit node.standing.span? node

theorem Barrier.span?_after (span? : Option Span) :
    (Barrier.after span?).span? = span? := by
  cases span? <;> rfl

theorem upholds_seekBarrier (below : Candid fit) (paced : Paced fit seen? node)
    {doc : DocId} (onward : ∀ last ∈ node.barrier.span?, last.doc ≤ doc) :
    (seekBarrier doc).Upholds (Paced fit seen?) node := by
  simp only [Upholds, seekBarrier, excluding, noteBarrier, Attempt.meets_bind,
    Attempt.meets_within, Attempt.meets_update, Attempt.meets_pure]
  apply (below.meets_seek paced.excluded onward).imp_answer
  intro span? reached seen
  exact ⟨paced.included, (Barrier.span?_after span?).symm ▸ seen⟩

theorem upholds_barrierIn (below : Candid fit) (paced : Paced fit seen? node)
    (doc : DocId) : (barrierIn doc).Upholds (Paced fit seen?) node := by
  simp only [Upholds, barrierIn, Attempt.meets_bind, Attempt.meets_look]
  cases barrier : node.barrier with
  | lifted => exact paced
  | unread =>
      have sought : (seekBarrier doc).Upholds (Paced fit seen?) node := by
        apply upholds_seekBarrier below paced
        rw [barrier]
        exact nofun
      exact sought.bind fun _ _ still => still
  | on span =>
      dsimp only
      split
      · rename_i before
        have sought : (seekBarrier doc).Upholds (Paced fit seen?) node := by
          apply upholds_seekBarrier below paced
          rw [barrier]
          rintro _ ⟨rfl⟩
          exact UInt64.le_of_lt before
        exact sought.bind fun _ _ still => still
      · exact paced

theorem upholds_passBefore (below : Candid fit) {node : Without σ}
    (paced : Paced fit seen? node) (doc : DocId) (edge : Nat) (span : Span) :
    (passBefore doc edge span).Upholds (Paced fit seen?) node := by
  rw [passBefore]
  simp only [Upholds]
  split
  · exact paced
  · simp only [excluding, noteBarrier, Attempt.meets_bind,
      Attempt.meets_within]
    apply (below.meets_nextBeyond paced.excluded span).imp_answer
    intro later? reached seen
    cases later? with
    | none => exact ⟨paced.included, seen⟩
    | some later =>
        obtain ⟨later, beyond⟩ := later
        have := Span.room_lt_room beyond
        have still : Paced fit seen? { node with
            excluded := reached
            barrier := .on later } := ⟨paced.included, seen⟩
        simp only [Attempt.meets_bind, Attempt.meets_update]
        split
        · exact upholds_passBefore below still doc edge later
        · exact still
termination_by span.room

theorem upholds_clashes (below : Candid fit) (paced : Paced fit seen? node)
    (span : Span) : (clashes span).Upholds (Paced fit seen?) node := by
  simp only [Upholds, clashes, Attempt.meets_bind, Attempt.meets_look]
  cases node.clash with
  | inDocument =>
      simp only [Attempt.meets_bind, Attempt.meets_pure]
      exact upholds_barrierIn below paced span.doc
  | overlap before behind =>
      apply (upholds_barrierIn below paced span.doc).bind
      intro first reached still
      cases first with
      | none => exact still
      | some nearest =>
          exact (upholds_passBefore below still _ _ nearest).bind
            fun _ _ still => still

theorem paced_nextCandidate (below : Candid fit) {span : Span}
    (paced : Paced fit (some span) node) :
    (nextCandidate span).Meets node
      (fun later? reached => ∀ later ∈ later?,
        Paced fit (some later.val) reached)
      (fun failure _ => failure.isRefusal = false) := by
  simp only [nextCandidate, including, Attempt.meets_bind,
    Attempt.meets_look]
  cases node.clash with
  | inDocument =>
      rw [Attempt.meets_within]
      apply (below.meets_nextDocument paced.included).imp_answer
      exact fun _ _ seen later isLater =>
        ⟨seen later isLater, paced.excluded⟩
  | overlap before behind =>
      rw [Attempt.meets_within]
      apply (below.meets_nextBeyond paced.included span).imp_answer
      rintro _ reached seen later ⟨rfl⟩
      exact ⟨seen, paced.excluded⟩

theorem admits_settle_none (node : Without σ) :
    Admits (InStep fit) (settle none) node := by
  refine ⟨fun goes => ?_, rfl⟩
  cases goes

theorem admits_settle {span : Span} (paced : Paced fit (some span) node) :
    Admits (InStep fit) (settle (some span)) node :=
  ⟨fun _ => ⟨paced.included, paced.excluded⟩, rfl⟩

theorem admits_settleFrom (below : Candid fit) {node : Without σ} {span : Span}
    (paced : Paced fit (some span) node) :
    Admits (InStep fit) (settleFrom span) node := by
  rw [settleFrom]
  simp only [Admits, Attempt.meets_bind]
  apply (upholds_clashes below paced span).imp_answer
  intro found reached still
  cases found with
  | false => exact admits_settle still
  | true =>
      simp only [↓reduceIte, Attempt.meets_bind]
      apply (paced_nextCandidate below still).imp_answer
      intro later? further pacedOn
      cases later? with
      | none => exact admits_settle_none _
      | some later =>
          obtain ⟨later, beyond⟩ := later
          have := Span.room_lt_room beyond
          exact admits_settleFrom below (pacedOn _ rfl)
termination_by span.room

theorem admits_keep (below : Candid fit) {span? : Option Span}
    (paced : Paced fit span? node) : Admits (InStep fit) (keep span?) node := by
  cases span? with
  | none => exact admits_settle_none _
  | some span => exact admits_settleFrom below paced

theorem candid (below : Candid fit) : Candid (InStep fit) := by
  apply planned.candid
  · intro node inStep goes
    have paced := inStep goes
    simp only [Admits, including, Attempt.meets_bind, Attempt.meets_within]
    exact (below.meets_next paced.included).imp_answer
      fun _ _ seen => admits_keep below ⟨seen, paced.excluded⟩
  · intro node target inStep goes
    have paced := inStep (Standing.planNext_of_planSeek goes)
    simp only [Admits, including, Attempt.meets_bind, Attempt.meets_within]
    exact (below.meets_seek paced.included
      (Standing.le_of_planSeek goes)).imp_answer
        fun _ _ seen => admits_keep below ⟨seen, paced.excluded⟩
  · exact fun failed => Standing.isRefusal_requireSpan failed below.payloads
  · exact fun isClosed goes =>
      absurd goes (Standing.not_planNext_of_closed isClosed)

theorem inStep_ofCursors {clash : Clash} {included excluded : σ}
    (seenIncluded : Seen fit none included)
    (seenExcluded : Seen fit none excluded) :
    InStep fit (ofCursors clash included excluded) :=
  fun _ => ⟨seenIncluded, seenExcluded⟩

end Without

end PositionalSearch
