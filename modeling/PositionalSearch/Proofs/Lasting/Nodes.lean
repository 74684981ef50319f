import PositionalSearch.Proofs.Lasting.Basic
import PositionalSearch.Proofs.Order.Filters
import PositionalSearch.Proofs.Order.Lineup
import PositionalSearch.Proofs.Order.Union

/-!
# What lasts for the children of filters and unions

A filter moves its children one after the other and a union moves the children
of its least heads.  Whatever moves leave standing of a child is left standing
by the node, also when a move of the node stops halfway.
-/

namespace PositionalSearch

open Attempt (Sustains sustains_look_bind sustains_pure sustains_within)
open Cursor (Lasting Concludes concludes_bind concludes_look_bind)

variable {σ : Type} [Cursor σ] {spared : Failure → Prop}

/-! ## Meters -/

/-- What lasts for a child lasts under a meter. -/
theorem Metered.lasting {holds : σ → Prop} (below : Lasting spared holds) :
    Lasting spared fun node : Metered σ => holds node.child :=
  fun _ held move => meets_go (below held move)

/-! ## Regions -/

namespace Region

variable {holds : σ → Prop} {stood : Standing} {node : Region σ}

/-- The child is as it should be, and the node stands where it should. -/
structure Held (holds : σ → Prop) (standing : Standing) (node : Region σ) :
    Prop where
  child : holds node.child
  stands : node.standing = standing

omit [Cursor σ] in
theorem concludes_settle (held : Held holds stood node) (span? : Option Span) :
    Concludes spared (Held holds) stood (settle span?) node :=
  ⟨held.child, rfl⟩

omit [Cursor σ] in
theorem sustains_moving {α : Type} {step : Attempt Failure σ α}
    (held : Held holds stood node)
    (sustains : step.Sustains spared holds node.child) :
    (moving step).Sustains spared (Held holds stood) node :=
  sustains_within sustains fun _ child => ⟨child, held.stands⟩

theorem concludes_settleFrom (below : Lasting spared holds) {node : Region σ}
    (held : Held holds stood node) (span : Span) :
    Concludes spared (Held holds) stood (settleFrom span) node := by
  rw [settleFrom]
  apply concludes_look_bind
  split
  · exact concludes_settle held (some span)
  · refine concludes_bind (sustains_moving held ?_) ?_
    · split
      · exact below.nextDocument held.child span
      · exact below.nextBeyond held.child span
    · intro later? reached heldOn
      cases later? with
      | none => exact concludes_settle heldOn none
      | some later =>
          obtain ⟨later, beyond⟩ := later
          have := Span.room_lt_room beyond
          exact concludes_settleFrom below heldOn later
termination_by span.room

theorem concludes_keep (below : Lasting spared holds)
    (held : Held holds stood node) (span? : Option Span) :
    Concludes spared (Held holds) stood (keep span?) node := by
  cases span? with
  | none => exact concludes_settle held none
  | some span =>
      apply concludes_look_bind
      split
      · exact concludes_settle held none
      · exact concludes_settleFrom below held span

/-- A region concludes with its child as it should be. -/
theorem concludes_go (below : Lasting spared holds) (child : holds node.child)
    (move : Move) :
    Concludes spared (Held holds) node.standing (Cursor.go move) node := by
  have here : Held holds node.standing node := ⟨child, rfl⟩
  refine planned.concludes here ?_ (fun target => ?_) move
  · exact concludes_bind (sustains_moving here (below.next child))
      fun span? _ heldOn => concludes_keep below heldOn span?
  · exact concludes_bind (sustains_moving here (below.seek child target))
      fun span? _ heldOn => concludes_keep below heldOn span?

end Region

/-! ## Exclusions -/

namespace Without

variable {included excluded : σ → Prop} {stood : Standing} {node : Without σ}

/-- Both children are as they should be, and the node stands where it should. -/
structure Held (included excluded : σ → Prop) (standing : Standing)
    (node : Without σ) : Prop where
  included : included node.included
  excluded : excluded node.excluded
  stands : node.standing = standing

omit [Cursor σ] in
theorem concludes_settle (held : Held included excluded stood node)
    (span? : Option Span) :
    Concludes spared (Held included excluded) stood (settle span?) node :=
  ⟨held.included, held.excluded, rfl⟩

section

variable {α : Type} {step : Attempt Failure σ α}
  (held : Held included excluded stood node)
include held

omit [Cursor σ] in
theorem sustains_including
    (sustains : step.Sustains spared included node.included) :
    (including step).Sustains spared (Held included excluded stood) node :=
  sustains_within sustains fun _ child => ⟨child, held.excluded, held.stands⟩

omit [Cursor σ] in
theorem sustains_excluding
    (sustains : step.Sustains spared excluded node.excluded) :
    (excluding step).Sustains spared (Held included excluded stood) node :=
  sustains_within sustains fun _ child => ⟨held.included, child, held.stands⟩

omit [Cursor σ] in
theorem sustains_noteBarrier (span? : Option Span) :
    (noteBarrier span?).Sustains spared (Held included excluded stood) node :=
  ⟨held.included, held.excluded, held.stands⟩

end

theorem sustains_seekBarrier (below : Lasting spared excluded)
    (held : Held included excluded stood node) (doc : DocId) :
    (seekBarrier doc).Sustains spared (Held included excluded stood) node := by
  refine (sustains_excluding held (below.seek held.excluded doc)).bind ?_
  intro span? _ heldOn
  refine (sustains_noteBarrier heldOn span?).bind ?_
  exact fun _ _ heldLast => sustains_pure heldLast span?

theorem sustains_barrierIn (below : Lasting spared excluded)
    (held : Held included excluded stood node) (doc : DocId) :
    (barrierIn doc).Sustains spared (Held included excluded stood) node := by
  have sought := (sustains_seekBarrier below held doc).bind
    fun span? _ heldOn =>
      sustains_pure heldOn (span?.filter fun span => span.doc = doc)
  apply sustains_look_bind
  cases node.barrier with
  | lifted => exact sustains_pure held _
  | unread => exact sought
  | on span =>
      dsimp only
      split
      · exact sought
      · exact sustains_pure held _

theorem sustains_passBefore (below : Lasting spared excluded)
    {node : Without σ} (held : Held included excluded stood node)
    (doc : DocId) (edge : Nat) (span : Span) :
    (passBefore doc edge span).Sustains spared (Held included excluded stood)
      node := by
  rw [passBefore]
  split
  · exact sustains_pure held (some span)
  · refine (sustains_excluding held
      (below.nextBeyond held.excluded span)).bind ?_
    intro later? middle heldOn
    cases later? with
    | none =>
        refine (sustains_noteBarrier heldOn none).bind ?_
        exact fun _ _ heldLast => sustains_pure heldLast none
    | some later =>
        obtain ⟨later, beyond⟩ := later
        have := Span.room_lt_room beyond
        refine (sustains_noteBarrier heldOn (some later)).bind ?_
        intro _ reached heldLast
        split
        · exact sustains_passBefore below heldLast doc edge later
        · exact sustains_pure heldLast none
termination_by span.room

theorem sustains_clashes (below : Lasting spared excluded)
    (held : Held included excluded stood node) (span : Span) :
    (clashes span).Sustains spared (Held included excluded stood) node := by
  apply sustains_look_bind
  cases node.clash with
  | inDocument =>
      exact (sustains_barrierIn below held span.doc).bind
        fun found _ heldOn => sustains_pure heldOn found.isSome
  | overlap before behind =>
      refine (sustains_barrierIn below held span.doc).bind ?_
      intro first _ heldOn
      cases first with
      | none => exact sustains_pure heldOn false
      | some nearest =>
          exact (sustains_passBefore below heldOn _ _ nearest).bind
            fun _ _ heldLast => sustains_pure heldLast _

theorem sustains_nextCandidate (below : Lasting spared included)
    (held : Held included excluded stood node) (span : Span) :
    (nextCandidate span).Sustains spared (Held included excluded stood)
      node := by
  apply sustains_look_bind
  cases node.clash with
  | inDocument =>
      exact sustains_including held (below.nextDocument held.included span)
  | overlap _ _ =>
      exact sustains_including held (below.nextBeyond held.included span)

theorem concludes_settleFrom (ofIncluded : Lasting spared included)
    (ofExcluded : Lasting spared excluded) {node : Without σ}
    (held : Held included excluded stood node) (span : Span) :
    Concludes spared (Held included excluded) stood (settleFrom span) node := by
  rw [settleFrom]
  refine concludes_bind (sustains_clashes ofExcluded held span) ?_
  intro clashes middle heldOn
  split
  · refine concludes_bind (sustains_nextCandidate ofIncluded heldOn span) ?_
    intro later? reached heldLast
    cases later? with
    | none => exact concludes_settle heldLast none
    | some later =>
        obtain ⟨later, beyond⟩ := later
        have := Span.room_lt_room beyond
        exact concludes_settleFrom ofIncluded ofExcluded heldLast later
  · exact concludes_settle heldOn (some span)
termination_by span.room

theorem concludes_keep (ofIncluded : Lasting spared included)
    (ofExcluded : Lasting spared excluded)
    (held : Held included excluded stood node) (span? : Option Span) :
    Concludes spared (Held included excluded) stood (keep span?) node := by
  cases span? with
  | none => exact concludes_settle held none
  | some span => exact concludes_settleFrom ofIncluded ofExcluded held span

/-- An exclusion concludes with both children as they should be. -/
theorem concludes_go (ofIncluded : Lasting spared included)
    (ofExcluded : Lasting spared excluded)
    (held : Held included excluded node.standing node) (move : Move) :
    Concludes spared (Held included excluded) node.standing (Cursor.go move)
      node := by
  refine planned.concludes held ?_ (fun target => ?_) move
  · exact concludes_bind
      (sustains_including held (ofIncluded.next held.included))
      fun span? _ heldOn => concludes_keep ofIncluded ofExcluded heldOn span?
  · exact concludes_bind
      (sustains_including held (ofIncluded.seek held.included target))
      fun span? _ heldOn => concludes_keep ofIncluded ofExcluded heldOn span?

end Without

/-! ## Unions -/

/-- Each of several children is as it should be, in its own way. -/
def Each {size : Nat} (holds : Fin size → σ → Prop) (cursors : Vector σ size) :
    Prop :=
  ∀ child : Fin size, holds child cursors[child]

omit [Cursor σ] in
theorem Each.set {size : Nat} {holds : Fin size → σ → Prop}
    {cursors : Vector σ size} (each : Each holds cursors) {child : Fin size}
    {cursor : σ} (placed : holds child cursor) :
    Each holds (cursors.set child cursor child.isLt) := by
  intro other
  rw [Lineup.getElem_set_fin]
  split
  · rename_i same
    exact same ▸ placed
  · exact each other

omit [Cursor σ] in
/-- What every cursor holds, the changed ones hold if the change keeps it. -/
theorem Each.map {size : Nat} {holds : σ → Prop} {change : σ → σ}
    {cursors : Vector σ size} (each : Each (fun _ => holds) cursors)
    (keeps : ∀ cursor : σ, holds cursor → holds (change cursor)) :
    Each (fun _ => holds) (cursors.map change) := by
  intro child
  simpa using keeps _ (each child)

omit [Cursor σ] in
theorem Each.forall_mem {size : Nat} {holds : σ → Prop}
    {cursors : Vector σ size} (each : Each (fun _ => holds) cursors) :
    ∀ cursor ∈ cursors.toList, holds cursor := by
  intro cursor member
  obtain ⟨place, inside, rfl⟩ := List.getElem_of_mem member
  simpa using each ⟨place, by simpa using inside⟩

namespace Union

variable {size : Nat} {holds : Fin size → σ → Prop} {estimate : Nat}
  {stood : Standing} {node : Union σ size}

/-- The node stands where it should, its estimate unchanged. -/
structure Held (holds : Fin size → σ → Prop) (estimate : Nat)
    (standing : Standing) (node : Union σ size) : Prop where
  children : Each holds node.children
  estimate : node.estimate = estimate
  stands : node.standing = standing

omit [Cursor σ] in
/-- One child is put in its place, whatever becomes of the heads. -/
theorem Held.keep (held : Held holds estimate stood node) {child : Fin size}
    {cursor : σ} (placed : holds child cursor) (queue : HeadQueue (Fin size))
    (entered : Nat) :
    Held holds estimate stood { node.keep child cursor with
      queue := queue
      entered := entered } :=
  ⟨held.children.set placed, held.estimate, held.stands⟩

omit [Cursor σ] in
theorem concludes_settle (held : Held holds estimate stood node) :
    Concludes spared (Held holds estimate) stood settle node :=
  ⟨held.children, held.estimate, rfl⟩

variable (below : ∀ child, Lasting spared (holds child))
include below

theorem sustains_enterRest {node : Union σ size}
    (held : Held holds estimate stood node) (target? : Option DocId) :
    (enterRest target?).Sustains spared (Held holds estimate stood) node := by
  unfold Sustains
  by_cases inside : node.entered < size
  · rw [meets_enterRest_of_lt inside]
    apply ((below _).enter (held.children ⟨node.entered, inside⟩) target?).mono
    · intro span? cursor placed
      exact sustains_enterRest (held.keep placed _ _) target?
    · intro failure cursor placed isSpared
      exact held.keep (placed isSpared) node.queue node.entered
  · rw [meets_enterRest_of_le (Nat.not_lt.mp inside)]
    exact held
termination_by size - node.entered

omit [Cursor σ] below in
/-- Children that lag are moved by steps that leave them as they should be. -/
theorem sustains_moveLagging {lags : Span → Bool}
    {step : Attempt Failure σ (Option Span)}
    (steps : ∀ (child : Fin size) {cursor : σ}, holds child cursor →
      step.Sustains spared (holds child) cursor)
    (held : Held holds estimate stood node) (moves : Nat) :
    (moveLagging lags step moves).Sustains spared (Held holds estimate stood)
      node := by
  unfold Sustains
  induction moves generalizing node with
  | zero =>
      cases behind : node.queue.least?.any fun head => lags head.span with
      | true =>
          refine (Attempt.meets_of_error (show moveLagging lags step 0 node =
            (.error (.breach .backwardMove), node) by
              simp only [moveLagging, behind, ↓reduceIte])).mpr ?_
          exact fun _ => held
      | false =>
          refine (Attempt.meets_of_ok (show moveLagging lags step 0 node =
            (.ok (), node) by
              simp only [moveLagging, behind, Bool.false_eq_true,
                ↓reduceIte])).mpr ?_
          exact held
  | succ moves ih =>
      rcases node.queue.exists_or_forall_least (lags ·.span) with
        ⟨filled, lagging⟩ | settled
      · rw [meets_moveLagging_succ filled lagging]
        apply (steps _ (held.children _)).mono
        · intro span? cursor placed
          exact ih (held.keep placed _ node.entered)
        · intro failure cursor placed isSpared
          exact held.keep (placed isSpared) node.queue node.entered
      · rw [meets_moveLagging_of_settled settled]
        exact held

theorem sustains_movePast (held : Held holds estimate stood node)
    (span : Span) :
    (movePast span).Sustains spared (Held holds estimate stood) node := by
  apply sustains_look_bind
  exact sustains_moveLagging (fun child _ placed =>
    (below child).next placed) held _

theorem sustains_seekLagging (held : Held holds estimate stood node)
    (target : DocId) :
    (seekLagging target).Sustains spared (Held holds estimate stood) node := by
  apply sustains_look_bind
  exact sustains_moveLagging (fun child _ placed =>
    (below child).seek placed target) held _

/-- A union concludes with its children as they should be. -/
theorem concludes_go (held : Held holds estimate node.standing node)
    (move : Move) :
    Concludes spared (Held holds estimate) node.standing (Cursor.go move)
      node := by
  refine planned.concludes held ?_ (fun target => ?_) move
  · apply concludes_look_bind
    split
    · exact concludes_bind (sustains_enterRest below held none)
        fun _ _ heldOn => concludes_settle heldOn
    · cases node.standing.span? with
      | none => exact concludes_settle held
      | some span =>
          exact concludes_bind (sustains_movePast below held span)
            fun _ _ heldOn => concludes_settle heldOn
  · refine concludes_bind (sustains_enterRest below held (some target)) ?_
    intro _ _ heldOn
    exact concludes_bind (sustains_seekLagging below heldOn target)
      fun _ _ heldLast => concludes_settle heldLast

end Union

end PositionalSearch
