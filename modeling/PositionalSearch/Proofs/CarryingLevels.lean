import PositionalSearch.Proofs.Carrying
import PositionalSearch.Proofs.Levels
import PositionalSearch.Proofs.Order.Filters
import PositionalSearch.Proofs.Order.Union
import PositionalSearch.Proofs.Planned

/-!
# Levels over carried cursors

No node sees more of its children than how they move and stand, their payloads
and their estimates.  So below any level cursors can be exchanged for others
that carry them.
-/

namespace PositionalSearch

open Attempt (Along along_pure along_bind along_look_bind along_ofExcept
  along_update along_within)
open Cursor (Carries Planned)

/-! ## Carried moves -/

namespace Cursor

variable {σ τ : Type} [Cursor σ] [Cursor τ] {wrap : σ → τ}

/-- What carries one cursor to another carries what is carried by the first. -/
theorem Carries.comp {υ : Type} [Cursor υ] {further : τ → υ}
    (outer : Carries further) (inner : Carries wrap) :
    Carries fun cursor => further (wrap cursor) where
  go_eq cursor move := by rw [outer.go_eq, inner.go_eq]
  standing_eq cursor := (outer.standing_eq _).trans (inner.standing_eq cursor)
  payloads_eq cursor := (outer.payloads_eq _).trans (inner.payloads_eq cursor)
  estimate_eq cursor := (outer.estimate_eq _).trans (inner.estimate_eq cursor)

theorem Carries.along_enter (carries : Carries wrap) (target? : Option DocId)
    (cursor : σ) : Along wrap (enter target?) (enter target?) cursor := by
  cases target? with
  | none => exact carries.go_eq cursor .next
  | some target => exact carries.go_eq cursor (.seek target)

theorem Carries.along_nextBeyond (carries : Carries wrap) (span : Span)
    (cursor : σ) : Along wrap (nextBeyond span) (nextBeyond span) cursor :=
  along_bind (carries.go_eq cursor .next) fun span? reached _ =>
    Lineup.along_demandBeyond span span? reached

theorem Carries.along_nextDocument (carries : Carries wrap) (span : Span)
    (cursor : σ) :
    Along wrap (nextDocument span) (nextDocument span) cursor := by
  unfold nextDocument
  cases span.doc.after? with
  | none => exact along_pure _ cursor
  | some target =>
      exact along_bind (carries.go_eq cursor (.seek target))
        fun span? reached _ => Lineup.along_demandBeyond span span? reached

/-- A cursor in another one that carries it, exchanged for what carries it. -/
inductive Covered (wrap : σ → τ) : σ → Prop
  | intro {υ : Type} [Cursor υ] {inner : υ → σ} (ofInner : Carries inner)
      (ofBoth : Carries fun cursor => wrap (inner cursor)) (cursor : υ) :
      Covered wrap (inner cursor)

theorem Carries.of_covered (covered : ∀ cursor : σ, Covered wrap cursor) :
    Carries wrap where
  go_eq cursor move := by
    obtain ⟨ofInner, ofBoth, cursor⟩ := covered cursor
    rw [ofBoth.go_eq, ofInner.go_eq]
  standing_eq cursor := by
    obtain ⟨ofInner, ofBoth, cursor⟩ := covered cursor
    rw [ofBoth.standing_eq, ofInner.standing_eq]
  payloads_eq cursor := by
    obtain ⟨ofInner, ofBoth, cursor⟩ := covered cursor
    rw [ofBoth.payloads_eq, ofInner.payloads_eq]
  estimate_eq cursor := by
    obtain ⟨ofInner, ofBoth, cursor⟩ := covered cursor
    rw [ofBoth.estimate_eq, ofInner.estimate_eq]

/-- Planned cursors move alongside if they go on and forward alongside. -/
theorem Planned.along_go {onward : Attempt Failure σ (Option Span)}
    {forward : DocId → Attempt Failure σ (Option Span)}
    {onwardCarried : Attempt Failure τ (Option Span)}
    {forwardCarried : DocId → Attempt Failure τ (Option Span)}
    (planned : Planned onward forward)
    (plannedCarried : Planned onwardCarried forwardCarried)
    (standing_eq : ∀ cursor : σ, standing (wrap cursor) = standing cursor)
    (goesOn : ∀ cursor, Along wrap onward onwardCarried cursor)
    (goesForward : ∀ target cursor,
      Along wrap (forward target) (forwardCarried target) cursor)
    (cursor : σ) (move : Move) : Along wrap (go move) (go move) cursor := by
  have next (cursor : σ) : Along wrap next next cursor := by
    rw [planned.next_eq, plannedCarried.next_eq]
    refine along_look_bind ?_
    rw [standing_eq]
    refine along_bind (along_ofExcept _ cursor) ?_
    rintro (_ | _) same _
    · exact along_pure _ same
    · exact goesOn same
  cases move with
  | next => exact next cursor
  | seek target =>
      change Along wrap (seek target) (seek target) cursor
      rw [planned.seek_eq, plannedCarried.seek_eq]
      refine along_look_bind ?_
      rw [standing_eq]
      refine along_bind (along_ofExcept _ cursor) ?_
      rintro (_ | _ | _) same _
      · exact along_pure _ same
      · exact next same
      · exact goesForward target same

end Cursor

variable {σ τ : Type}

/-! ## Meters -/

namespace Metered

/-- Exchange the child. -/
def carry (wrap : σ → τ) (node : Metered σ) : Metered τ :=
  ⟨node.name, node.reading, wrap node.child⟩

variable [Cursor σ] [Cursor τ] {wrap : σ → τ}

theorem carries (carries : Carries wrap) :
    Carries (carry wrap : Metered σ → Metered τ) where
  go_eq node move := by
    simp only [go_eq, counting, carry, carries.go_eq]
  standing_eq node := carries.standing_eq node.child
  payloads_eq node := carries.payloads_eq node.child
  estimate_eq node := carries.estimate_eq node.child

end Metered

/-! ## Regions -/

namespace Region

/-- Exchange the child. -/
def carry (wrap : σ → τ) (node : Region σ) : Region τ :=
  ⟨wrap node.child, node.low, node.high, node.anchor, node.standing⟩

variable {α : Type} {wrap : σ → τ}

theorem along_moving {step : Attempt Failure σ α}
    {carried : Attempt Failure τ α} {node : Region σ}
    (along : Along wrap step carried node.child) :
    Along (carry wrap) (moving step) (moving carried) node :=
  along_within rfl (fun _ => rfl) along

theorem along_settle (span? : Option Span) (node : Region σ) :
    Along (carry wrap) (settle span?) (settle span?) node :=
  along_bind (along_update rfl) fun _ reached _ => along_pure _ reached

variable [Cursor σ] [Cursor τ]

theorem along_settleFrom (carries : Carries wrap) (span : Span)
    (node : Region σ) :
    Along (carry wrap) (settleFrom span) (settleFrom span) node := by
  rw [settleFrom, settleFrom]
  refine along_look_bind ?_
  have same : (node.carry wrap).holds span = node.holds span := rfl
  rw [same]
  split
  · exact along_settle _ node
  · refine along_bind (along_moving ?_) ?_
    · change Along wrap _ (if node.high < span.start then _ else _) _
      split
      · exact carries.along_nextDocument span _
      · exact carries.along_nextBeyond span _
    · rintro (_ | ⟨later, beyond⟩) reached _
      · exact along_settle _ reached
      · have := Span.room_lt_room beyond
        exact along_settleFrom carries later reached
termination_by span.room

theorem along_keep (carries : Carries wrap) (span? : Option Span)
    (node : Region σ) :
    Along (carry wrap) (keep span?) (keep span?) node := by
  cases span? with
  | none => exact along_settle _ node
  | some span =>
      refine along_look_bind ?_
      change Along (carry wrap) _ (if node.high < node.low then _ else _) _
      split
      · exact along_settle _ node
      · exact along_settleFrom carries span node

theorem carries (carries : Carries wrap) :
    Carries (carry wrap : Region σ → Region τ) where
  go_eq := by
    refine planned.along_go planned (fun _ => rfl) (fun node => ?_)
      fun target node => ?_
    · exact along_bind (along_moving (carries.go_eq _ .next))
        fun span? reached _ => along_keep carries span? reached
    · exact along_bind (along_moving (carries.go_eq _ (.seek target)))
        fun span? reached _ => along_keep carries span? reached
  standing_eq _ := rfl
  payloads_eq node := by
    simp only [Cursor.payloads, carry, carries.payloads_eq]
  estimate_eq node := carries.estimate_eq node.child

end Region

/-! ## Exclusions -/

namespace Without

/-- Exchange both children. -/
def carry (wrap : σ → τ) (node : Without σ) : Without τ :=
  ⟨wrap node.included, wrap node.excluded, node.clash, node.barrier,
    node.standing⟩

variable {α : Type} {wrap : σ → τ}

theorem along_including {step : Attempt Failure σ α}
    {carried : Attempt Failure τ α} {node : Without σ}
    (along : Along wrap step carried node.included) :
    Along (carry wrap) (including step) (including carried) node :=
  along_within rfl (fun _ => rfl) along

theorem along_excluding {step : Attempt Failure σ α}
    {carried : Attempt Failure τ α} {node : Without σ}
    (along : Along wrap step carried node.excluded) :
    Along (carry wrap) (excluding step) (excluding carried) node :=
  along_within rfl (fun _ => rfl) along

theorem along_settle (span? : Option Span) (node : Without σ) :
    Along (carry wrap) (settle span?) (settle span?) node :=
  along_bind (along_update rfl) fun _ reached _ => along_pure _ reached

theorem along_noteBarrier (span? : Option Span) (node : Without σ) :
    Along (carry wrap) (noteBarrier span?) (noteBarrier span?) node :=
  along_update rfl

variable [Cursor σ] [Cursor τ]

section

variable (carries : Carries wrap)
include carries

theorem along_seekBarrier (doc : DocId) (node : Without σ) :
    Along (carry wrap) (seekBarrier doc) (seekBarrier doc) node := by
  refine along_bind (along_excluding (carries.go_eq _ (.seek doc))) ?_
  intro span? reached _
  exact along_bind (along_noteBarrier span? reached)
    fun _ last _ => along_pure _ last

theorem along_barrierIn (doc : DocId) (node : Without σ) :
    Along (carry wrap) (barrierIn doc) (barrierIn doc) node := by
  refine along_look_bind ?_
  cases which : node.barrier with
  | lifted =>
      simp only [carry, which]
      exact along_bind (along_pure none node)
        fun _ reached _ => along_pure _ reached
  | unread =>
      simp only [carry, which]
      exact along_bind (along_seekBarrier carries doc node)
        fun _ reached _ => along_pure _ reached
  | on span =>
      simp only [carry, which]
      split
      · exact along_bind (along_seekBarrier carries doc node)
          fun _ reached _ => along_pure _ reached
      · exact along_bind (along_pure (some span) node)
          fun _ reached _ => along_pure _ reached

theorem along_passBefore (doc : DocId) (edge : Nat) (span : Span)
    (node : Without σ) :
    Along (carry wrap) (passBefore doc edge span) (passBefore doc edge span)
      node := by
  rw [passBefore, passBefore]
  split
  · exact along_pure _ node
  · refine along_bind (along_excluding (carries.along_nextBeyond span _)) ?_
    rintro (_ | ⟨later, beyond⟩) reached _
    · exact along_bind (along_noteBarrier none reached)
        fun _ last _ => along_pure _ last
    · have := Span.room_lt_room beyond
      refine along_bind (along_noteBarrier (some later) reached) ?_
      intro _ last _
      split
      · exact along_passBefore doc edge later last
      · exact along_pure _ last
termination_by span.room

theorem along_clashes (span : Span) (node : Without σ) :
    Along (carry wrap) (clashes span) (clashes span) node := by
  refine along_look_bind ?_
  cases which : node.clash with
  | inDocument =>
      simp only [carry, which]
      exact along_bind (along_barrierIn carries span.doc node)
        fun _ reached _ => along_pure _ reached
  | overlap before behind =>
      simp only [carry, which]
      refine along_bind (along_barrierIn carries span.doc node) ?_
      rintro (_ | nearest) middle _
      · exact along_bind (along_pure none middle)
          fun _ reached _ => along_pure _ reached
      · exact along_bind (along_passBefore carries _ _ nearest middle)
          fun _ reached _ => along_pure _ reached

theorem along_nextCandidate (span : Span) (node : Without σ) :
    Along (carry wrap) (nextCandidate span) (nextCandidate span) node := by
  refine along_look_bind ?_
  cases which : node.clash with
  | inDocument =>
      simp only [carry, which]
      exact along_including (carries.along_nextDocument span _)
  | overlap before behind =>
      simp only [carry, which]
      exact along_including (carries.along_nextBeyond span _)

theorem along_settleFrom (span : Span) (node : Without σ) :
    Along (carry wrap) (settleFrom span) (settleFrom span) node := by
  rw [settleFrom, settleFrom]
  refine along_bind (along_clashes carries span node) ?_
  rintro (_ | _) middle _
  · exact along_settle _ middle
  · refine along_bind (along_nextCandidate carries span middle) ?_
    rintro (_ | ⟨later, beyond⟩) reached _
    · exact along_settle _ reached
    · have := Span.room_lt_room beyond
      exact along_settleFrom later reached
termination_by span.room

theorem along_keep (span? : Option Span) (node : Without σ) :
    Along (carry wrap) (keep span?) (keep span?) node := by
  cases span? with
  | none => exact along_settle _ node
  | some span => exact along_settleFrom carries span node

end

theorem carries (carries : Carries wrap) :
    Carries (carry wrap : Without σ → Without τ) where
  go_eq := by
    refine planned.along_go planned (fun _ => rfl) (fun node => ?_)
      fun target node => ?_
    · exact along_bind (along_including (carries.go_eq _ .next))
        fun span? reached _ => along_keep carries span? reached
    · exact along_bind (along_including (carries.go_eq _ (.seek target)))
        fun span? reached _ => along_keep carries span? reached
  standing_eq _ := rfl
  payloads_eq node := by
    simp only [Cursor.payloads, carry, carries.payloads_eq]
  estimate_eq node := carries.estimate_eq node.included

end Without

/-! ## Unions -/

namespace Union

variable {size : Nat}

/-- Exchange the children. -/
def carry (wrap : σ → τ) (node : Union σ size) : Union τ size :=
  ⟨node.children.map wrap, node.queue, node.entered, node.standing,
    node.estimate⟩

theorem along_settle {wrap : σ → τ} (node : Union σ size) :
    Along (carry wrap) settle settle node := rfl

variable [Cursor σ] [Cursor τ] {wrap : σ → τ}

theorem along_enterRest (carries : Carries wrap) (target? : Option DocId)
    (node : Union σ size) :
    Along (carry wrap) (enterRest target?) (enterRest target?) node := by
  by_cases inside : node.entered < size
  · have insideAlong : (node.carry wrap).entered < size := inside
    cases went : (Cursor.enter target? : Attempt Failure σ _)
        node.children[(⟨node.entered, inside⟩ : Fin size)] with
    | mk outcome cursor =>
        have wentAlong : Cursor.enter target?
            (node.carry wrap).children[(⟨node.entered, inside⟩ : Fin size)] =
              (outcome, wrap cursor) := by
          have along := carries.along_enter target?
            node.children[(⟨node.entered, inside⟩ : Fin size)]
          rw [Along, went] at along
          simpa [carry] using along
        cases outcome with
        | error failure =>
            rw [Along, enterRest_of_error inside went,
              enterRest_of_error insideAlong wentAlong]
            simp [keep, carry, Vector.map_set]
        | ok span? =>
            rw [Along, enterRest_of_ok inside went,
              enterRest_of_ok insideAlong wentAlong,
              ← along_enterRest carries target? _]
            simp [keep, carry, Vector.map_set]
  · rw [Along, enterRest_of_le (Nat.not_lt.mp inside)]
    exact enterRest_of_le (Nat.not_lt.mp inside)
termination_by size - node.entered

omit [Cursor σ] [Cursor τ] in
theorem along_moveLagging (lags : Span → Bool)
    {step : Attempt Failure σ (Option Span)}
    {carried : Attempt Failure τ (Option Span)}
    (along : ∀ cursor, Along wrap step carried cursor) (moves : Nat)
    (node : Union σ size) :
    Along (carry wrap) (moveLagging lags step moves)
      (moveLagging lags carried moves) node := by
  have settledAlong : ∀ node : Union σ size,
      (∀ least ∈ node.queue.least?, lags least.span = false) →
        ∀ least ∈ (node.carry wrap).queue.least?, lags least.span = false :=
    fun _ settled => settled
  induction moves generalizing node with
  | zero =>
      rcases node.queue.exists_or_forall_least (lags ·.span) with
        ⟨filled, lagging⟩ | settled
      · have filledAlong : 0 < (node.carry wrap).queue.heads.size := filled
        rw [Along, moveLagging_zero_of_lagging filled lagging,
          moveLagging_zero_of_lagging filledAlong lagging]
      · rw [Along, moveLagging_of_settled settled,
          moveLagging_of_settled (settledAlong node settled)]
  | succ moves ih =>
      rcases node.queue.exists_or_forall_least (lags ·.span) with
        ⟨filled, lagging⟩ | settled
      · cases went : step node.children[node.queue.heads[0].child] with
        | mk outcome cursor =>
            have wentAlong : carried
                (node.carry wrap).children[node.queue.heads[0].child] =
                  (outcome, wrap cursor) := by
              have same := along node.children[node.queue.heads[0].child]
              rw [Along, went] at same
              simpa [carry] using same
            have filledAlong : 0 < (node.carry wrap).queue.heads.size := filled
            cases outcome with
            | error failure =>
                rw [Along, moveLagging_of_error filled lagging moves went,
                  moveLagging_of_error filledAlong lagging moves wentAlong]
                simp [keep, carry, Vector.map_set]
            | ok span? =>
                rw [Along, moveLagging_of_ok filled lagging moves went,
                  moveLagging_of_ok filledAlong lagging moves wentAlong, ← ih]
                simp [keep, carry, Vector.map_set]
      · rw [Along, moveLagging_of_settled settled,
          moveLagging_of_settled (settledAlong node settled)]

theorem along_movePast (carries : Carries wrap) (span : Span)
    (node : Union σ size) :
    Along (carry wrap) (movePast span) (movePast span) node := by
  refine along_look_bind ?_
  exact along_moveLagging _ (fun cursor => carries.go_eq cursor .next) _ node

theorem along_onward (carries : Carries wrap) (node : Union σ size) :
    Along (carry wrap) onward onward node := by
  refine along_look_bind ?_
  by_cases inside : node.entered < size
  · have insideAlong : (node.carry wrap).entered < size := inside
    simp only [inside, insideAlong, ↓reduceIte]
    exact along_bind (along_enterRest carries none node)
      fun _ reached _ => along_settle reached
  · have insideAlong : ¬ (node.carry wrap).entered < size := inside
    have stands : (node.carry wrap).standing = node.standing := rfl
    simp only [inside, insideAlong, stands, ↓reduceIte]
    cases node.standing.span? with
    | none => exact along_settle node
    | some span =>
        exact along_bind (along_movePast carries span node)
          fun _ reached _ => along_settle reached

theorem along_forward (carries : Carries wrap) (target : DocId)
    (node : Union σ size) :
    Along (carry wrap) (forward target) (forward target) node := by
  refine along_bind (along_enterRest carries (some target) node) ?_
  intro _ middle _
  refine along_bind (along_look_bind ?_) fun _ reached _ =>
    along_settle reached
  exact along_moveLagging _
    (fun cursor => carries.go_eq cursor (.seek target)) _ middle

theorem carries (carries : Carries wrap) :
    Carries (carry wrap : Union σ size → Union τ size) where
  go_eq := planned.along_go planned (fun _ => rfl) (along_onward carries)
    (along_forward carries)
  standing_eq _ := rfl
  payloads_eq node := by
    simp only [Cursor.payloads, carry]
    cases node.queue.least? with
    | none => rfl
    | some head => simp [carries.payloads_eq]
  estimate_eq _ := rfl

/-- A fresh node over exchanged children is the fresh node exchanged. -/
theorem ofCursors_map
    (estimates : ∀ cursor : σ, Cursor.estimate (wrap cursor) =
      Cursor.estimate cursor)
    (cursors : Vector σ size) :
    ofCursors (cursors.map wrap) = (ofCursors cursors).carry wrap := by
  simp [ofCursors, carry, Vector.toList_map, estimates, Function.comp_def]

end Union

/-! ## Levels -/

namespace Level

/-- Exchange the cursors below. -/
def carry (wrap : σ → τ) : Level σ → Level τ
  | .nothing leaf => .nothing leaf
  | .listed leaf => .listed leaf
  | .term leaf => .term leaf
  | .scripted name leaf => .scripted name leaf
  | .probe leaf => .probe leaf
  | .proximity node => .proximity (node.carry wrap)
  | .union node => .union (node.carry wrap)
  | .without node => .without (node.carry wrap)
  | .region node => .region (node.carry wrap)
  | .metered node => .metered (node.carry wrap)

/-- Exchanged and exchanged back, the cursors below are what they were. -/
theorem carry_carry {wrap : σ → τ} {back : τ → σ}
    (inverse : ∀ cursor, back (wrap cursor) = cursor) (level : Level σ) :
    carry back (carry wrap level) = level := by
  have each : ∀ {size : Nat} (cursors : Vector σ size),
      (cursors.map wrap).map back = cursors := by
    intro size cursors
    ext place inside
    simp [inverse]
  cases level with
  | proximity node =>
      obtain ⟨_, _, _, alignment, _, _, _, _⟩ := node
      cases alignment <;>
        simp [carry, Proximity.carry, Alignment.carry, Gathering.carry,
          Lineup.carry, each]
  | union node => simp [carry, Union.carry, each]
  | without node => simp [carry, Without.carry, inverse]
  | region node => simp [carry, Region.carry, inverse]
  | metered node => simp [carry, Metered.carry, inverse]
  | nothing leaf => rfl
  | listed leaf => rfl
  | term leaf => rfl
  | scripted name leaf => rfl
  | probe leaf => rfl

variable [Cursor σ] [Cursor τ] {wrap : σ → τ}

/-- A level over carried cursors carries the level over the others. -/
theorem carries (below : Carries wrap) :
    Carries (carry wrap : Level σ → Level τ) := by
  refine .of_covered fun level => ?_
  cases level with
  | nothing leaf => exact .intro carries_nothing carries_nothing leaf
  | listed leaf => exact .intro carries_listed carries_listed leaf
  | term leaf => exact .intro carries_term carries_term leaf
  | scripted name leaf =>
      exact .intro (carries_scripted name) (carries_scripted name) leaf
  | probe leaf => exact .intro carries_probe carries_probe leaf
  | proximity node =>
      exact .intro carries_proximity
        (carries_proximity.comp (Proximity.carries below)) node
  | union node =>
      exact .intro carries_union (carries_union.comp (Union.carries below))
        node
  | without node =>
      exact .intro carries_without
        (carries_without.comp (Without.carries below)) node
  | region node =>
      exact .intro carries_region (carries_region.comp (Region.carries below))
        node
  | metered node =>
      exact .intro carries_metered
        (carries_metered.comp (Metered.carries below)) node

/-- To close what was exchanged is to exchange what was closed. -/
theorem close_carry
    (below : ∀ cursor, Cursor.close (wrap cursor) = wrap (Cursor.close cursor))
    (level : Level σ) :
    Cursor.close (level.carry wrap) = (Cursor.close level).carry wrap := by
  have each : ∀ {size : Nat} (cursors : Vector σ size),
      (cursors.map wrap).map Cursor.close =
        (cursors.map Cursor.close).map wrap := by
    intro size cursors
    ext place inside
    simp [below]
  cases level with
  | proximity node =>
      change (.proximity (Proximity.close (node.carry wrap)) : Level τ) =
        .proximity (node.close.carry wrap)
      by_cases isClosed : node.standing = .closed
      · simp [Proximity.close, Proximity.carry, isClosed]
      · have closed : (node.alignment.carry wrap).close =
            node.alignment.close.carry wrap := by
          cases node.alignment <;> exact congrArg Alignment.ended (each _)
        simp [Proximity.close, Proximity.carry, isClosed, closed]
  | union node =>
      change (.union (Union.close (node.carry wrap)) : Level τ) =
        .union (node.close.carry wrap)
      by_cases isClosed : node.standing = .closed
      · simp [Union.close, Union.carry, isClosed]
      · simp [Union.close, Union.carry, isClosed, each]
  | without node =>
      change (.without (Cursor.close (node.carry wrap)) : Level τ) =
        .without ((Cursor.close node).carry wrap)
      by_cases isClosed : node.standing = .closed
      · simp [Cursor.close, Without.carry, isClosed]
      · simp [Cursor.close, Without.carry, isClosed, below]
  | region node =>
      change (.region (Cursor.close (node.carry wrap)) : Level τ) =
        .region ((Cursor.close node).carry wrap)
      by_cases isClosed : node.standing = .closed
      · simp [Cursor.close, Region.carry, isClosed]
      · simp [Cursor.close, Region.carry, isClosed, below]
  | metered node =>
      change (.metered (Cursor.close (node.carry wrap)) : Level τ) =
        .metered ((Cursor.close node).carry wrap)
      simp [Cursor.close, Metered.carry, below]
  | nothing leaf => rfl
  | listed leaf => rfl
  | term leaf => rfl
  | scripted name leaf => rfl
  | probe leaf => rfl

end Level

end PositionalSearch
