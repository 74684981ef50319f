import PositionalSearch.Proofs.Lawful.Basic
import PositionalSearch.Proofs.Order.Filters

/-!
# Nodes that leave spans out are lawful

A region and an exclusion demand of a child that it moves beyond a span on
which it stands.  The excluded child stands on the span that its node has noted
as its barrier, also after a move that failed.
-/

namespace PositionalSearch

open Attempt (Abides)
open Cursor (Advances Lawful Orderly Trusted lawful_of_disciplined)

variable {ι σ : Type} [Cursor σ] {disturb : ι → σ → σ} {last? : Option Span}

/-! ## Meters -/

theorem Metered.lawful_ofCursor {name : String} {child : σ}
    (lawful : Lawful disturb child) :
    Lawful (disturbed disturb) (ofCursor name child) :=
  ⟨fun node => Lawful disturb node.child,
    ⟨fun held move => meets_go (Lawful.guards.moves held move),
      fun held refused => Lawful.guards.payloads held refused,
      fun held event => Lawful.guards.disturbed held event⟩, lawful⟩

/-! ## Regions -/

namespace Region

/-- The child breaks no rule. -/
def Sound (disturb : ι → σ → σ) (node : Region σ) : Prop :=
  Lawful disturb node.child

/-- The child is moved on from where it stands. -/
theorem abides_settleFrom {node : Region σ} {span : Span}
    (trusted : Trusted disturb (some span) node.child) :
    (settleFrom span).Abides (Sound disturb) node := by
  rw [settleFrom]
  apply Attempt.abides_look_bind
  split
  · exact trusted.lawful
  · have moves : (if node.high < span.start then Cursor.nextDocument span
        else Cursor.nextBeyond span : Attempt Failure σ _).Meets node.child
        (fun later? reached =>
          Trusted disturb (some (later?.elim span Subtype.val)) reached)
        (fun failure reached => failure.Ordinary ∧
          Trusted disturb (some span) reached) := by
      split
      · exact trusted.meets_nextDocument
      · exact trusted.meets_nextBeyond
    simp only [Abides, moving, Attempt.meets_bind, Attempt.meets_within]
    refine moves.mono ?_ fun _ child failed => ⟨failed.1, failed.2.lawful⟩
    rintro (_ | ⟨later, beyond⟩) child trustedOn
    · exact trustedOn.lawful
    · have := Span.room_lt_room beyond
      have goesOn : Trusted disturb (some later)
          ({ node with child := child } : Region σ).child := trustedOn
      exact abides_settleFrom goesOn
termination_by span.room

theorem abides_keep {node : Region σ} {span? : Option Span}
    {floor? : Option DocId} {child : σ}
    (advances : Advances (Trusted disturb) last? floor? span? child) :
    (keep span?).Abides (Sound disturb) { node with child := child } := by
  cases span? with
  | none => exact advances.2.lawful
  | some span =>
      obtain ⟨_, _, _, trusted⟩ := advances
      apply Attempt.abides_look_bind
      split
      · exact trusted.lawful
      · exact abides_settleFrom trusted

theorem abides_go {node : Region σ} (kept : Keeps disturb last? node)
    (sound : Sound disturb node) (move : Move) :
    (Cursor.go move).Abides (Sound disturb) node := by
  have trusted : Trusted disturb last? node.child := ⟨kept.child, sound⟩
  refine planned.abides sound (fun _ => ?_) (fun target _ => ?_) move
  · simp only [Abides, moving, Attempt.meets_bind, Attempt.meets_within]
    exact trusted.meets_next.mono (fun _ _ => abides_keep)
      fun _ _ failed => ⟨failed.1, failed.2.lawful⟩
  · simp only [Abides, moving, Attempt.meets_bind, Attempt.meets_within]
    exact (trusted.meets_seek target).mono (fun _ _ => abides_keep)
      fun _ _ failed => ⟨failed.1, failed.2.lawful⟩

theorem lawful_ofCursor {low high : Position} {anchor : Anchor} {child : σ}
    (trusted : Trusted disturb none child) :
    Lawful (disturbed disturb) (ofCursor low high anchor child) := by
  refine lawful_of_disciplined disciplined abides_go
    (fun sound refused => ?_)
    (fun sound event => Lawful.guards.disturbed sound event)
    (show Keeps disturb none (ofCursor low high anchor child) from
      ⟨trusted.orderly, nofun⟩) trusted.lawful
  exact Standing.ordinary_of_requireSpan refused fun _ _ shown =>
    Lawful.guards.payloads sound shown

end Region

/-! ## Exclusions -/

namespace Without

/-- The excluded child stands on the barrier, if there is one. -/
def Fenced (disturb : ι → σ → σ) (node : Without σ) : Prop :=
  ∃ last?, Trusted disturb last? node.excluded ∧
    ∀ span, node.barrier = .on span → last? = some span

/-- The included child breaks no rule, and the excluded one is fenced. -/
structure Sound (disturb : ι → σ → σ) (node : Without σ) : Prop where
  included : Lawful disturb node.included
  fenced : Fenced disturb node

variable {node : Without σ}

/-- Work on the excluded child that leaves the included one alone. -/
structure Beside (disturb : ι → σ → σ) (node reached : Without σ) :
    Prop where
  included : reached.included = node.included
  fenced : Fenced disturb reached

theorem Beside.trans {middle reached : Without σ}
    (first : Beside disturb node middle)
    (second : Beside disturb middle reached) : Beside disturb node reached :=
  ⟨second.included.trans first.included, second.fenced⟩

/-- Where the excluded child answers it stands on the barrier noted then. -/
theorem Beside.of_advances {last? : Option Span} {floor? : Option DocId}
    {span? : Option Span} {child : σ}
    (advances : Advances (Trusted disturb) last? floor? span? child) :
    Beside disturb node
      { node with excluded := child, barrier := .after span? } := by
  cases span? with
  | none => exact ⟨rfl, last?, advances.2, nofun⟩
  | some span =>
      refine ⟨rfl, some span, advances.2.2.2, ?_⟩
      rintro _ ⟨rfl⟩
      rfl

theorem fenced_seekBarrier (fenced : Fenced disturb node) (doc : DocId) :
    (seekBarrier doc).Meets node
      (fun span? reached => Beside disturb node reached ∧
        ∀ span ∈ span?, reached.barrier = .on span)
      (fun failure reached => failure.Ordinary ∧
        Beside disturb node reached) := by
  obtain ⟨last?, trusted, stands⟩ := fenced
  simp only [seekBarrier, excluding, noteBarrier, Attempt.meets_bind,
    Attempt.meets_within, Attempt.meets_update, Attempt.meets_pure]
  refine (trusted.meets_seek doc).mono ?_ fun _ child failed =>
    ⟨failed.1, rfl, last?, failed.2, stands⟩
  intro span? child advances
  refine ⟨.of_advances advances, ?_⟩
  rintro span rfl
  rfl

theorem fenced_barrierIn (fenced : Fenced disturb node) (doc : DocId) :
    (barrierIn doc).Meets node
      (fun span? reached => Beside disturb node reached ∧
        ∀ span ∈ span?, reached.barrier = .on span)
      (fun failure reached => failure.Ordinary ∧
        Beside disturb node reached) := by
  have sought : (seekBarrier doc).Meets node
      (fun span? reached => Beside disturb node reached ∧
        ∀ span ∈ span?.filter fun span => decide (span.doc = doc),
          reached.barrier = .on span)
      (fun failure reached => failure.Ordinary ∧
        Beside disturb node reached) :=
    (fenced_seekBarrier fenced doc).imp_answer fun _ _ met =>
      ⟨met.1, fun span isSpan => met.2 span
        (Option.eq_some_of_filter_eq_some isSpan)⟩
  simp only [barrierIn, Attempt.meets_bind, Attempt.meets_look]
  cases stands : node.barrier with
  | unread =>
      simp only [Attempt.meets_bind, Attempt.meets_pure]
      exact sought
  | lifted => exact ⟨⟨rfl, fenced⟩, by simp⟩
  | on span =>
      dsimp only
      split
      · simp only [Attempt.meets_bind, Attempt.meets_pure]
        exact sought
      · refine ⟨⟨rfl, fenced⟩, fun other isOther => ?_⟩
        obtain rfl : span = other :=
          Option.some.inj (Option.eq_some_of_filter_eq_some isOther)
        exact stands

/-- The child is moved on from the barrier. -/
theorem fenced_passBefore {node : Without σ} (fenced : Fenced disturb node)
    (doc : DocId) (edge : Nat) {span : Span}
    (stands : node.barrier = .on span) :
    (passBefore doc edge span).Meets node
      (fun _ reached => Beside disturb node reached)
      (fun failure reached => failure.Ordinary ∧
        Beside disturb node reached) := by
  rw [passBefore]
  split
  · exact ⟨rfl, fenced⟩
  · obtain ⟨last?, trusted, isLast⟩ := fenced
    obtain rfl := isLast span stands
    simp only [excluding, Attempt.meets_bind, Attempt.meets_within]
    refine trusted.meets_nextBeyond.mono ?_ fun _ child failed =>
      ⟨failed.1, rfl, some span, failed.2, isLast⟩
    rintro (_ | ⟨later, beyond⟩) child trustedOn
    · exact ⟨rfl, some span, trustedOn, by rintro _ ⟨⟩⟩
    · have := Span.room_lt_room beyond
      have noted : Beside disturb node { node with
          excluded := child
          barrier := .after (some later) } := by
        refine ⟨rfl, some later, trustedOn, ?_⟩
        rintro _ ⟨rfl⟩
        rfl
      simp only [noteBarrier, Attempt.meets_bind, Attempt.meets_update]
      split
      · exact (fenced_passBefore noted.fenced doc edge rfl).mono
          (fun _ _ passed => noted.trans passed)
          fun _ _ failed => ⟨failed.1, noted.trans failed.2⟩
      · exact noted
termination_by span.room

theorem fenced_clashes (fenced : Fenced disturb node) (span : Span) :
    (clashes span).Meets node
      (fun _ reached => Beside disturb node reached)
      (fun failure reached => failure.Ordinary ∧
        Beside disturb node reached) := by
  simp only [clashes, Attempt.meets_bind, Attempt.meets_look]
  cases node.clash with
  | inDocument =>
      simp only [Attempt.meets_bind, Attempt.meets_pure]
      exact (fenced_barrierIn fenced span.doc).imp_answer
        fun _ _ met => met.1
  | overlap before behind =>
      simp only [Attempt.meets_bind]
      apply (fenced_barrierIn fenced span.doc).imp_answer
      rintro (_ | nearest) middle ⟨beside, stands⟩
      · exact beside
      · simp only [Attempt.meets_bind, Attempt.meets_pure]
        exact (fenced_passBefore beside.fenced _ _ (stands nearest rfl)).mono
          (fun _ _ passed => beside.trans passed)
          fun _ _ failed => ⟨failed.1, beside.trans failed.2⟩

theorem trusted_nextCandidate {span : Span}
    (trusted : Trusted disturb (some span) node.included) :
    (nextCandidate span).Meets node
      (fun later? reached => ∃ child, reached =
        { node with included := child } ∧
          Trusted disturb (some (later?.elim span Subtype.val)) child)
      (fun failure reached => failure.Ordinary ∧ ∃ child, reached =
        { node with included := child } ∧ Lawful disturb child) := by
  simp only [nextCandidate, Attempt.meets_bind, Attempt.meets_look]
  split
  · simp only [including, Attempt.meets_within]
    exact trusted.meets_nextDocument.mono
      (fun _ child trustedOn => ⟨child, rfl, trustedOn⟩)
      fun _ child failed => ⟨failed.1, child, rfl, failed.2.lawful⟩
  · simp only [including, Attempt.meets_within]
    exact trusted.meets_nextBeyond.mono
      (fun _ child trustedOn => ⟨child, rfl, trustedOn⟩)
      fun _ child failed => ⟨failed.1, child, rfl, failed.2.lawful⟩

theorem abides_settleFrom {node : Without σ} {span : Span}
    (trusted : Trusted disturb (some span) node.included)
    (fenced : Fenced disturb node) :
    (settleFrom span).Abides (Sound disturb) node := by
  have sound : ∀ {reached : Without σ}, Beside disturb node reached →
      Sound disturb reached := fun beside =>
    ⟨beside.included ▸ trusted.lawful, beside.fenced⟩
  rw [settleFrom]
  apply ((fenced_clashes fenced span).imp_failure fun failure reached failed =>
    (⟨failed.1, sound failed.2⟩ :
      failure.Ordinary ∧ Sound disturb reached)).abides_bind
  intro clashes middle beside
  split
  · apply ((trusted_nextCandidate (beside.included ▸ trusted)).imp_failure
      ?_).abides_bind
    · rintro (_ | ⟨later, beyond⟩) _ ⟨child, rfl, trustedOn⟩
      · exact ⟨trustedOn.lawful, beside.fenced⟩
      · have := Span.room_lt_room beyond
        exact abides_settleFrom trustedOn beside.fenced
    · rintro failure _ ⟨ordinary, child, rfl, lawful⟩
      exact ⟨ordinary, lawful, beside.fenced⟩
  · exact ⟨(sound beside).included, beside.fenced⟩
termination_by span.room

theorem abides_keep {span? : Option Span} {floor? : Option DocId} {child : σ}
    (fenced : Fenced disturb node)
    (advances : Advances (Trusted disturb) last? floor? span? child) :
    (keep span?).Abides (Sound disturb) { node with included := child } := by
  cases span? with
  | none => exact ⟨advances.2.lawful, fenced⟩
  | some span => exact abides_settleFrom advances.2.2.2 fenced

theorem abides_go (kept : Keeps disturb last? node)
    (sound : Sound disturb node) (move : Move) :
    (Cursor.go move).Abides (Sound disturb) node := by
  have trusted : Trusted disturb last? node.included :=
    ⟨kept.included, sound.included⟩
  refine planned.abides sound (fun _ => ?_) (fun target _ => ?_) move
  · simp only [Abides, including, Attempt.meets_bind, Attempt.meets_within]
    exact trusted.meets_next.mono (fun _ _ => abides_keep sound.fenced)
      fun _ _ failed => ⟨failed.1, failed.2.lawful, sound.fenced⟩
  · simp only [Abides, including, Attempt.meets_bind, Attempt.meets_within]
    exact (trusted.meets_seek target).mono
      (fun _ _ => abides_keep sound.fenced)
      fun _ _ failed => ⟨failed.1, failed.2.lawful, sound.fenced⟩

theorem Sound.disturbed (sound : Sound disturb node) (event : ι) :
    Sound disturb (disturbed disturb event node) := by
  obtain ⟨last?, trusted, isLast⟩ := sound.fenced
  exact ⟨Lawful.guards.disturbed sound.included event, last?,
    ⟨trusted.orderly.disturbed event,
      Lawful.guards.disturbed trusted.lawful event⟩, isLast⟩

theorem lawful_ofCursors {clash : Clash} {included excluded : σ}
    (trusted : Trusted disturb none included)
    (fenced : Trusted disturb none excluded) :
    Lawful (disturbed disturb) (ofCursors clash included excluded) := by
  refine lawful_of_disciplined disciplined abides_go
    (fun sound refused => ?_) Sound.disturbed
    (show Keeps disturb none (ofCursors clash included excluded) from
      ⟨trusted.orderly, ⟨none, fenced.orderly⟩, nofun⟩)
    ⟨trusted.lawful, none, fenced, nofun⟩
  exact Standing.ordinary_of_requireSpan refused fun _ _ shown =>
    Lawful.guards.payloads sound.included shown

end Without

end PositionalSearch
