import PositionalSearch.Proofs.Order.Discipline

/-!
# Nodes that leave spans out

A region, an exclusion and a meter answer spans of one child only.  The child
may have gone further than the span answered last, so a node over an orderly
child is orderly itself.
-/

namespace PositionalSearch

open Cursor (Disciplined Orderly Advances)

variable {ι σ : Type} [Cursor σ] {disturb : ι → σ → σ}
  {last? : Option Span} {floor? : Option DocId}

/-! ## Meters -/

namespace Metered

/-- Disturb what is under the meter. -/
def disturbed (disturb : ι → σ → σ) (event : ι) (node : Metered σ) :
    Metered σ :=
  { node with child := disturb event node.child }

omit [Cursor σ] in
/-- A counted move comes to what the move of the child comes to. -/
theorem meets_counting {count : Reading → Reading}
    {step : Attempt Failure σ (Option Span)} {node : Metered σ}
    {answered : Option Span → σ → Prop} {failed : Failure → σ → Prop}
    (meets : step.Meets node.child answered failed) :
    (counting count step).Meets node
      (fun span? reached => answered span? reached.child)
      (fun failure reached => failed failure reached.child) := by
  simp only [Attempt.Meets, Attempt.run, counting] at meets ⊢
  cases outcome : step node.child with
  | mk result child =>
      rw [outcome] at meets
      cases result <;> exact meets

/-- What a meter counts for a move. -/
def tick : Move → Reading → Reading
  | .next, reading => { reading with nexts := reading.nexts + 1 }
  | .seek _, reading => { reading with seeks := reading.seeks + 1 }

theorem go_eq (move : Move) :
    (Cursor.go move : Attempt Failure (Metered σ) _) =
      counting (tick move) (Cursor.go move) := by
  cases move <;> rfl

theorem meets_go {move : Move} {node : Metered σ}
    {answered : Option Span → σ → Prop} {failed : Failure → σ → Prop}
    (meets : (Cursor.go move).Meets node.child answered failed) :
    (Cursor.go move).Meets node
      (fun span? reached => answered span? reached.child)
      (fun failure reached => failed failure reached.child) := by
  rw [go_eq]
  exact meets_counting meets

theorem disciplined {keeps : Option Span → σ → Prop}
    (below : Disciplined disturb keeps) :
    Disciplined (disturbed disturb) fun last? (node : Metered σ) =>
      keeps last? node.child where
  moves := by
    intro last? node kept move
    apply (meets_go (below.moves kept move)).imp_answer
    rintro (_ | span) reached advances
    · exact advances
    · exact advances
  finished kept stands move := meets_go (below.finished kept stands move)
  disturbed kept event := below.disturbed kept event

theorem orderly_ofCursor {name : String} {child : σ}
    (orderly : Orderly disturb last? child) :
    Orderly (disturbed disturb) last? (ofCursor name child) :=
  ⟨_, disciplined Orderly.disciplined, orderly⟩

end Metered

/-! ## Regions -/

namespace Region

/-- Disturb the child. -/
def disturbed (disturb : ι → σ → σ) (event : ι) (node : Region σ) :
    Region σ :=
  { node with child := disturb event node.child }

/-- The child goes on after the last span. -/
structure Keeps (disturb : ι → σ → σ) (last? : Option Span)
    (node : Region σ) : Prop where
  child : Orderly disturb last? node.child
  last : ∀ span, node.standing = .on span → last? = some span

/-- What the child moved beyond the last span is kept for a later move. -/
theorem Keeps.further {node : Region σ}
    (last : ∀ span, node.standing = .on span → last? = some span) {span : Span}
    (after : ∀ last ∈ last?, last < span) {child : σ}
    (orderly : Orderly disturb (some span) child) :
    Keeps disturb last? { node with child := child } :=
  ⟨orderly.weaken fun earlier isLast =>
    ⟨span, rfl, le_of_lt (after earlier isLast)⟩, last⟩

theorem meets_settle_none {node : Region σ}
    (orderly : Orderly disturb last? node.child) :
    (settle none).Meets node (Advances (Keeps disturb) last? floor?)
      (fun _ reached => Keeps disturb last? reached) := by
  simp only [settle, Attempt.meets_bind, Attempt.meets_update,
    Attempt.meets_pure]
  exact ⟨rfl, orderly, by simp [Standing.after]⟩

theorem meets_settleFrom (node : Region σ)
    (last : ∀ span, node.standing = .on span → last? = some span) {span : Span}
    (after : ∀ last ∈ last?, last < span)
    (floor : ∀ floor ∈ floor?, floor ≤ span.doc)
    (orderly : Orderly disturb (some span) node.child) :
    (settleFrom span).Meets node (Advances (Keeps disturb) last? floor?)
      (fun _ reached => Keeps disturb last? reached) := by
  rw [settleFrom]
  simp only [Attempt.meets_bind, Attempt.meets_look]
  split
  · simp only [settle, Attempt.meets_bind, Attempt.meets_update,
      Attempt.meets_pure]
    refine ⟨after, floor, rfl, orderly, ?_⟩
    rintro _ ⟨rfl⟩
    rfl
  · have moves : (if node.high < span.start then Cursor.nextDocument span
        else Cursor.nextBeyond span : Attempt Failure σ _).Meets node.child
        (fun later? reached =>
          Orderly disturb (some (later?.elim span Subtype.val)) reached)
        (fun _ reached => Orderly disturb (some span) reached) := by
      split
      · exact Orderly.disciplined.meets_nextDocument orderly
      · exact Orderly.disciplined.meets_nextBeyond orderly
    simp only [moving, Attempt.meets_bind, Attempt.meets_within]
    refine moves.mono ?_ fun _ child kept => Keeps.further last after kept
    rintro (_ | ⟨later, beyond⟩) child kept
    · exact meets_settle_none (Keeps.further last after kept).child
    · have := Span.room_lt_room beyond
      refine meets_settleFrom { node with child := child } last
        ?_ ?_ kept
      · exact fun earlier isLast => lt_trans (after earlier isLast) beyond
      · exact fun target isFloor =>
          UInt64.le_trans (floor target isFloor) (Span.doc_le_of_lt beyond)
termination_by span.room

/-- To keep to the region is to go on in order. -/
theorem meets_keep {node : Region σ} (kept : Keeps disturb last? node)
    {span? : Option Span} {child : σ}
    (advances : Advances (Orderly disturb) last? floor? span? child) :
    (keep span?).Meets { node with child := child }
      (Advances (Keeps disturb) last? floor?)
      (fun _ reached => Keeps disturb last? reached) := by
  cases span? with
  | none => exact meets_settle_none advances.2
  | some span =>
      obtain ⟨after, floor, _, orderly⟩ := advances
      simp only [keep, Attempt.meets_bind, Attempt.meets_look]
      split
      · exact meets_settle_none (Keeps.further kept.last after orderly).child
      · exact meets_settleFrom { node with child := child }
          kept.last after floor orderly

theorem disciplined :
    Disciplined (disturbed disturb)
      (Keeps disturb : Option Span → Region σ → Prop) := by
  refine planned.disciplined (fun kept stands => kept.last _ stands) ?_ ?_ ?_
  · intro last? node kept _
    simp only [moving, Attempt.meets_bind, Attempt.meets_within]
    exact kept.child.meets_next.mono
      (fun _ _ advances => meets_keep kept advances)
      fun _ child orderly => ⟨orderly, kept.last⟩
  · intro last? node target kept _
    simp only [moving, Attempt.meets_bind, Attempt.meets_within]
    exact (kept.child.meets_seek target).mono
      (fun _ _ advances => meets_keep kept advances)
      fun _ child orderly => ⟨orderly, kept.last⟩
  · exact fun kept event => ⟨⟨kept.child.disturbed event, kept.last⟩, rfl⟩

theorem orderly_ofCursor {low high : Position} {anchor : Anchor} {child : σ}
    (orderly : Orderly disturb none child) :
    Orderly (disturbed disturb) none (ofCursor low high anchor child) :=
  ⟨Keeps disturb, disciplined, orderly, nofun⟩

end Region

/-! ## Exclusions -/

namespace Without

/-- Disturb both children. -/
def disturbed (disturb : ι → σ → σ) (event : ι) (node : Without σ) :
    Without σ :=
  { node with
    included := disturb event node.included
    excluded := disturb event node.excluded }

/-- The included child goes on after the last span, the other one anyhow. -/
structure Keeps (disturb : ι → σ → σ) (last? : Option Span)
    (node : Without σ) : Prop where
  included : Orderly disturb last? node.included
  excluded : ∃ barrier?, Orderly disturb barrier? node.excluded
  last : ∀ span, node.standing = .on span → last? = some span

/-- Work on the excluded child that leaves the rest of the node alone. -/
structure Aside (disturb : ι → σ → σ) (node reached : Without σ) : Prop where
  included : reached.included = node.included
  standing : reached.standing = node.standing
  excluded : ∃ barrier?, Orderly disturb barrier? reached.excluded

theorem Aside.trans {node middle reached : Without σ}
    (first : Aside disturb node middle)
    (second : Aside disturb middle reached) : Aside disturb node reached :=
  ⟨second.included.trans first.included,
    second.standing.trans first.standing, second.excluded⟩

/-- A move of the excluded child keeps it in order. -/
theorem meets_go_excluded {node : Without σ}
    (excluded : ∃ barrier?, Orderly disturb barrier? node.excluded)
    (move : Move) :
    (Cursor.go move).Meets node.excluded
      (fun _ child => Aside disturb node { node with excluded := child })
      (fun _ child => Aside disturb node { node with excluded := child }) := by
  obtain ⟨barrier?, orderly⟩ := excluded
  refine (Orderly.disciplined.moves orderly move).mono ?_ ?_
  · rintro (_ | span) child advances
    · exact ⟨rfl, rfl, barrier?, advances.2⟩
    · exact ⟨rfl, rfl, some span, advances.2.2.2⟩
  · exact fun _ child kept => ⟨rfl, rfl, barrier?, kept⟩

theorem meets_seekBarrier {node : Without σ}
    (excluded : ∃ barrier?, Orderly disturb barrier? node.excluded)
    (doc : DocId) :
    (seekBarrier doc).Meets node
      (fun _ reached => Aside disturb node reached)
      (fun _ reached => Aside disturb node reached) := by
  simp only [seekBarrier, excluding, noteBarrier, Attempt.meets_bind,
    Attempt.meets_within, Attempt.meets_update, Attempt.meets_pure]
  apply (meets_go_excluded excluded (.seek doc)).imp_answer
  intro span? child aside
  exact ⟨aside.included, aside.standing, aside.excluded⟩

theorem meets_barrierIn {node : Without σ}
    (excluded : ∃ barrier?, Orderly disturb barrier? node.excluded)
    (doc : DocId) :
    (barrierIn doc).Meets node
      (fun _ reached => Aside disturb node reached)
      (fun _ reached => Aside disturb node reached) := by
  simp only [barrierIn, Attempt.meets_bind, Attempt.meets_look]
  cases node.barrier with
  | unread =>
      simp only [Attempt.meets_bind, Attempt.meets_pure]
      exact meets_seekBarrier excluded doc
  | lifted => exact ⟨rfl, rfl, excluded⟩
  | on span =>
      dsimp only
      split
      · simp only [Attempt.meets_bind, Attempt.meets_pure]
        exact meets_seekBarrier excluded doc
      · exact ⟨rfl, rfl, excluded⟩

theorem meets_passBefore {node : Without σ}
    (excluded : ∃ barrier?, Orderly disturb barrier? node.excluded)
    (doc : DocId) (edge : Nat) (span : Span) :
    (passBefore doc edge span).Meets node
      (fun _ reached => Aside disturb node reached)
      (fun _ reached => Aside disturb node reached) := by
  rw [passBefore]
  split
  · exact ⟨rfl, rfl, excluded⟩
  · simp only [excluding, Cursor.nextBeyond, Attempt.meets_bind,
      Attempt.meets_within]
    apply (meets_go_excluded excluded .next).imp_answer
    intro span? child aside
    unfold Cursor.demandBeyond
    cases span? with
    | none =>
        simp only [noteBarrier, Attempt.meets_bind, Attempt.meets_update,
          Attempt.meets_pure]
        exact ⟨aside.included, aside.standing, aside.excluded⟩
    | some later =>
        dsimp only
        split
        · rename_i beyond
          have := Span.room_lt_room beyond
          simp only [noteBarrier, Attempt.meets_bind, Attempt.meets_update,
            Attempt.meets_pure]
          have noted : Aside disturb node
              { node with
                excluded := child
                barrier := .after (some later) } :=
            ⟨aside.included, aside.standing, aside.excluded⟩
          split
          · exact (meets_passBefore noted.excluded doc edge later).mono
              (fun _ _ passed => noted.trans passed)
              fun _ _ passed => noted.trans passed
          · exact noted
        · exact aside
termination_by span.room

/-- A test of a span leaves all but the excluded child alone. -/
theorem meets_clashes {node : Without σ}
    (excluded : ∃ barrier?, Orderly disturb barrier? node.excluded)
    (span : Span) :
    (clashes span).Meets node
      (fun _ reached => Aside disturb node reached)
      (fun _ reached => Aside disturb node reached) := by
  simp only [clashes, Attempt.meets_bind, Attempt.meets_look]
  cases node.clash with
  | inDocument =>
      simp only [Attempt.meets_bind, Attempt.meets_pure]
      exact meets_barrierIn excluded span.doc
  | overlap before behind =>
      simp only [Attempt.meets_bind]
      apply (meets_barrierIn excluded span.doc).imp_answer
      intro first? reached aside
      cases first? with
      | none => exact aside
      | some nearest =>
          simp only [Attempt.meets_bind, Attempt.meets_pure]
          exact (meets_passBefore aside.excluded _ _ nearest).mono
            (fun _ _ passed => aside.trans passed)
            fun _ _ passed => aside.trans passed

theorem meets_nextCandidate {node : Without σ} {span : Span}
    (orderly : Orderly disturb (some span) node.included) :
    (nextCandidate span).Meets node
      (fun later? reached => ∃ child, reached =
        { node with included := child } ∧
          Orderly disturb (some (later?.elim span Subtype.val)) child)
      (fun _ reached => ∃ child, reached = { node with included := child } ∧
        Orderly disturb (some span) child) := by
  simp only [nextCandidate, Attempt.meets_bind, Attempt.meets_look]
  split
  · simp only [including, Attempt.meets_within]
    exact (Orderly.disciplined.meets_nextDocument orderly).mono
      (fun _ child kept => ⟨child, rfl, kept⟩)
      fun _ child kept => ⟨child, rfl, kept⟩
  · simp only [including, Attempt.meets_within]
    exact (Orderly.disciplined.meets_nextBeyond orderly).mono
      (fun _ child kept => ⟨child, rfl, kept⟩)
      fun _ child kept => ⟨child, rfl, kept⟩

theorem meets_settleFrom (node : Without σ)
    (last : ∀ span, node.standing = .on span → last? = some span) {span : Span}
    (after : ∀ last ∈ last?, last < span)
    (floor : ∀ floor ∈ floor?, floor ≤ span.doc)
    (orderly : Orderly disturb (some span) node.included)
    (excluded : ∃ barrier?, Orderly disturb barrier? node.excluded) :
    (settleFrom span).Meets node (Advances (Keeps disturb) last? floor?)
      (fun _ reached => Keeps disturb last? reached) := by
  have weaken : ∀ child : σ, Orderly disturb (some span) child →
      Orderly disturb last? child := fun child kept =>
    kept.weaken fun earlier isLast =>
      ⟨span, rfl, le_of_lt (after earlier isLast)⟩
  rw [settleFrom]
  simp only [Attempt.meets_bind]
  refine (meets_clashes excluded span).mono ?_ ?_
  · intro clash reached aside
    have lastAside : ∀ span, reached.standing = .on span →
        last? = some span := fun span stands =>
      last span (aside.standing ▸ stands)
    cases clash with
    | false =>
        simp only [Bool.false_eq_true, ↓reduceIte, settle,
          Attempt.meets_bind, Attempt.meets_update, Attempt.meets_pure]
        refine ⟨after, floor, rfl, ?_, aside.excluded, ?_⟩
        · exact aside.included ▸ orderly
        · rintro _ ⟨rfl⟩
          rfl
    | true =>
        simp only [↓reduceIte, Attempt.meets_bind]
        refine (meets_nextCandidate (aside.included ▸ orderly)).mono ?_ ?_
        · rintro (_ | ⟨later, beyond⟩) _ ⟨child, rfl, kept⟩
          · simp only [settle, Attempt.meets_bind, Attempt.meets_update,
              Attempt.meets_pure]
            exact ⟨rfl, weaken child kept, aside.excluded,
              by simp [Standing.after]⟩
          · have := Span.room_lt_room beyond
            refine meets_settleFrom
              { reached with included := child } lastAside ?_ ?_
              kept aside.excluded
            · exact fun earlier isLast => lt_trans (after earlier isLast) beyond
            · exact fun target isFloor => UInt64.le_trans
                (floor target isFloor) (Span.doc_le_of_lt beyond)
        · rintro _ _ ⟨child, rfl, kept⟩
          exact ⟨weaken child kept, aside.excluded, lastAside⟩
  · intro _ reached aside
    exact ⟨aside.included ▸ weaken _ orderly, aside.excluded,
      fun span stands => last span (aside.standing ▸ stands)⟩
termination_by span.room

/-- To leave out what clashes is to go on in order. -/
theorem meets_keep {node : Without σ} (kept : Keeps disturb last? node)
    {span? : Option Span} {child : σ}
    (advances : Advances (Orderly disturb) last? floor? span? child) :
    (keep span?).Meets { node with included := child }
      (Advances (Keeps disturb) last? floor?)
      (fun _ reached => Keeps disturb last? reached) := by
  cases span? with
  | none =>
      simp only [keep, settle, Attempt.meets_bind, Attempt.meets_update,
        Attempt.meets_pure]
      exact ⟨rfl, advances.2, kept.excluded, by simp [Standing.after]⟩
  | some span =>
      obtain ⟨after, floor, _, orderly⟩ := advances
      exact meets_settleFrom { node with included := child }
        kept.last after floor orderly kept.excluded

theorem disciplined :
    Disciplined (disturbed disturb)
      (Keeps disturb : Option Span → Without σ → Prop) := by
  refine planned.disciplined (fun kept stands => kept.last _ stands) ?_ ?_ ?_
  · intro last? node kept _
    simp only [including, Attempt.meets_bind, Attempt.meets_within]
    exact kept.included.meets_next.mono
      (fun _ _ advances => meets_keep kept advances)
      fun _ child orderly => ⟨orderly, kept.excluded, kept.last⟩
  · intro last? node target kept _
    simp only [including, Attempt.meets_bind, Attempt.meets_within]
    exact (kept.included.meets_seek target).mono
      (fun _ _ advances => meets_keep kept advances)
      fun _ child orderly => ⟨orderly, kept.excluded, kept.last⟩
  · intro last? node kept event
    obtain ⟨barrier?, excluded⟩ := kept.excluded
    exact ⟨⟨kept.included.disturbed event,
      ⟨barrier?, excluded.disturbed event⟩, kept.last⟩, rfl⟩

theorem orderly_ofCursors {clash : Clash} {included excluded : σ}
    (orderly : Orderly disturb none included)
    (barred : Orderly disturb none excluded) :
    Orderly (disturbed disturb) none (ofCursors clash included excluded) :=
  ⟨Keeps disturb, disciplined, orderly, ⟨none, barred⟩, nofun⟩

end Without

end PositionalSearch
