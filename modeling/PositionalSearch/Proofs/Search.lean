import PositionalSearch.Proofs.Alignment
import PositionalSearch.Proximity.Arrangement

/-!
# Searches are made of moves

To search a lineup for a match is to move its children on, and to align them
again when a document is left.  So whatever the moves of single children
uphold is upheld by every search, until one of the children ends.
-/

namespace PositionalSearch

namespace Lineup

variable {σ : Type} {size : Nat} [Cursor σ] {lineup : Lineup σ size}
  {holds ended : Lineup σ size → Prop}
  {failed : Failure → Lineup σ size → Prop}

/-- What a finding leaves: one condition, or another once a child has ended. -/
def FindingLeaves {α : Type} (holds ended : Lineup σ size → Prop) :
    Finding α → Lineup σ size → Prop
  | .hit _ => holds
  | .left => holds
  | .ended => ended

/--
A rule found broken is accounted for wherever the condition holds, and also
when the span that broke it was not noted yet.
-/
structure Accounts (holds ended : Lineup σ size → Prop)
    (failed : Failure → Lineup σ size → Prop) : Prop where
  noted : ∀ {lineup : Lineup σ size} (rule : Breach), ended lineup →
    failed (.breach rule) lineup
  unnoted : ∀ {lineup : Lineup σ size} {child : Fin size} {cursor : σ}
    {span : Span} (rule : Breach), holds (lineup.place child cursor span) →
      failed (.breach rule) (lineup.keep child cursor)

namespace Led

variable (led : Led holds ended failed) (accounts : Accounts holds ended failed)
include led accounts

theorem meets_advanceBeyond (held : holds lineup) (child : Fin size)
    (head : Span) :
    (advanceBeyond child head).Meets lineup (Leaves holds ended) failed := by
  rw [advanceBeyond, Attempt.meets_bind]
  apply (led.meets_advance held child).imp_answer
  intro span? reached left
  unfold Cursor.demandBeyond
  cases span? with
  | none => exact left
  | some later =>
      dsimp only
      split
      · exact left
      · exact accounts.noted _ (led.ends left)

theorem meets_catchUp {lineup : Lineup σ size} (held : holds lineup)
    (doc : DocId) (floor : Position) (child : Fin size) (head : Span) :
    (catchUp doc floor child head).Meets lineup (FindingLeaves holds ended)
      failed := by
  rw [catchUp]
  split
  · split
    · rw [Attempt.meets_bind]
      apply (led.meets_advanceBeyond accounts held child head).imp_answer
      intro later? reached left
      cases later? with
      | none => exact left
      | some later =>
          obtain ⟨later, beyond⟩ := later
          have := Span.room_lt_room beyond
          exact meets_catchUp left doc floor child later
    · exact held
  · exact held
termination_by head.room

theorem meets_stretch (held : holds lineup) (doc : DocId) (floor : Position)
    (children : List (Fin size)) :
    (stretch doc floor children).Meets lineup (FindingLeaves holds ended)
      failed := by
  induction children generalizing lineup floor with
  | nil => exact held
  | cons child rest ih =>
      simp only [stretch, Attempt.meets_bind, Attempt.meets_look]
      apply (led.meets_catchUp accounts held doc floor child _).imp_answer
      intro finding reached left
      cases finding with
      | hit head => exact ih left head.stop
      | left => exact left
      | ended => exact left

theorem meets_searchInOrder {lineup : Lineup σ size} (held : holds lineup)
    (slop : Nat) (last : Option Span) (doc : DocId) (filled : 0 < size)
    (first : Span) :
    (searchInOrder slop last doc filled first).Meets lineup
      (FindingLeaves holds ended) failed := by
  rw [searchInOrder, Attempt.meets_bind]
  apply (led.meets_stretch accounts held doc first.stop _).imp_answer
  intro finding middle left
  cases finding with
  | left => exact left
  | ended => exact left
  | hit _ =>
      simp only [Attempt.meets_bind, Attempt.meets_look,
        Attempt.meets_ofOption]
      have broken := fun rule : Breach => accounts.noted rule (led.ends left)
      refine ⟨fun candidate _ => ⟨fun slack _ => ?_, fun _ => broken _⟩,
        fun _ => broken _⟩
      split
      · exact left
      · rw [Attempt.meets_bind]
        apply (led.meets_advanceBeyond accounts left ⟨0, filled⟩
          first).imp_answer
        intro later? next leftNext
        cases later? with
        | none => exact leftNext
        | some later =>
            obtain ⟨later, beyond⟩ := later
            have := Span.room_lt_room beyond
            dsimp only
            split
            · exact meets_searchInOrder leftNext slop last doc filled later
            · exact leftNext
termination_by first.room

/-- The next span of the child that moves the window on, noted as its head. -/
theorem meets_slide (held : holds lineup) (pivot : Fin size) :
    (Cursor.nextBeyond lineup.heads[pivot]).Meets lineup.cursors[pivot]
      (fun later? cursor => later?.elim (ended (lineup.keep pivot cursor))
        fun later => holds (lineup.place pivot cursor later))
      fun failure cursor => failed failure (lineup.keep pivot cursor) := by
  have went := meets_move_iff.mp (led.moves lineup pivot .next held nofun)
  rw [Cursor.nextBeyond, Attempt.meets_bind]
  apply went.imp_answer
  intro span? cursor left
  unfold Cursor.demandBeyond
  cases span? with
  | none => exact left
  | some later =>
      dsimp only
      split
      · exact left
      -- The breach is found before the span is noted as the head.
      · exact accounts.unnoted _ left

theorem meets_searchAnyOrder {lineup : Lineup σ size} (held : holds lineup)
    (slop : Nat) (last : Option Span) (doc : DocId) (filled : 0 < size) :
    (searchAnyOrder slop last doc filled).Meets lineup
      (FindingLeaves holds ended) failed := by
  cases bounded : Span.ofBounds? doc
      lineup.heads[leastChild lineup.heads filled].start
      (latestStop lineup.heads) with
  | none =>
      rw [Attempt.meets_of_error (searchAnyOrder_of_unbounded rfl bounded)]
      exact accounts.noted _ (led.ends held)
  | some window =>
      by_cases accepted : window.length ≤ slop + covered lineup.heads ∧
          isNew last window
      · rw [Attempt.meets_of_ok (searchAnyOrder_of_accepted rfl bounded
          accepted)]
        exact held
      · rw [Attempt.meets_congr (searchAnyOrder_of_refused rfl bounded
          accepted)]
        simp only [Attempt.meets_bind, Attempt.meets_within]
        apply (led.meets_slide accounts held _).imp_answer
        intro later? cursor left
        cases later? with
        | none => exact left
        | some later =>
            obtain ⟨later, beyond⟩ := later
            have := lineup.room_place_lt _ cursor beyond
            simp only [Option.elim_some, Attempt.meets_bind,
              Attempt.meets_update]
            split
            · exact meets_searchAnyOrder left slop last doc filled
            · exact left
termination_by lineup.room

theorem meets_searchIn (held : holds lineup) (arrangement : Arrangement)
    (slop : Nat) (last : Option Span) (doc : DocId) :
    (searchIn arrangement slop last doc).Meets lineup
      (FindingLeaves holds ended) failed := by
  unfold searchIn
  split
  · rename_i filled
    cases arrangement with
    | inOrder =>
        dsimp only
        rw [Attempt.meets_bind, Attempt.meets_look]
        exact led.meets_searchInOrder accounts held slop last doc filled _
    | anyOrder =>
        exact led.meets_searchAnyOrder accounts held slop last doc filled
  · exact led.ends held

theorem meets_search {lineup : Lineup σ size} (held : holds lineup)
    (arrangement : Arrangement) (slop : Nat) (last : Option Span)
    (doc : DocId) :
    (Lineup.search arrangement slop last doc).Meets lineup
      (Leaves holds ended) failed := by
  rw [Lineup.search, Attempt.meets_bind]
  apply (led.meets_searchIn accounts held arrangement slop last doc).imp_answer
  intro finding middle left
  cases finding with
  | hit found => exact left
  | ended => exact left
  | left =>
      rw [Attempt.meets_bind]
      apply (led.meets_align left).imp_answer
      intro doc? aligned leftNext
      cases doc? with
      | none => exact leftNext
      | some later =>
          dsimp only
          split
          · rename_i beyond
            have := DocId.room_lt_room beyond
            exact meets_search leftNext arrangement slop last later
          · exact accounts.noted _ (led.ends leftNext)
termination_by doc.room

end Led

/-- The same of a condition that stands whatever is answered. -/
theorem Governed.meets_search (governed : Governed holds failed)
    (accounts : Accounts holds holds failed) (held : holds lineup)
    (arrangement : Arrangement) (slop : Nat) (last : Option Span)
    (doc : DocId) :
    (Lineup.search arrangement slop last doc).Meets lineup (fun _ => holds)
      failed :=
  (governed.led.meets_search accounts held arrangement slop last
    doc).imp_answer fun _ _ => leaves_self.mp

end Lineup

end PositionalSearch
