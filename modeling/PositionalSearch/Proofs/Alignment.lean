import PositionalSearch.Proofs.Moves
import PositionalSearch.Proximity.Alignment
import PositionalSearch.Proximity.Lineup

/-!
# Alignment is made of moves

To align a lineup is to move its children, each to a document that its head
does not lie behind.  So whatever all such moves uphold is upheld by aligning,
and by what ends in aligning: a seek, and going on after a match.
-/

namespace PositionalSearch

namespace Lineup

variable {σ : Type} {size : Nat} [Cursor σ] {lineup : Lineup σ size}
  {holds ended : Lineup σ size → Prop}
  {failed : Failure → Lineup σ size → Prop}

omit [Cursor σ] in
/-- To move a child is to make the move and note what it answers. -/
theorem meets_move_iff {child : Fin size}
    {step : Attempt Failure σ (Option Span)}
    {answered : Option Span → Lineup σ size → Prop} :
    (Lineup.move child step).Meets lineup answered failed ↔
      step.Meets lineup.cursors[child]
        (fun span? cursor => answered span?
          (span?.elim (lineup.keep child cursor) (lineup.place child cursor)))
        (fun failure cursor => failed failure (lineup.keep child cursor)) := by
  simp only [Attempt.Meets, Attempt.run, Lineup.move]
  cases step lineup.cursors[child] with
  | mk outcome cursor =>
      cases outcome with
      | error failure => rfl
      | ok span? => cases span? <;> rfl

/-! ## Conditions until a child ends -/

/-- An answer leaves one condition standing, and no answer another one. -/
def Leaves {α : Type} (holds ended : Lineup σ size → Prop) :
    Option α → Lineup σ size → Prop
  | some _ => holds
  | none => ended

omit [Cursor σ] in
@[simp] theorem leaves_self {α : Type} {value? : Option α} :
    Leaves holds holds value? lineup ↔ holds lineup := by
  cases value? <;> rfl

/--
A condition is upheld by each move of a child that does not lead it back from
its head, as long as the child answers spans; once it has none another
condition is left.  The failures of such moves are accounted for.
-/
structure Led (holds ended : Lineup σ size → Prop)
    (failed : Failure → Lineup σ size → Prop) : Prop where
  moves : ∀ (lineup : Lineup σ size) (child : Fin size) (move : Move),
    holds lineup →
      (∀ target ∈ move.target?, lineup.heads[child].doc ≤ target) →
        (Lineup.move child (Cursor.go move)).Meets lineup (Leaves holds ended)
          failed
  ends : ∀ {lineup : Lineup σ size}, holds lineup → ended lineup

namespace Led

variable (led : Led holds ended failed)
include led

theorem meets_advance (held : holds lineup) (child : Fin size) :
    (advance child).Meets lineup (Leaves holds ended) failed :=
  led.moves lineup child .next held nofun

/-- A child is moved to a document that its head does not lie behind. -/
theorem meets_moveTo (held : holds lineup) (child : Fin size) {target : DocId}
    (onward : lineup.heads[child].doc ≤ target) :
    (Lineup.move child (Cursor.seek target)).Meets lineup (Leaves holds ended)
      failed := by
  apply led.moves lineup child (.seek target) held
  rintro _ ⟨rfl⟩
  exact onward

theorem meets_agree (held : holds lineup) (target : DocId)
    (children : List (Fin size)) :
    (agree target children).Meets lineup
      (fun agreement reached => ended reached ∧
        (agreement ≠ .ended → holds reached)) failed := by
  have goesOn : ∀ {reached : Lineup σ size} {agreement : Agreement target},
      holds reached → ended reached ∧ (agreement ≠ .ended → holds reached) :=
    fun held => ⟨led.ends held, fun _ => held⟩
  induction children generalizing lineup with
  | nil => exact goesOn held
  | cons child rest ih =>
      simp only [agree, Attempt.meets_bind, Attempt.meets_look]
      split
      · exact goesOn held
      · rename_i notBeyond
        split
        · exact ih held
        · simp only [Attempt.meets_bind]
          apply (led.meets_moveTo held child
            (UInt64.not_lt.mp notBeyond)).imp_answer
          intro landed? reached left
          cases landed? with
          | none => exact ⟨left, fun notEnded => absurd rfl notEnded⟩
          | some landed =>
              dsimp only
              split
              · exact goesOn left
              · exact ih left

theorem meets_alignAt {lineup : Lineup σ size} (held : holds lineup)
    (target : DocId) :
    (alignAt target).Meets lineup (Leaves holds ended) failed := by
  rw [alignAt]
  simp only [Attempt.meets_bind, Attempt.meets_look]
  apply (led.meets_agree held target lineup.order).imp_answer
  rintro agreement reached ⟨left, goesOn⟩
  cases agreement with
  | agreed => exact goesOn (by rintro ⟨⟩)
  | ended => exact left
  | ahead later beyond =>
      have := DocId.room_lt_room beyond
      exact meets_alignAt (goesOn (by rintro ⟨⟩)) later
termination_by target.room

theorem meets_align (held : holds lineup) :
    Lineup.align.Meets lineup (Leaves holds ended) failed := by
  simp only [Lineup.align, Attempt.meets_bind, Attempt.meets_look]
  cases lineup.latestDocument? with
  | none => exact led.ends held
  | some target => exact led.meets_alignAt held target

theorem meets_seekLagging (held : holds lineup) (target : DocId)
    (children : List (Fin size)) :
    (seekLagging target children).Meets lineup
      (fun all reached => ended reached ∧ (all = true → holds reached))
      failed := by
  induction children generalizing lineup with
  | nil => exact ⟨led.ends held, fun _ => held⟩
  | cons child rest ih =>
      simp only [seekLagging, Attempt.meets_bind, Attempt.meets_look]
      split
      · rename_i lags
        simp only [Attempt.meets_bind]
        apply (led.meets_moveTo held child (UInt64.le_of_lt lags)).imp_answer
        intro landed? reached left
        cases landed? with
        | none => exact ⟨left, by rintro ⟨⟩⟩
        | some landed => exact ih left
      · exact ih held

theorem meets_seek (held : holds lineup) (target : DocId) :
    (Lineup.seek target).Meets lineup (Leaves holds ended) failed := by
  simp only [Lineup.seek, Attempt.meets_bind, Attempt.meets_look]
  apply (led.meets_seekLagging held target lineup.order).imp_answer
  rintro all reached ⟨left, goesOn⟩
  cases all with
  | false => exact left
  | true => exact led.meets_align (goesOn rfl)

theorem meets_resume (held : holds lineup) (pivot : Fin size) (doc : DocId) :
    (Lineup.resume pivot doc).Meets lineup (Leaves holds ended) failed := by
  simp only [Lineup.resume, Attempt.meets_bind]
  apply (led.meets_advance held pivot).imp_answer
  intro head? reached left
  cases head? with
  | none => exact left
  | some head =>
      dsimp only
      split
      · exact left
      · exact led.meets_align left

end Led

/-! ## Conditions whatever is answered -/

/--
A condition is upheld by each move of a child that does not lead it back from
its head, and the failures of such moves are accounted for.
-/
def Governed (holds : Lineup σ size → Prop)
    (failed : Failure → Lineup σ size → Prop) : Prop :=
  ∀ (lineup : Lineup σ size) (child : Fin size) (move : Move), holds lineup →
    (∀ target ∈ move.target?, lineup.heads[child].doc ≤ target) →
      (Lineup.move child (Cursor.go move)).Meets lineup (fun _ => holds) failed

namespace Governed

variable (governed : Governed holds failed)
include governed

/-- The same condition is left when there is no answer. -/
theorem led : Led holds holds failed where
  moves lineup child move held onward :=
    (governed lineup child move held onward).imp_answer
      fun _ _ => leaves_self.mpr
  ends := id

theorem meets_advance (held : holds lineup) (child : Fin size) :
    (advance child).Meets lineup (fun _ => holds) failed :=
  governed lineup child .next held nofun

theorem meets_align (held : holds lineup) :
    Lineup.align.Meets lineup (fun _ => holds) failed :=
  (governed.led.meets_align held).imp_answer fun _ _ => leaves_self.mp

theorem meets_seek (held : holds lineup) (target : DocId) :
    (Lineup.seek target).Meets lineup (fun _ => holds) failed :=
  (governed.led.meets_seek held target).imp_answer fun _ _ => leaves_self.mp

theorem meets_resume (held : holds lineup) (pivot : Fin size) (doc : DocId) :
    (Lineup.resume pivot doc).Meets lineup (fun _ => holds) failed :=
  (governed.led.meets_resume held pivot doc).imp_answer
    fun _ _ => leaves_self.mp

end Governed

end Lineup

/-! ## Aligning children that were placed -/

namespace Alignment

variable {σ : Type} {size : Nat} [Cursor σ]

/-- What a start makes of its children: an end, or a lineup to be aligned. -/
structure Starts (answered : Option DocId → Alignment σ size → Prop)
    (failed : Failure → Alignment σ size → Prop) (all : Bool)
    (placed : Gathering σ size) : Prop where
  ended : all = false → answered none (.ended placed.cursors)
  unplaced : all = true → placed.lineup? = none →
    failed (.breach .unplacedChild) (.starting placed)
  aligns : all = true → ∀ lineup ∈ placed.lineup?,
    (onLineup Lineup.align).Meets (.running lineup) answered failed

/-- A start comes to what is made of its children once they are placed. -/
theorem meets_starting {gathering : Gathering σ size}
    {target? : Option DocId}
    {answered : Option DocId → Alignment σ size → Prop}
    {failed : Failure → Alignment σ size → Prop}
    (placing : (Gathering.placeAll target? gathering.order).Meets gathering
      (Starts answered failed)
      fun failure placed => failed failure (.starting placed)) :
    (start target?).Meets (.starting gathering) answered failed := by
  simp only [Attempt.Meets, Attempt.run, start] at placing ⊢
  cases outcome : Gathering.placeAll target? gathering.order gathering with
  | mk result placed =>
      rw [outcome] at placing
      cases result with
      | error failure => exact placing
      | ok all =>
          cases all with
          | false => exact placing.ended rfl
          | true =>
              cases isLineup : placed.lineup? with
              | none =>
                  simp only [isLineup]
                  exact placing.unplaced rfl isLineup
              | some lineup =>
                  simp only [isLineup]
                  exact placing.aligns rfl lineup isLineup

end Alignment

end PositionalSearch
