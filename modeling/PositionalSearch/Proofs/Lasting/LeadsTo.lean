import PositionalSearch.Proofs.Lasting.Query
import PositionalSearch.Proofs.Levels

/-!
# Cursors reached by moves

A cursor leads to another one if moves get there, failing ones included as far
as they are spared.  What lasts for a cursor holds of all it leads to, and a
node that is reached by moves has children that are reached by moves.
-/

namespace PositionalSearch

namespace Cursor

variable {σ τ : Type} [Cursor σ] [Cursor τ] {spared : Failure → Prop}

/-- Moves that do not fail, or only in a spared way, lead to the cursor. -/
inductive LeadsTo (spared : Failure → Prop) (cursor : σ) : σ → Prop
  | refl : LeadsTo spared cursor cursor
  | go {middle reached : σ} {outcome : Except Failure (Option Span)}
      (reaches : LeadsTo spared cursor middle) (move : Move)
      (went : Cursor.go move middle = (outcome, reached))
      (isSpared : ∀ failure, outcome = .error failure → spared failure) :
      LeadsTo spared cursor reached

/-- What lasts holds of all that is reached. -/
theorem LeadsTo.holds {holds : σ → Prop} {cursor reached : σ}
    (reaches : LeadsTo spared cursor reached) (lasting : Lasting spared holds)
    (held : holds cursor) : holds reached := by
  induction reaches with
  | refl => exact held
  | @go middle reached outcome _ move went isSpared ih =>
      have met := lasting ih move
      cases outcome with
      | ok span? => exact met.of_ok went
      | error failure => exact met.of_error went (isSpared failure rfl)

/-- Where more is spared all the more is reached. -/
theorem LeadsTo.weaken {also : Failure → Prop}
    (weaker : ∀ failure, spared failure → also failure) {cursor reached : σ}
    (reaches : LeadsTo spared cursor reached) :
    LeadsTo also cursor reached := by
  induction reaches with
  | refl => exact .refl
  | go _ move went isSpared ih =>
      exact ih.go move went fun failure isError =>
        weaker failure (isSpared failure isError)

theorem LeadsTo.trans {cursor middle reached : σ}
    (first : LeadsTo spared cursor middle)
    (second : LeadsTo spared middle reached) :
    LeadsTo spared cursor reached := by
  induction second with
  | refl => exact first
  | go _ move went isSpared ih => exact ih.go move went isSpared

/-- To be reached lasts. -/
theorem lasting_leadsTo (cursor : σ) :
    Lasting spared (LeadsTo spared cursor) := by
  intro middle reaches move
  cases went : Cursor.go move middle with
  | mk outcome reached =>
      cases outcome with
      | ok span? =>
          exact (Attempt.meets_of_ok went).mpr (reaches.go move went nofun)
      | error failure =>
          refine (Attempt.meets_of_error went).mpr fun isSpared =>
            reaches.go move went ?_
          rintro _ ⟨rfl⟩
          exact isSpared

/-- A run whose failures are all spared leads to where it ends. -/
theorem leadsTo_runs (moves : List Move) (cursor : σ) :
    LeadsTo (fun _ => True) cursor (runs moves cursor).2 :=
  (lasting_leadsTo cursor).holds_runs .refl (fun _ => trivial) moves

/-- What carries a cursor leads to what carries a cursor it leads to. -/
theorem LeadsTo.of_carries {wrap : σ → τ} (carries : Carries wrap)
    {cursor : σ} {outer : τ} (reaches : LeadsTo spared (wrap cursor) outer) :
    ∃ reached, outer = wrap reached ∧ LeadsTo spared cursor reached := by
  have lasting : Lasting spared fun outer => ∃ reached,
      outer = wrap reached ∧ LeadsTo spared cursor reached := by
    rintro _ ⟨middle, rfl, reached⟩ move
    refine (carries.meets_go_iff move).mpr
      ((lasting_leadsTo cursor reached move).mono ?_ ?_)
    · exact fun _ last further => ⟨last, rfl, further⟩
    · exact fun _ last further isSpared => ⟨last, rfl, further isSpared⟩
  exact reaches.holds lasting ⟨cursor, rfl, .refl⟩

end Cursor

open Cursor (Lasting LeadsTo lasting_leadsTo)

variable {σ : Type} [Cursor σ] {spared : Failure → Prop} {size : Nat}

theorem Metered.leadsTo_child {node reached : Metered σ}
    (reaches : LeadsTo spared node reached) :
    LeadsTo spared node.child reached.child :=
  reaches.holds (lasting (lasting_leadsTo node.child)) .refl

theorem Region.leadsTo_child {node reached : Region σ}
    (reaches : LeadsTo spared node reached) :
    LeadsTo spared node.child reached.child := by
  have lasting : Lasting spared fun reached : Region σ =>
      LeadsTo spared node.child reached.child := fun middle held move =>
    (concludes_go (lasting_leadsTo node.child) held move).sustains
      fun _ _ _ concluded => concluded.child
  exact reaches.holds lasting .refl

theorem Without.leadsTo_children {node reached : Without σ}
    (reaches : LeadsTo spared node reached) :
    LeadsTo spared node.included reached.included ∧
      LeadsTo spared node.excluded reached.excluded := by
  have lasting : Lasting spared fun reached : Without σ =>
      LeadsTo spared node.included reached.included ∧
        LeadsTo spared node.excluded reached.excluded :=
    fun middle held move =>
      (concludes_go (lasting_leadsTo node.included)
        (lasting_leadsTo node.excluded) ⟨held.1, held.2, rfl⟩ move).sustains
          fun _ _ _ concluded => ⟨concluded.included, concluded.excluded⟩
  exact reaches.holds lasting ⟨.refl, .refl⟩

/-- Each child is reached from the one in its place. -/
def EachLeadsTo (spared : Failure → Prop) (cursors reached : Vector σ size) :
    Prop :=
  Each (fun child => LeadsTo spared cursors[child]) reached

theorem EachLeadsTo.refl (cursors : Vector σ size) :
    EachLeadsTo spared cursors cursors := fun _ => .refl

/-- Whatever a child leads to, its moves lead on from there. -/
theorem lasting_each (cursors : Vector σ size) (child : Fin size) :
    Lasting spared (LeadsTo spared cursors[child]) :=
  lasting_leadsTo cursors[child]

theorem Union.leadsTo_children {node reached : Union σ size}
    (reaches : LeadsTo spared node reached) :
    EachLeadsTo spared node.children reached.children := by
  have lasting : Lasting spared fun reached : Union σ size =>
      EachLeadsTo spared node.children reached.children :=
    fun middle held move =>
      (concludes_go (lasting_each node.children) ⟨held, rfl, rfl⟩
        move).sustains fun _ _ _ concluded => concluded.children
  exact reaches.holds lasting (.refl _)

end PositionalSearch
