import PositionalSearch.Proofs.Moves
import PositionalSearch.Proofs.Planned

/-!
# Exact cursors

As long as all moves answer, each cursor of a tree stands exactly on the span
it answered last.  A node relies on this: it moves a child only from where it
saw the child last, never back, and never again once the child has ended.  So
a condition on the children that such moves preserve is preserved by every
move of the node.
-/

namespace PositionalSearch

namespace Cursor

variable {σ τ : Type} [Cursor σ] [Cursor τ] {fit : σ → Prop}
  {seen? : Option Span} {cursor : σ}

/-- A fit cursor on the span it was seen on last, or not moved yet. -/
structure Stands (fit : σ → Prop) (seen? : Option Span) (cursor : σ) :
    Prop where
  fit : fit cursor
  there : standing cursor = seen?.elim .unstarted .on

/-- A fit cursor on the span it answered, or anywhere if it answered none. -/
structure Left (fit : σ → Prop) (span? : Option Span) (cursor : σ) :
    Prop where
  fit : fit cursor
  there : ∀ span ∈ span?, standing cursor = .on span

theorem Left.stands {span : Span} (left : Left fit (some span) cursor) :
    Stands fit (some span) cursor :=
  ⟨left.fit, left.there span rfl⟩

/-- An attempt that answers leaves the cursor fit, where its answer says. -/
def Arrives (fit : σ → Prop) (attempt : Attempt Failure σ (Option Span))
    (cursor : σ) : Prop :=
  attempt.Meets cursor
    (fun span? reached => fit reached ∧ standing reached = .after span?)
    fun _ _ => True

/-- However it is moved, a fit cursor arrives. -/
def Reliable (fit : σ → Prop) : Prop :=
  ∀ ⦃cursor : σ⦄, fit cursor → ∀ move : Move, Arrives fit (go move) cursor

/--
A fit cursor arrives if it has not ended and is not asked to go back from
where it was seen last.
-/
def Guided (fit : σ → Prop) : Prop :=
  ∀ ⦃seen? : Option Span⦄ ⦃cursor : σ⦄, Stands fit seen? cursor →
    ∀ move : Move, (∀ target ∈ move.target?, ∀ seen ∈ seen?,
      seen.doc ≤ target) → Arrives fit (go move) cursor

theorem Reliable.guided (reliable : Reliable fit) : Guided fit :=
  fun _ _ stands move _ => reliable stands.fit move

theorem Arrives.left {attempt : Attempt Failure σ (Option Span)}
    (arrives : Arrives fit attempt cursor) :
    attempt.Meets cursor (Left fit) fun _ _ => True := by
  apply Attempt.Meets.imp_answer arrives
  rintro span? reached ⟨isFit, stands⟩
  refine ⟨isFit, ?_⟩
  rintro span ⟨rfl⟩
  exact stands

/-! ## Moving a child from where it was seen -/

namespace Guided

variable (guided : Guided fit)
include guided

theorem meets_next (stands : Stands fit seen? cursor) :
    (next : Attempt Failure σ _).Meets cursor (Left fit) fun _ _ => True :=
  (guided stands .next nofun).left

theorem meets_seek (stands : Stands fit seen? cursor) {target : DocId}
    (onward : ∀ seen ∈ seen?, seen.doc ≤ target) :
    (seek target).Meets cursor (Left fit) fun _ _ => True := by
  refine (guided stands (.seek target) ?_).left
  rintro _ ⟨rfl⟩
  exact onward

/-- A child that was not moved yet can be entered anywhere. -/
theorem meets_enter (stands : Stands fit none cursor)
    (target? : Option DocId) :
    (enter target?).Meets cursor (Left fit) fun _ _ => True := by
  cases target? with
  | none => exact guided.meets_next stands
  | some target => exact guided.meets_seek stands nofun

omit [Cursor τ] guided in
/-- A demand for a later span leaves the cursor where its answer says. -/
theorem meets_demandBeyond (span : Span) {span? : Option Span}
    (left : Left fit span? cursor) :
    (demandBeyond span span?).Meets cursor
      (fun later? => Left fit (later?.map Subtype.val)) fun _ _ => True := by
  unfold demandBeyond
  cases span? with
  | none => exact left
  | some later =>
      dsimp only
      split
      · exact left
      · trivial

theorem meets_nextBeyond (stands : Stands fit seen? cursor) (span : Span) :
    (nextBeyond span).Meets cursor
      (fun later? => Left fit (later?.map Subtype.val)) fun _ _ => True := by
  rw [nextBeyond, Attempt.meets_bind]
  exact (guided.meets_next stands).imp_answer
    fun _ _ left => meets_demandBeyond span left

/-- The document after that of a span is not behind the span. -/
theorem meets_nextDocument {span : Span}
    (stands : Stands fit (some span) cursor) :
    (nextDocument span).Meets cursor
      (fun later? => Left fit (later?.map Subtype.val)) fun _ _ => True := by
  unfold nextDocument
  split
  · rename_i target isNext
    have onward : ∀ seen ∈ some span, seen.doc ≤ target := by
      rintro _ ⟨rfl⟩
      rw [UInt64.le_iff_toNat_le, DocId.after?_eq_some_iff.mp isNext]
      exact Nat.le_succ _
    rw [seekBeyond, Attempt.meets_bind]
    exact (guided.meets_seek stands onward).imp_answer
      fun _ _ left => meets_demandBeyond span left
  · exact ⟨stands.fit, nofun⟩

end Guided

/-! ## Planned cursors -/

/-- A planned cursor is reliable if both its ways to move arrive. -/
theorem Planned.reliable {onward : Attempt Failure σ (Option Span)}
    {forward : DocId → Attempt Failure σ (Option Span)}
    (planned : Planned onward forward)
    (goesOn : ∀ {cursor : σ}, fit cursor →
      (standing cursor).planNext = .ok true → Arrives fit onward cursor)
    (goesForward : ∀ {cursor : σ} {target : DocId}, fit cursor →
      (standing cursor).planSeek target = .ok .forward →
        Arrives fit (forward target) cursor) :
    Reliable fit := by
  intro cursor isFit move
  cases move with
  | next =>
      exact planned.meets_next (fun _ => trivial) (fun ended => ⟨isFit, ended⟩)
        (goesOn isFit)
  | seek target =>
      exact planned.meets_seek (fun _ => trivial) (fun ended => ⟨isFit, ended⟩)
        (fun _ _ _ => trivial)
        (fun span isOn _ => goesOn isFit (by rw [isOn]; rfl))
        (goesForward isFit)

/-! ## Carried cursors -/

/-- What arrives does so under what carries it. -/
theorem Carries.arrives {wrap : σ → τ} (carries : Carries wrap)
    {fitOuter : τ → Prop} {move : Move}
    (arrives : Arrives (fun inner => fitOuter (wrap inner)) (go move) cursor) :
    Arrives fitOuter (go move) (wrap cursor) := by
  rw [Arrives, carries.meets_go_iff]
  apply Attempt.Meets.imp_answer arrives
  rintro span? reached ⟨isFit, stands⟩
  exact ⟨isFit, (carries.standing_eq reached).trans stands⟩

end Cursor

end PositionalSearch
