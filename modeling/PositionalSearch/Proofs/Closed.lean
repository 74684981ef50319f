import PositionalSearch.Proofs.Levels
import PositionalSearch.Proofs.Order.Filters
import PositionalSearch.Proofs.Plain

/-!
# Closed trees

A tree that stands closed refuses every move and has nothing to show, and no
move opens it again.
-/

namespace PositionalSearch

/-- What stands closed fails to show anything. -/
theorem Standing.requireSpan_bind {α : Type} {standing : Standing}
    (isClosed : standing = .closed) (rest : Unit → Except Failure α) :
    (standing.requireSpan >>= rest) = .error .closed := by
  rw [isClosed]
  rfl

/-- By its plan, what stands there refuses a move. -/
def Standing.Refuses (standing : Standing) (failure : Failure) : Move → Prop
  | .next => standing.planNext = .error failure
  | .seek target => standing.planSeek target = .error failure

theorem Standing.refuses_of_closed {standing : Standing}
    (isClosed : standing = .closed) (move : Move) :
    standing.Refuses .closed move := by
  subst isClosed
  cases move <;> rfl

namespace Cursor

variable {σ τ : Type} [Cursor σ] [Cursor τ]

/-- A planned cursor that refuses a move stays as it is. -/
theorem Planned.go_refused {onward : Attempt Failure σ (Option Span)}
    {forward : DocId → Attempt Failure σ (Option Span)}
    (planned : Planned onward forward) {cursor : σ} {failure : Failure}
    {move : Move} (refuses : (standing cursor).Refuses failure move) :
    go move cursor = (.error failure, cursor) := by
  cases move with
  | next =>
      have refused : (standing cursor).planNext = .error failure := refuses
      change (next : Attempt Failure σ _).run cursor = _
      rw [planned.next_eq]
      simp only [Attempt.run_bind, Attempt.run_look, Attempt.run_ofExcept,
        refused]
  | seek target =>
      have refused : (standing cursor).planSeek target = .error failure :=
        refuses
      change (seek target : Attempt Failure σ _).run cursor = _
      rw [planned.seek_eq]
      simp only [Attempt.run_bind, Attempt.run_look, Attempt.run_ofExcept,
        refused]

/-- A planned cursor that is closed refuses a move and stays as it is. -/
theorem Planned.go_closed {onward : Attempt Failure σ (Option Span)}
    {forward : DocId → Attempt Failure σ (Option Span)}
    (planned : Planned onward forward) {cursor : σ}
    (isClosed : standing cursor = .closed) (move : Move) :
    go move cursor = (.error .closed, cursor) :=
  planned.go_refused (Standing.refuses_of_closed isClosed move)

/-- What carries a cursor that refuses a move refuses it as well. -/
theorem Carries.go_refused {wrap : σ → τ} (carries : Carries wrap)
    {cursor : σ} {failure : Failure} {move : Move}
    (refused : go move cursor = (.error failure, cursor)) :
    go move (wrap cursor) = (.error failure, wrap cursor) := by
  rw [carries.go_eq, refused]

/-- The cursor refuses every move, has nothing to show and stays closed. -/
structure Shut (cursor : σ) : Prop where
  moves : ∀ move : Move, (go move).Meets cursor (fun _ _ => False)
    fun failure reached => failure = .closed ∧ standing reached = .closed
  payloads : payloads cursor = .error .closed

/-- Closed, a planned cursor is shut if it looks at its standing first. -/
theorem Planned.shut {onward : Attempt Failure σ (Option Span)}
    {forward : DocId → Attempt Failure σ (Option Span)}
    (planned : Planned onward forward) {cursor : σ}
    (isClosed : standing cursor = .closed)
    (shows : payloads cursor = .error .closed) : Shut cursor where
  moves move :=
    (Attempt.meets_of_error (planned.go_closed isClosed move)).mpr
      ⟨rfl, isClosed⟩
  payloads := shows

theorem Carries.shut {wrap : σ → τ} (carries : Carries wrap) {cursor : σ}
    (shut : Shut cursor) : Shut (wrap cursor) where
  moves move := by
    rw [carries.meets_go_iff]
    apply (shut.moves move).imp_failure
    rintro failure reached ⟨isClosed, stands⟩
    exact ⟨isClosed, (carries.standing_eq reached).trans stands⟩
  payloads := (carries.payloads_eq cursor).trans shut.payloads

/-- What is closed and therefore shut follows the closed plain cursor. -/
theorem follows_closed
    (shut : ∀ cursor : σ, standing cursor = .closed → Shut cursor)
    {cursor : σ} (isClosed : standing cursor = .closed) :
    Follows cursor .closed := by
  refine ⟨fun cursor plain => standing cursor = .closed ∧ plain = .closed,
    ⟨?_, ?_, ?_⟩, isClosed, rfl⟩
  · rintro cursor _ ⟨isClosed, rfl⟩
    exact isClosed
  · rintro cursor _ ⟨isClosed, rfl⟩
    exact (shut cursor isClosed).payloads
  · rintro cursor _ ⟨isClosed, rfl⟩ move
    apply ((shut cursor isClosed).moves move).mono
    · exact fun _ _ impossible => impossible.elim
    · rintro failure reached ⟨rfl, stands⟩
      cases move <;> exact ⟨rfl, stands, rfl⟩

end Cursor

open Cursor (Shut)

/-- Whatever it has counted, a probe that is closed is shut. -/
theorem Probe.shut {probe : Probe} (isClosed : probe.standing = .closed) :
    Shut probe where
  moves move := by
    cases move <;>
      simp [Cursor.go, Cursor.next, Cursor.seek, Cursor.standing, isClosed,
        Standing.planNext, Standing.planSeek]
  payloads := Standing.requireSpan_bind isClosed _

/-- A meter is shut if its child is. -/
theorem Metered.shut {σ : Type} [Cursor σ] {node : Metered σ}
    (below : Shut node.child) : Shut node where
  moves move := meets_go (below.moves move)
  payloads := below.payloads

namespace Level

variable {σ : Type} [Cursor σ]

/-- A closed level is shut if closed cursors below it are. -/
theorem shut
    (below : ∀ cursor : σ, Cursor.standing cursor = .closed → Shut cursor)
    (level : Level σ) (isClosed : Cursor.standing level = .closed) :
    Shut level := by
  cases level with
  | nothing leaf =>
      exact carries_nothing.shut (Nothing.planned.shut isClosed
        (Standing.requireSpan_bind isClosed _))
  | listed leaf =>
      exact carries_listed.shut (Listed.planned.shut isClosed
        (Standing.requireSpan_bind isClosed _))
  | term leaf =>
      exact carries_term.shut (Term.planned.shut isClosed
        (Standing.requireSpan_bind isClosed _))
  | scripted name leaf =>
      exact (carries_scripted name).shut (Term.planned.shut isClosed
        (Standing.requireSpan_bind isClosed _))
  | probe leaf => exact carries_probe.shut (Probe.shut isClosed)
  | proximity node =>
      exact carries_proximity.shut (Proximity.planned.shut isClosed
        (Standing.requireSpan_bind isClosed _))
  | union node =>
      exact carries_union.shut (Union.planned.shut isClosed
        (Standing.requireSpan_bind isClosed _))
  | without node =>
      exact carries_without.shut (Without.planned.shut isClosed
        (Standing.requireSpan_bind isClosed _))
  | region node =>
      exact carries_region.shut (Region.planned.shut isClosed
        (Standing.requireSpan_bind isClosed _))
  | metered node =>
      exact carries_metered.shut (Metered.shut (below node.child isClosed))

omit [Cursor σ] in
/-- What is closed unless it was closed before stands closed. -/
theorem standing_closeOnce (standing : σ → Standing) (node : σ) {closed : σ}
    (closes : standing closed = .closed) :
    standing (if standing node = .closed then node else closed) = .closed := by
  split
  · assumption
  · exact closes

/-- What is closed stands closed. -/
theorem standing_close
    (below : ∀ cursor : σ, Cursor.standing (Cursor.close cursor) = .closed)
    (level : Level σ) : Cursor.standing (Cursor.close level) = .closed := by
  cases level with
  | nothing leaf => rfl
  | listed leaf => rfl
  | term leaf => exact standing_closeOnce Term.standing leaf rfl
  | scripted name leaf => exact standing_closeOnce Term.standing leaf rfl
  | probe leaf => rfl
  | proximity node => exact standing_closeOnce Proximity.standing node rfl
  | union node => exact standing_closeOnce Union.standing node rfl
  | without node => exact standing_closeOnce Without.standing node rfl
  | region node => exact standing_closeOnce Region.standing node rfl
  | metered node => exact below node.child

end Level

namespace Tree

theorem standing_close :
    {height : Nat} → (tree : Tree height) →
      Cursor.standing (Cursor.close tree) = .closed
  | 0, tree => nomatch tree
  | _ + 1, level => Level.standing_close standing_close level

theorem shut : {height : Nat} → (tree : Tree height) →
    Cursor.standing tree = .closed → Shut tree
  | 0, tree, _ => nomatch tree
  | _ + 1, level, isClosed => Level.shut shut level isClosed

/-- A tree that is closed follows the plain cursor that is closed. -/
theorem follows_closed {height : Nat} {tree : Tree height}
    (isClosed : Cursor.standing tree = .closed) :
    Cursor.Follows tree .closed :=
  Cursor.follows_closed shut isClosed

end Tree

end PositionalSearch
