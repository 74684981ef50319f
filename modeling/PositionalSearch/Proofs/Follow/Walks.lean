import PositionalSearch.Proofs.Plain

/-!
# Walking a cursor that follows a plain one

A walk over everything visits what the plain cursor has to come, in its order
and with its payloads.
-/

namespace PositionalSearch

open Cursor (Follows Takes)

namespace Walk

variable {σ : Type} [Cursor σ]

omit [Cursor σ] in
/-- Without a deadline there is nothing to check. -/
@[simp] theorem meets_checkDeadline {root : σ} {visits : Array Visit}
    {answered : Unit → Progress σ → Prop}
    {failed : Failure → Progress σ → Prop} :
    checkDeadline.Meets ⟨root, visits, none⟩ answered failed ↔
      answered () ⟨root, visits, none⟩ := Iff.rfl

/-- From a visit on, a walk makes that visit and those to come. -/
theorem meets_follow (visit : Visit) (rest : Visits) {root : σ}
    {made : Array Visit} (follows : Follows root (.on visit rest))
    (ordered : Visits.Ordered (visit :: rest)) :
    (follow .all visit.span).Meets ⟨root, made, none⟩
      (fun isCut reached => isCut = false ∧
        reached.visits.toList = made.toList ++ visit :: rest)
      (fun _ _ => False) := by
  have unlimited : Plan.all.limit? = none := rfl
  have paid : Cursor.payloads root = .ok visit.payloads := follows.payloads_eq
  rw [follow]
  simp only [unlimited, Option.any_none, Bool.false_eq_true, ↓reduceIte,
    Walk.visit, paid, moving, Attempt.meets_bind, Attempt.meets_look,
    Attempt.meets_ofExcept_ok, Attempt.meets_update, Attempt.meets_within,
    meets_checkDeadline]
  apply (follows.meets_nextBeyond ordered).imp_answer
  rintro later? reached ⟨isLater, still⟩
  cases rest with
  | nil =>
      cases later? with
      | none => exact ⟨rfl, Array.toList_push⟩
      | some later => cases isLater
  | cons later others =>
      cases later? with
      | none => cases isLater
      | some found =>
          obtain ⟨span, beyond⟩ := found
          cases isLater
          apply (meets_follow later others still ordered.tail).imp_answer
          rintro isCut last ⟨uncut, further⟩
          refine ⟨uncut, further.trans ?_⟩
          rw [Array.toList_push, List.append_assoc]
          rfl

/-- A walk over everything makes all visits. -/
theorem visits_run {root : σ} {visits : Visits}
    (follows : Follows root (.fresh visits)) (ordered : visits.Ordered) :
    (run .all root).visits = visits ∧
      (run .all root).outcome = .ok ⟨visits.length, false⟩ := by
  have begun : (begin .all).Meets (⟨root, #[], none⟩ : Progress σ)
      (fun isCut reached => isCut = false ∧ reached.visits.toList = visits)
      (fun _ _ => False) := by
    simp only [begin, moving, Attempt.meets_bind, Attempt.meets_within]
    apply (follows.meets_enter ordered none).imp_answer
    rintro _ reached ⟨rfl, still⟩
    cases visits with
    | nil => exact ⟨rfl, rfl⟩
    | cons visit rest => exact meets_follow visit rest still ordered
  obtain ⟨isCut, reached, outcome, rfl, made⟩ := begun.exists_ok
  have went : run .all root = ⟨.ok ⟨reached.visits.size, false⟩,
      reached.visits.toList, Cursor.close reached.root⟩ := by
    change Result.ofEnd (begin .all ⟨root, #[], none⟩) = _
    rw [outcome]
    rfl
  rw [went]
  exact ⟨made, by rw [← made, Array.length_toList]⟩

/-- All spans are those of the visits to come. -/
theorem drain_eq {root : σ} {visits : Visits}
    (follows : Follows root (.fresh visits)) (ordered : visits.Ordered) :
    drain root = .ok (visits.map Visit.span) := by
  obtain ⟨made, outcome⟩ := visits_run follows ordered
  rw [drain, Result.spans, outcome, made]
  rfl

end Walk

end PositionalSearch
