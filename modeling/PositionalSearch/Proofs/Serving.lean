import PositionalSearch.Proofs.Moves
import PositionalSearch.Proofs.Meets
import PositionalSearch.Proofs.SpanOrder
import PositionalSearch.Proofs.Visits

/-!
# Cursors that serve visits

A cursor serves some visits if it is on the first of them and goes on to the
next ones.  Its moves may fail: what it has left is then known as well, for a
failure passes nothing but what a seek asked to pass.
-/

namespace PositionalSearch

namespace Visits

/-- To seek the document after one is to pass all up to that one. -/
theorem since_eq_beyond {doc target : DocId} (isNext : doc.after? = some target)
    (visits : Visits) : since target visits = beyond doc visits := by
  have isNext := DocId.after?_eq_some_iff.mp isNext
  refine List.filter_congr fun later _ => ?_
  simp only [decide_eq_decide, UInt64.le_iff_toNat_le, UInt64.lt_iff_toNat_lt,
    isNext]
  exact Nat.succ_le_iff

/-- After the last document there is nothing to visit. -/
theorem beyond_eq_nil {doc : DocId} (last : doc.after? = none)
    (visits : Visits) : beyond doc visits = [] := by
  refine List.filter_eq_nil_iff.mpr fun later _ => ?_
  simp only [decide_eq_true_eq, UInt64.not_lt]
  by_contra ahead
  have ahead := UInt64.not_le.mp ahead
  unfold DocId.after? at last
  split at last
  · cases last
  · rename_i top
    have bound := later.doc.toNat_lt
    have ahead := UInt64.lt_iff_toNat_lt.mp ahead
    simp only [UInt64.lt_iff_toNat_lt, UInt64.reduceToNat] at top
    change ¬ doc.toNat < _ at top
    omega

end Visits

namespace Cursor

variable {σ : Type}

/-- The first of some visits was reached, if there is one. -/
def Served (serves : Visits → σ → Prop) (visits : Visits)
    (span? : Option Span) (reached : σ) : Prop :=
  span? = visits.head?.map Visit.span ∧ (visits ≠ [] → serves visits reached)

variable [Cursor σ] {fails : Prop}

/--
Cursors on the first of some visits go on to the next ones.  If moves may
fail, a failure passes nothing, or only what a seek asked to pass.
-/
structure Serves (fails : Prop) (serves : Visits → σ → Prop) : Prop where
  next : ∀ {visit rest cursor}, serves (visit :: rest) cursor →
    Visits.Ordered (visit :: rest) →
      (next : Attempt Failure σ _).Meets cursor (Served serves rest)
        (fun _ reached => fails ∧ serves (visit :: rest) reached)
  seek : ∀ {visit rest cursor}, serves (visit :: rest) cursor →
    Visits.Ordered (visit :: rest) → ∀ {target : DocId}, visit.doc < target →
      (seek target : Attempt Failure σ _).Meets cursor
        (Served serves (Visits.since target rest))
        (fun _ reached => fails ∧ (serves (visit :: rest) reached ∨
          serves (visit :: Visits.since target rest) reached))

/-- Cursors before some visits enter the first of them, or that from a target. -/
structure Enters (fails : Prop) (waits serves : Visits → σ → Prop)
    (target? : Option DocId) : Prop where
  enter : ∀ {all cursor}, waits all cursor → Visits.Ordered all →
    (enter target? : Attempt Failure σ _).Meets cursor
      (Served serves (all.sinceAny target?))
      (fun _ reached => fails ∧ waits all reached)

/--
Cursors before some visits seek the first of them in a document or after it.
If that may fail, a failure passes nothing, or only what was to be passed.
-/
structure Seeks (fails : Prop) (waits serves : Visits → σ → Prop) : Prop where
  seek : ∀ {all cursor}, waits all cursor → Visits.Ordered all →
    ∀ target : DocId, (seek target : Attempt Failure σ _).Meets cursor
      (Served serves (all.since target))
      (fun _ reached => fails ∧
        (waits all reached ∨ waits (all.since target) reached))

/-- Cursors that serve visits stand where a move that answers has led them. -/
structure Settles (serves : Visits → σ → Prop) : Prop where
  go : ∀ {visits cursor}, serves visits cursor → ∀ move : Move,
    (go move : Attempt Failure σ _).Meets cursor
      (fun span? reached => standing reached = .after span?)
      (fun _ _ => True)

variable {serves : Visits → σ → Prop} {visit : Visit} {rest : Visits}
  {cursor : σ}

omit [Cursor σ] in
/-- Nothing is served when nothing is left. -/
theorem served_nil {serves : Visits → σ → Prop} (reached : σ) :
    Served serves [] none reached :=
  ⟨rfl, fun filled => absurd rfl filled⟩

omit [Cursor σ] in
/-- What is served comes after the visit before, so it is not refused. -/
theorem Served.meets_demandBeyond {visits : Visits} {span? : Option Span}
    (served : Served serves visits span? cursor)
    (after : ∀ later ∈ visits, visit.span < later.span) :
    (demandBeyond visit.span span? : Attempt Failure σ _).Meets cursor
      (fun later? reached => Served serves visits (later?.map Subtype.val)
        reached)
      (fun _ _ => False) := by
  obtain ⟨rfl, serve⟩ := served
  cases visits with
  | nil => exact served_nil cursor
  | cons later others =>
      have beyond := after later List.mem_cons_self
      simp only [List.head?_cons, Option.map_some, demandBeyond, beyond,
        ↓reduceDIte]
      exact ⟨rfl, serve⟩

/-- A cursor on a visit moves beyond it. -/
theorem Serves.meets_nextBeyond (does : Serves fails serves)
    (on : serves (visit :: rest) cursor)
    (ordered : Visits.Ordered (visit :: rest)) :
    (nextBeyond visit.span : Attempt Failure σ _).Meets cursor
      (fun later? reached => Served serves rest (later?.map Subtype.val)
        reached)
      (fun _ reached => fails ∧ serves (visit :: rest) reached) := by
  simp only [nextBeyond, Attempt.meets_bind]
  apply (does.next on ordered).imp_answer
  intro span? reached served
  exact (served.meets_demandBeyond fun _ => ordered.head_lt).imp_failure
    fun _ _ refused => refused.elim

/-- A cursor on a visit moves to the first document after it. -/
theorem Serves.meets_nextDocument (does : Serves fails serves)
    (on : serves (visit :: rest) cursor)
    (ordered : Visits.Ordered (visit :: rest)) :
    (nextDocument visit.span : Attempt Failure σ _).Meets cursor
      (fun later? reached => Served serves (rest.beyond visit.doc)
        (later?.map Subtype.val) reached)
      (fun _ reached => fails ∧ (serves (visit :: rest) reached ∨
        serves (visit :: rest.beyond visit.doc) reached)) := by
  unfold nextDocument
  split
  · rename_i target isNext
    have ahead : visit.doc < target := by
      rw [UInt64.lt_iff_toNat_lt, DocId.after?_eq_some_iff.mp isNext]
      exact Nat.lt_succ_self _
    have sought := does.seek on ordered ahead
    rw [Visits.since_eq_beyond isNext] at sought
    simp only [seekBeyond, Attempt.meets_bind]
    apply sought.imp_answer
    intro span? reached served
    refine (served.meets_demandBeyond fun later member => ?_).imp_failure
      fun _ _ refused => refused.elim
    exact ordered.head_lt (Visits.mem_beyond.mp member).1
  · rename_i last
    rw [Visits.beyond_eq_nil last]
    exact served_nil cursor

/-! ## Carried cursors -/

/-- What is said of a carried cursor by what it carries. -/
def Under {τ : Type} (wrap : σ → τ) (holds : Visits → σ → Prop)
    (visits : Visits) (outer : τ) : Prop :=
  ∃ inner, outer = wrap inner ∧ holds visits inner

section

variable {τ : Type} [Cursor τ] {wrap : σ → τ}

omit [Cursor σ] [Cursor τ] in
theorem Served.under {visits : Visits} {span? : Option Span} {cursor : σ}
    (served : Served serves visits span? cursor) :
    Served (Under wrap serves) visits span? (wrap cursor) :=
  ⟨served.1, fun filled => ⟨cursor, rfl, served.2 filled⟩⟩

/-- What carries cursors that serve visits serves them as well. -/
theorem Carries.serves_under (carries : Carries wrap)
    (does : Serves fails serves) : Serves fails (Under wrap serves) where
  next := by
    intro visit rest outer under ordered
    obtain ⟨inner, rfl, serve⟩ := under
    apply (carries.meets_go_iff .next).mpr
    apply (does.next serve ordered).mono (fun _ _ => Served.under)
    rintro _ further ⟨mayFail, still⟩
    exact ⟨mayFail, further, rfl, still⟩
  seek := by
    intro visit rest outer under ordered target ahead
    obtain ⟨inner, rfl, serve⟩ := under
    apply (carries.meets_go_iff (.seek target)).mpr
    apply (does.seek serve ordered ahead).mono (fun _ _ => Served.under)
    rintro _ further ⟨mayFail, still | passed⟩
    · exact ⟨mayFail, .inl ⟨further, rfl, still⟩⟩
    · exact ⟨mayFail, .inr ⟨further, rfl, passed⟩⟩

theorem Carries.seeks_under (carries : Carries wrap)
    {waits : Visits → σ → Prop} (seeks : Seeks fails waits serves) :
    Seeks fails (Under wrap waits) (Under wrap serves) where
  seek := by
    intro all outer under ordered target
    obtain ⟨inner, rfl, wait⟩ := under
    apply (carries.meets_go_iff (.seek target)).mpr
    apply (seeks.seek wait ordered target).mono (fun _ _ => Served.under)
    rintro _ further ⟨mayFail, still | passed⟩
    · exact ⟨mayFail, .inl ⟨further, rfl, still⟩⟩
    · exact ⟨mayFail, .inr ⟨further, rfl, passed⟩⟩

end

end Cursor

end PositionalSearch
