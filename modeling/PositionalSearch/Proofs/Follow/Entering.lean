import PositionalSearch.Proofs.Alignment
import PositionalSearch.Proofs.Follow.Lineup
import PositionalSearch.Proofs.Order.Proximity

/-!
# Entering the children of a proximity node

Before the first match the children are placed on their first visits, and the
placed children are brought into a document.  A child that failed to be placed
has all of its visits left, and is entered again.
-/

namespace PositionalSearch

open Cursor (Follows FollowsUpon Served Serves)

variable {σ : Type} {size : Nat}

/-! ## Entering the children -/

namespace Gathering

/-- Children that were placed have their first visits left, others all. -/
structure Gathers (waits serves : Visits → σ → Prop) (target? : Option DocId)
    (all : Fin size → Visits) (gathering : Gathering σ size) : Prop where
  order : ∀ child, child ∈ gathering.order
  ordered : ∀ child, (all child).Ordered
  waiting : ∀ child : Fin size, gathering.found[child] = none →
    waits (all child) gathering.cursors[child]
  placed : ∀ (child : Fin size) (span : Span),
    gathering.found[child] = some span →
      serves ((all child).sinceAny target?) gathering.cursors[child] ∧
        ((all child).sinceAny target?).head?.map Visit.span = some span

variable {fails : Prop} {waits serves : Visits → σ → Prop}
  {target? : Option DocId} {all : Fin size → Visits}
  {gathering : Gathering σ size}

theorem Gathers.waited (gathers : Gathers waits serves target? all gathering)
    {child : Fin size} {cursor : σ} (none : gathering.found[child] = none)
    (still : waits (all child) cursor) :
    Gathers waits serves target? all
      { gathering with
        cursors := gathering.cursors.set child cursor child.isLt } := by
  refine ⟨gathers.order, gathers.ordered, fun other waiting => ?_,
    fun other span isPlaced => ?_⟩
  · simp only [Lineup.getElem_set_fin]
    split
    · rename_i same
      exact same ▸ still
    · exact gathers.waiting other waiting
  · simp only [Lineup.getElem_set_fin]
    split
    · rename_i same
      subst same
      rw [none] at isPlaced
      cases isPlaced
    · exact gathers.placed other span isPlaced

theorem Gathers.entered (gathers : Gathers waits serves target? all gathering)
    {child : Fin size} {cursor : σ} {span : Span}
    (served : serves ((all child).sinceAny target?) cursor)
    (isHead : ((all child).sinceAny target?).head?.map Visit.span =
      some span) :
    Gathers waits serves target? all
      { gathering with
        cursors := gathering.cursors.set child cursor child.isLt
        found := gathering.found.set child (some span) child.isLt } := by
  refine ⟨gathers.order, gathers.ordered, fun other => ?_, fun other => ?_⟩
  · simp only [Lineup.getElem_set_fin]
    split
    · exact nofun
    · exact gathers.waiting other
  · simp only [Lineup.getElem_set_fin]
    split
    · rename_i same
      subst same
      rintro _ ⟨rfl⟩
      exact ⟨served, isHead⟩
    · exact gathers.placed other

variable [Cursor σ]

/-- A child is placed on the first of its visits, if it has one. -/
theorem gathers_enter (enters : Cursor.Enters fails waits serves target?)
    (gathers : Gathers waits serves target? all gathering)
    {child : Fin size} (none : gathering.found[child] = none) :
    (enter target? child).Meets gathering
      (fun span? reached => match span? with
        | some span => Gathers waits serves target? all reached ∧
            reached.found = gathering.found.set child (some span) child.isLt
        | .none => (all child).sinceAny target? = [])
      (fun _ reached => fails ∧
        Gathers waits serves target? all reached) := by
  have entered := enters.enter (gathers.waiting child none)
    (gathers.ordered child)
  cases outcome : Cursor.enter target? gathering.cursors[child] with
  | mk result cursor =>
      cases result with
      | error failure =>
          obtain ⟨mayFail, still⟩ := entered.of_error outcome
          rw [Attempt.meets_of_error (show enter target? child gathering =
            (.error failure, { gathering with
              cursors := gathering.cursors.set child cursor }) by
            simp only [enter, outcome])]
          exact ⟨mayFail, gathers.waited none still⟩
      | ok span? =>
          obtain ⟨rfl, served⟩ := entered.of_ok outcome
          cases visits : (all child).sinceAny target? with
          | nil =>
              rw [visits] at outcome
              rw [Attempt.meets_of_ok (show enter target? child gathering =
                (.ok .none, { gathering with
                  cursors := gathering.cursors.set child cursor }) by
                simp only [enter, outcome, List.head?_nil, Option.map_none])]
          | cons visit rest =>
              rw [visits] at outcome
              rw [Attempt.meets_of_ok (show enter target? child gathering =
                (.ok (some visit.span), { gathering with
                  cursors := gathering.cursors.set child cursor
                  found := gathering.found.set child (some visit.span) }) by
                simp only [enter, outcome, List.head?_cons,
                  Option.map_some])]
              refine ⟨gathers.entered (served ?_) ?_, rfl⟩
              · rw [visits]
                exact List.cons_ne_nil _ _
              · rw [visits]
                rfl

/-- Children are placed one after the other, unless one has no visits. -/
theorem gathers_placeAll (enters : Cursor.Enters fails waits serves target?)
    (gathers : Gathers waits serves target? all gathering)
    (children : List (Fin size)) :
    (placeAll target? children).Meets gathering
      (fun isAll reached => if isAll then
        Gathers waits serves target? all reached ∧
          ∀ child : Fin size, child ∈ children ∨
            gathering.found[child].isSome → reached.found[child].isSome
        else ∃ child, (all child).sinceAny target? = [])
      (fun _ reached => fails ∧
        Gathers waits serves target? all reached) := by
  induction children generalizing gathering with
  | nil => exact ⟨gathers, fun child placed =>
      placed.resolve_left List.not_mem_nil⟩
  | cons child rest ih =>
      simp only [placeAll, Attempt.meets_bind, Attempt.meets_look]
      cases found : gathering.found[child] with
      | some span =>
          apply (ih gathers).imp_answer
          rintro (_ | _) reached placed
          · exact placed
          · refine ⟨placed.1, fun other isOther => placed.2 other ?_⟩
            rw [List.mem_cons, or_assoc] at isOther
            rcases isOther with rfl | further
            · exact .inr (by rw [found]; rfl)
            · exact further
      | none =>
          simp only [Attempt.meets_bind]
          apply (gathers_enter enters gathers found).imp_answer
          rintro (_ | span) middle entered
          · exact ⟨child, entered⟩
          · obtain ⟨gathersOn, isFound⟩ := entered
            apply (ih gathersOn).imp_answer
            rintro (_ | _) reached placed
            · exact placed
            · refine ⟨placed.1, fun other isOther => placed.2 other ?_⟩
              rw [isFound, Lineup.getElem_set_fin]
              rw [List.mem_cons, or_assoc] at isOther
              split
              · exact .inr rfl
              · rename_i notChild
                exact isOther.resolve_left (Ne.symm notChild)

omit [Cursor σ] in
/-- Once all children are placed, each is on the first visit it has left. -/
theorem Gathers.lists (gathers : Gathers waits serves target? all gathering)
    (placed : ∀ child : Fin size, gathering.found[child].isSome) :
    ∃ lineup, gathering.lineup? = some lineup ∧
      lineup.Lists serves (fun child => (all child).sinceAny target?) := by
  obtain ⟨lineup, isLineup, cursors, order, heads⟩ :=
    gathering.lineup?_eq_some fun child =>
      Option.isSome_iff_exists.mp (placed child)
  refine ⟨lineup, isLineup, fun child => ?_, fun child => ?_, fun child => ?_,
    fun child => (gathers.ordered child).sinceAny target?⟩
  · rw [order]
    exact gathers.order child
  · rw [cursors]
    exact (gathers.placed child _ (heads child)).1
  · exact (gathers.placed child _ (heads child)).2

end Gathering

/-! ## Children on the way -/

namespace Alignment

open Nearness

/-- Where entering and aligning all children ends. -/
def Started (serves : Visits → σ → Prop) (left : Fin size → Visits)
    (doc? : Option DocId) (reached : Alignment σ size) : Prop :=
  match doc? with
  | some doc => 0 < size ∧ ∃ ready lineup, reached = .running lineup ∧
      Lineup.Lists serves ready lineup ∧ Narrows left ready ∧
        lineup.Together doc
  | none => ∀ rule : Nearness, rule.allMatches left = []

variable {fails : Prop} {waits serves : Visits → σ → Prop}
  {target? : Option DocId} {all left : Fin size → Visits}

/-- Aligned children are ready, unless there are no matches. -/
theorem started_onLineup (filled : 0 < size) {lineup : Lineup σ size}
    {work : Attempt Failure (Lineup σ size) (Option DocId)}
    {failed : Failure → Lineup σ size → Prop}
    (aligned : work.Meets lineup (Lineup.Aligned serves left) failed) :
    (onLineup work).Meets (.running lineup) (Started serves left)
      (fun failure reached => ∃ further, reached = .running further ∧
        failed failure further) := by
  apply (meets_onLineup aligned).imp_answer
  rintro _ _ (⟨rfl, further, rfl, none⟩ | ⟨doc, further, rfl, rfl, found⟩)
  · exact none.allMatches_eq
  · obtain ⟨ready, lists, narrows, together⟩ := found
    exact ⟨filled, ready, further, rfl, lists, narrows, together⟩

/-- Cursors before their first visits are all still to be placed. -/
theorem exists_gathers [Cursor σ] (waits serves : Visits → σ → Prop)
    {opened : Vector σ size}
    (ready : ∀ child : Fin size,
      waits (all child) opened[child] ∧ (all child).Ordered) :
    ∃ gathering : Gathering σ size, ofCursors opened = .starting gathering ∧
      gathering.cursors = opened ∧
      ∀ target?, gathering.Gathers waits serves target? all := by
  refine ⟨_, rfl, rfl, fun target? => ⟨fun child => ?_,
    fun child => (ready child).2, fun child _ => (ready child).1,
    fun child span isPlaced => ?_⟩⟩
  · exact (Estimate.cheapestFirst_perm _ _).mem_iff.mpr (by simp)
  · simp at isPlaced

/-- Children that were not placed all are entered and aligned. -/
theorem started_start [Cursor σ]
    (enters : Cursor.Enters fails waits serves target?)
    (does : Serves fails serves) {gathering : Gathering σ size}
    (gathers : gathering.Gathers waits serves target? all) :
    (Alignment.start target?).Meets (.starting gathering)
      (Started serves fun child => (all child).sinceAny target?)
      (fun _ reached => fails ∧
        ((∃ further : Gathering σ size, reached = .starting further ∧
          further.Gathers waits serves target? all) ∨
          ∃ lineup, reached = .running lineup)) := by
  apply meets_starting
  refine (Gathering.gathers_placeAll enters gathers gathering.order).mono ?_
    fun _ placed ⟨mayFail, still⟩ => ⟨mayFail, .inl ⟨placed, rfl, still⟩⟩
  intro isAll placed met
  cases isAll with
  | false =>
      obtain ⟨child, none⟩ := met
      exact ⟨fun _ => (barren_of_eq_nil none).allMatches_eq, nofun, nofun⟩
  | true =>
      obtain ⟨further, isPlaced⟩ := met
      obtain ⟨lineup, isLineup, lists⟩ := further.lists fun child =>
        isPlaced child (.inl (gathers.order child))
      refine ⟨nofun, fun _ unplaced => ?_, fun _ other isOther => ?_⟩
      · cases unplaced.symm.trans isLineup
      · cases isOther.symm.trans isLineup
        by_cases filled : 0 < size
        · refine (started_onLineup filled ((Lineup.aligned_align does lists
            filled).mono (fun _ _ aligned => aligned.1)
              fun _ _ failed => failed)).imp_failure ?_
          rintro _ _ ⟨last, rfl, strained⟩
          exact ⟨strained.1, .inr ⟨last, rfl⟩⟩
        · refine (meets_onLineup (Lineup.meets_align_of_empty
            filled)).mono ?_ ?_
          · rintro _ _ (⟨rfl, _⟩ | ⟨_, _, rfl, _, isNone, _⟩)
            · exact fun rule => dif_neg filled
            · cases isNone
          · rintro _ _ ⟨_, _, failed⟩
            exact failed.elim

end Alignment

end PositionalSearch
