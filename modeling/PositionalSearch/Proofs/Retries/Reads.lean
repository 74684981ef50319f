import PositionalSearch.Proofs.Follow.Proximity
import PositionalSearch.Proofs.Follow.Walks
import PositionalSearch.Proofs.Retries.Passing
import PositionalSearch.Proofs.Window

/-!
# Nodes that are read again

A proximity node over terms is read again and again, whatever its reads come
to.  A read that fails when the pivot cannot be moved is made up for by the
next one.  A read that fails later has moved the pivot already, and the next
one moves it again: in order, the match is lost that starts with the span
passed so.
-/

namespace PositionalSearch

open Cursor (Follows Served Serves)

namespace Cursor

variable {σ : Type} [Cursor σ] {cursor reached : σ}

/-- Read a number of times, whatever the reads come to. -/
def read (count : Nat) (cursor : σ) : List Report × σ :=
  runs (List.replicate count .next) cursor

/-- Whether a read would fail. -/
def fails (cursor : σ) : Bool :=
  match (next cursor).1 with
  | .ok _ => false
  | .error _ => true

theorem fails_iff : fails cursor ↔
    ∃ failure reached, next cursor = (.error failure, reached) := by
  unfold fails
  cases went : (next : Attempt Failure σ _) cursor with
  | mk outcome reached => cases outcome <;> simp

/-- The first read is reported before the others. -/
theorem read_succ (count : Nat) {outcome : Except Failure (Option Span)}
    (went : next cursor = (outcome, reached)) :
    read (count + 1) cursor =
      (⟨.next, outcome.map .span, standing reached⟩ :: (read count reached).1,
        (read count reached).2) := by
  simp only [read, List.replicate_succ, runs,
    make_of_go (show go .next cursor = (outcome, reached) from went)]
  rfl

end Cursor

namespace Proximity

open Nearness
open Term (Persists Upon)

section

variable {size : Nat} {rule : Nearness} {filled : 0 < size}
  {node reached : Proximity (Term ScriptedPostings) size} {span : Span}
  {pivot : Fin size} {left : Fin size → Visits} {visits : Visits}

/-! ## What a node has to come -/

/-- The matches that a node has to come, whatever failed before. -/
inductive Awaits (rule : Nearness) :
    Visits → Proximity (Term ScriptedPostings) size → Prop
  /-- Not all of the children were placed. -/
  | entering {node : Proximity (Term ScriptedPostings) size}
      {all : Fin size → Visits}
      {gathering : Gathering (Term ScriptedPostings) size}
      (unstarted : node.standing = .unstarted)
      (same : node.nearness = rule)
      (starting : node.alignment = .starting gathering)
      (gathers : gathering.Gathers (Persists none) Upon none all) :
      Awaits rule (rule.allMatches all) node
  /-- The children were placed, but there was no match: no read answers. -/
  | stuck {node : Proximity (Term ScriptedPostings) size}
      {lineup : Lineup (Term ScriptedPostings) size} (visits : Visits)
      (unstarted : node.standing = .unstarted)
      (running : node.alignment = .running lineup) : Awaits rule visits node
  /-- On a match; in order, the first child goes on after it. -/
  | going {node : Proximity (Term ScriptedPostings) size} {filled : 0 < size}
      {span : Span} {pivot : Fin size} {left : Fin size → Visits}
      (stands : Stands rule filled Upon span pivot left node)
      (after : rule.arrangement = .inOrder →
        ∀ visit ∈ (left pivot).tail, visit.StartsAfter span) :
      Awaits rule (remaining rule filled span pivot left) node
  | ended {node : Proximity (Term ScriptedPostings) size}
      (exhausted : node.standing = .exhausted) : Awaits rule [] node

/-- Whether the pivot cannot be moved, if there is a match to go on from. -/
def pivotFails {σ : Type} [Cursor σ] (node : Proximity σ size) : Bool :=
  match node.alignment, node.pivot? with
  | .running lineup, some pivot => Cursor.fails lineup.cursors[pivot]
  | _, _ => true

/-- A read that fails does so when the pivot is moved, before the others. -/
def FailsAtPivot {σ : Type} [Cursor σ] (node : Proximity σ size) : Prop :=
  Cursor.fails node → node.pivotFails

instance {σ : Type} [Cursor σ] (node : Proximity σ size) :
    Decidable (FailsAtPivot node) :=
  inferInstanceAs (Decidable (_ → _))

/-- A read fails and leaves the first child on the span a match starts with. -/
def BreaksOffAt {σ : Type} [Cursor σ] (span : Span)
    (node : Proximity σ size) : Prop :=
  ∃ failure reached lineup, Cursor.next node = (.error failure, reached) ∧
    reached.alignment = .running lineup ∧
      ∃ filled : 0 < size, span.StartsWith lineup.heads[0]

/-- What a read that answers has taken is the first of what was to come. -/
theorem Yields.awaits {span? : Option Span}
    (yields : Yields rule True Upon visits span? reached) :
    span? = visits.head?.map Visit.span ∧
      Awaits rule visits.tail reached := by
  cases span? with
  | none =>
      obtain ⟨exhausted, rfl⟩ := yields
      exact ⟨rfl, .ended exhausted⟩
  | some span =>
      obtain ⟨filled, visit, pivot, left, rfl, _, stands, inDoc, starts, rfl⟩ :=
        yields
      refine ⟨rfl, .going stands fun _ later isLater => ?_⟩
      obtain ⟨lineup, _, lists⟩ := stands.lineup
      obtain ⟨first, rest, isLeft, _⟩ := lists.exists_eq_cons pivot
      have isFirst : (left pivot).head? = some first := by
        rw [isLeft]
        rfl
      rw [isFirst, Option.any_some, decide_eq_true_eq] at inDoc
      exact Visits.startsAfter_of_mem_tail (by rw [isFirst]; rfl)
        (lists.ordered pivot) (fun _ => (lists.served pivot).isToken)
        ⟨inDoc.symm, (starts first isFirst).symm⟩ isLater

/-! ## One read -/

/-- A read that may go on comes to what resuming and searching comes to. -/
theorem meets_next_of_goes {σ : Type} [Cursor σ] {node : Proximity σ size}
    {answered : Option Span → Proximity σ size → Prop}
    {failed : Failure → Proximity σ size → Prop}
    (goes : node.standing.planNext = .ok true)
    (met : (do settle (← resume) : Attempt Failure (Proximity σ size) _).Meets
      node answered failed) :
    (Cursor.next : Attempt Failure (Proximity σ size) _).Meets node answered
      failed := by
  simp only [Cursor.next, Proximity.next, Attempt.meets_bind,
    Attempt.meets_look, goes, Attempt.meets_ofExcept_ok] at met ⊢
  exact met

/-- Children that were not all placed are placed, or that is tried again. -/
theorem Awaits.meets_entering {all : Fin size → Visits}
    {gathering : Gathering (Term ScriptedPostings) size}
    (unstarted : node.standing = .unstarted) (same : node.nearness = rule)
    (starting : node.alignment = .starting gathering)
    (gathers : gathering.Gathers (Persists none) Upon none all) :
    (Cursor.next : Attempt Failure (Proximity _ size) _).Meets node
      (fun span? reached =>
        span? = (rule.allMatches all).head?.map Visit.span ∧
          Awaits rule (rule.allMatches all).tail reached)
      (fun _ reached => Awaits rule (rule.allMatches all) reached) := by
  apply meets_next_of_goes (by rw [unstarted]; rfl)
  simp only [resume, Attempt.meets_bind, Attempt.meets_look, starting]
  refine (readied_start Term.enters_upon Term.serves_upon starting gathers
    unstarted same).mono ?_ ?_
  · intro doc? middle readied
    refine (yields_settle Term.serves_upon (fun _ => .inl trivial)
      readied).mono (fun _ _ yields => yields.awaits) ?_
    rintro _ stopped ⟨_, doc, filled, left, lineup, _, stays, _, last, running,
      _⟩
    refine .stuck _ ?_ running
    rw [stays, readied.1, unstarted]
  · rintro _ _ ⟨_, ⟨further, rfl, still⟩ | ⟨lineup, rfl⟩⟩
    · exact .entering unstarted same rfl still
    · exact .stuck _ unstarted rfl

/-- A pivot that cannot be moved makes the read fail before all else. -/
theorem meets_next_of_pivot_fails {σ : Type} [Cursor σ]
    {node : Proximity σ size} {lineup : Lineup σ size} {failure : Failure}
    {cursor : σ} (isOn : node.standing = .on span)
    (isPivot : node.pivot? = some pivot)
    (running : node.alignment = .running lineup)
    (failed : Cursor.next lineup.cursors[pivot] = (.error failure, cursor)) :
    (Cursor.next : Attempt Failure (Proximity σ size) _).Meets node
      (fun _ _ => False)
      (fun _ reached => reached =
        { node with alignment := .running (lineup.keep pivot cursor) }) := by
  have advanced : Lineup.advance pivot lineup =
      (.error failure, lineup.keep pivot cursor) := by
    simp only [Lineup.advance, Lineup.move, failed]
  have stopped : (Lineup.resume pivot span.doc).Meets lineup
      (fun _ _ => False)
      (fun _ reached => reached = lineup.keep pivot cursor) := by
    simp only [Lineup.resume, Attempt.meets_bind]
    exact (Attempt.meets_of_error advanced).mpr rfl
  apply meets_next_of_goes (by rw [isOn]; rfl)
  simp only [resume, Attempt.meets_bind, Attempt.meets_look, running, isOn,
    isPivot, Standing.doc, Attempt.meets_ofExcept_ok,
    Attempt.meets_ofOption_some, aligning, Attempt.meets_within]
  refine (Alignment.meets_onLineup stopped).mono ?_ ?_
  · rintro _ _ (⟨_, _, _, none⟩ | ⟨_, _, _, _, none⟩)
    · exact none.elim
    · exact none.elim
  · rintro _ _ ⟨_, rfl, rfl⟩
    rfl

/-- After a read that failed at the pivot no match is lost. -/
theorem Awaits.of_failsAtPivot {failure : Failure}
    (stands : Stands rule filled Upon span pivot left node)
    (after : rule.arrangement = .inOrder →
      ∀ visit ∈ (left pivot).tail, visit.StartsAfter span)
    (fails : FailsAtPivot node)
    (went : Cursor.next node = (.error failure, reached)) :
    Awaits rule (remaining rule filled span pivot left) reached := by
  obtain ⟨lineup, running, lists⟩ := stands.lineup
  have pivotFails := fails (Cursor.fails_iff.mpr ⟨failure, reached, went⟩)
  simp only [Proximity.pivotFails, running, stands.isPivot] at pivotFails
  obtain ⟨_, cursor, failed⟩ := Cursor.fails_iff.mp pivotFails
  have same := (meets_next_of_pivot_fails stands.standing stands.isPivot
    running failed).of_error went
  obtain ⟨visit, rest, isLeft, _⟩ := lists.exists_eq_cons pivot
  have served := lists.served pivot
  have ordered := lists.ordered pivot
  rw [isLeft] at served ordered
  have still := (Term.serves_upon.next served ordered).of_error failed
  have listsOn := lists.keep pivot still.2 (by rw [isLeft]) ordered
  rw [← isLeft, Function.update_eq_self] at listsOn
  rw [same]
  exact .going ⟨stands.standing, stands.nearness, stands.isPivot,
    stands.isFirst, stands.since, _, rfl, listsOn⟩ after

/-- After a failed read no match is lost but one the first child starts. -/
def Sheds (rule : Nearness) (visits : Visits)
    (reached : Proximity (Term ScriptedPostings) size) : Prop :=
  ∃ kept, Awaits rule kept reached ∧ (kept = visits ∨
    ∃ lineup, reached.alignment = .running lineup ∧
      ∃ _ : 0 < size, Loses lineup.heads[0] visits kept)

/-- The next read moves the first child on, and with it goes what it starts. -/
theorem sheds_of_loses (inOrder : rule.arrangement = .inOrder)
    {lineup : Lineup (Term ScriptedPostings) size}
    (stands : Stands rule filled Upon span ⟨0, filled⟩ left node)
    (after : ∀ visit ∈ (left ⟨0, filled⟩).tail, visit.StartsAfter span)
    (running : node.alignment = .running lineup)
    (loses : Loses lineup.heads[0] visits
      (rule.allMatches (pass ⟨0, filled⟩ left))) :
    Sheds rule visits node := by
  obtain ⟨_, _, lists⟩ := stands.lineup
  have passes := passes_pass ⟨0, filled⟩ left
  have whole : remaining rule filled span ⟨0, filled⟩ left =
      rule.allMatches (pass ⟨0, filled⟩ left) := by
    apply prospects_of_startsAfter inOrder
    · exact fun child => (lists.ordered child).sublist (passes child)
    · exact passes.from stands.since
    · rw [pass_self]
      exact after
  refine ⟨_, .going stands fun _ => after, .inr ⟨lineup, running, filled, ?_⟩⟩
  rw [whole]
  exact loses

/-- The first child was moved, but nothing was tried with the others. -/
theorem sheds_of_passed (inOrder : rule.arrangement = .inOrder)
    (stands : Stands rule filled Upon span ⟨0, filled⟩ left node)
    (after : ∀ visit ∈ left ⟨0, filled⟩, visit.StartsAfter span) :
    Sheds rule (rule.allMatches left) node := by
  obtain ⟨lineup, running, lists⟩ := stands.lineup
  obtain ⟨first, rest, isLeft, isHead⟩ := lists.exists_eq_cons ⟨0, filled⟩
  apply sheds_of_loses inOrder stands _ running
  · have loses := loses_pass inOrder lists.ordered
      (fun child _ => (lists.served child).isToken) isLeft
    rw [isHead] at loses
    exact loses
  · exact fun visit member => after visit (List.mem_of_mem_tail member)

/-- What was passed before a search failed was tried, but for the first span. -/
theorem sheds_of_broken (inOrder : rule.arrangement = .inOrder)
    {before : Fin size → Visits} {doc : DocId}
    {lineup : Lineup (Term ScriptedPostings) size}
    (after : ∀ visit ∈ before ⟨0, filled⟩, visit.StartsAfter span)
    (since : From span.doc before)
    (isOn : node.standing = .on span)
    (isPivot : node.pivot? = some ⟨0, filled⟩)
    (ready : Ready rule filled Upon (some span) before visits doc left lineup)
    (broken : Broken rule filled Upon doc left node reached) :
    Sheds rule visits reached := by
  have isLast : node.standing.span? = some span := by
    rw [isOn]
    rfl
  obtain ⟨stays, same, last, running, broken⟩ := broken
  have earlier := ready.earlier span rfl
  have outlook := ready.outlook
  rw [isLast] at broken
  rcases broken with ⟨unmoved, passed, passes, lists, kept⟩ |
    ⟨found, isFound, lined, finds⟩
  · have isAfter := fun visit member =>
      after visit ((ready.passes.trans passes _).subset member)
    have stands : Stands rule filled Upon span ⟨0, filled⟩ passed reached :=
      ⟨stays.trans isOn, same, unmoved.trans isPivot, fun _ => rfl,
        (ready.passes.trans passes).from since, last, running, lists⟩
    have all : rule.allMatches passed = visits := by
      rcases kept with skips | ⟨none, _, rest⟩
      · rw [← outlook, ← skips.outlook_eq]
        exact (outlook_of_startsAfter inOrder lists.ordered
          (passes.from ready.since) earlier isAfter).symm
      · rw [← outlook, rest, Nearness.outlook, none, List.nil_append]
    rw [← all]
    exact sheds_of_passed inOrder stands isAfter
  · have isFirst := finds.leads inOrder
    rw [isFirst] at isFound
    have stands : Stands rule filled Upon span ⟨0, filled⟩ lined.left reached :=
      ⟨stays.trans isOn, same, isFound, fun _ => rfl,
        (ready.passes.trans finds.passes).from since, last, running,
        finds.lists⟩
    have starts : found.span.StartsWith last.heads[0] := by
      have inDoc := finds.pivotIn
      have sameStart := finds.starts
      simp only [isFirst] at inDoc sameStart
      exact ⟨inDoc.symm, sameStart.symm⟩
    have further : ∀ visit ∈ (lined.left ⟨0, filled⟩).tail,
        visit.StartsAfter found.span := fun visit member =>
      Visits.startsAfter_of_mem_tail (finds.lists.heads ⟨0, filled⟩)
        (finds.lists.ordered _) (fun _ => (finds.lists.served _).isToken)
        starts member
    have rest : rule.prospects filled found.span.doc (some found.span)
        found.pivot (pass found.pivot lined.left) =
          rule.allMatches (pass ⟨0, filled⟩ lined.left) := by
      have passes := passes_pass ⟨0, filled⟩ lined.left
      rw [isFirst]
      apply prospects_of_startsAfter inOrder
      · exact fun child => (finds.lists.ordered child).sublist (passes child)
      · exact passes.from finds.since
      · rw [pass_self]
        exact further
    apply sheds_of_loses inOrder stands _ running
    · rw [← outlook, finds.outlook, rest]
      exact .of_cons _ starts
    · intro visit member
      exact after visit ((ready.passes.trans finds.passes _).subset
        (List.mem_of_mem_tail member))

/-- A read of a node on a match. -/
theorem Awaits.meets_going
    (stands : Stands rule filled Upon span pivot left node)
    (after : rule.arrangement = .inOrder →
      ∀ visit ∈ (left pivot).tail, visit.StartsAfter span) :
    (Cursor.next : Attempt Failure (Proximity _ size) _).Meets node
      (fun span? reached =>
        span? = (remaining rule filled span pivot left).head?.map
          Visit.span ∧
        Awaits rule (remaining rule filled span pivot left).tail reached)
      (fun _ reached => rule.arrangement = .inOrder →
        Sheds rule (remaining rule filled span pivot left) reached) := by
  have isOn := stands.standing
  have passes := passes_pass pivot left
  apply meets_next_of_goes (by rw [isOn]; rfl)
  simp only [Attempt.meets_bind]
  refine (readied_resume Term.serves_upon stands).mono ?_ ?_
  · intro doc? middle readied
    have readiedFor := readied
    obtain ⟨stays, _, unmoved, _⟩ := readiedFor
    refine (yields_settle Term.serves_upon (fun _ => .inl trivial)
      readied).mono (fun _ _ yields => yields.awaits) ?_
    rintro _ stopped ⟨_, doc, _, searched, lineup, ready, broken⟩ inOrder
    cases stands.isFirst inOrder
    rw [isOn] at ready
    apply sheds_of_broken inOrder _ (passes.from stands.since)
      (stays.trans isOn) (unmoved.trans stands.isPivot) ready broken
    rw [pass_self]
    exact after inOrder
  · rintro _ stopped ⟨_, ready, still, unmoved | ⟨past, narrows⟩⟩ inOrder
    · rw [unmoved] at still
      exact ⟨_, .going still after, .inl rfl⟩
    · cases stands.isFirst inOrder
      obtain ⟨_, _, lists⟩ := stands.lineup
      have isAfter : ∀ visit ∈ pass ⟨0, filled⟩ left ⟨0, filled⟩,
          visit.StartsAfter span := by
        rw [pass_self]
        exact after inOrder
      have ordered := fun child => (lists.ordered child).sublist (passes child)
      have whole : remaining rule filled span ⟨0, filled⟩ left =
          rule.allMatches ready := by
        rw [narrows.allMatches_eq ordered]
        exact prospects_of_startsAfter inOrder ordered
          (passes.from stands.since) isAfter
      rw [whole]
      apply sheds_of_passed inOrder still
      exact fun visit member =>
        isAfter visit ((narrows.passes _).subset member)

/-- A node without a match, its children placed, cannot be read. -/
theorem Awaits.meets_stuck {lineup : Lineup (Term ScriptedPostings) size}
    {answered : Option Span → Proximity (Term ScriptedPostings) size → Prop}
    (visits : Visits) (unstarted : node.standing = .unstarted)
    (running : node.alignment = .running lineup) :
    (Cursor.next : Attempt Failure (Proximity _ size) _).Meets node answered
      (fun _ reached => Awaits rule visits reached) := by
  apply meets_next_of_goes (by rw [unstarted]; rfl)
  simp only [resume, Attempt.meets_bind, Attempt.meets_look, running,
    unstarted, Standing.doc, Attempt.meets_ofExcept_error]
  exact .stuck visits unstarted running

/--
A read takes the first match to come.  If it fails none is lost where it fails
at the pivot, and in order at most one that starts where the first child is.
-/
theorem Awaits.meets_next (awaits : Awaits rule visits node) :
    (Cursor.next : Attempt Failure (Proximity _ size) _).Meets node
      (fun span? reached => span? = visits.head?.map Visit.span ∧
        Awaits rule visits.tail reached)
      (fun _ reached => (FailsAtPivot node → Awaits rule visits reached) ∧
        (rule.arrangement = .inOrder → Sheds rule visits reached)) := by
  have unchanged : ∀ {visits : Visits}
      {reached : Proximity (Term ScriptedPostings) size},
      Awaits rule visits reached →
        (FailsAtPivot node → Awaits rule visits reached) ∧
          (rule.arrangement = .inOrder → Sheds rule visits reached) :=
    fun still => ⟨fun _ => still, fun _ => ⟨_, still, .inl rfl⟩⟩
  cases awaits with
  | entering unstarted same starting gathers =>
      exact (meets_entering unstarted same starting gathers).imp_failure
        fun _ _ still => unchanged still
  | stuck visits unstarted running =>
      exact (meets_stuck visits unstarted running).imp_failure
        fun _ _ still => unchanged still
  | ended exhausted =>
      simp only [Cursor.next, Proximity.next, Attempt.meets_bind,
        Attempt.meets_look, exhausted, Standing.planNext,
        Attempt.meets_ofExcept_ok, Attempt.meets_pure]
      exact ⟨rfl, .ended exhausted⟩
  | going stands after =>
      have met := meets_going stands after
      cases went : (Cursor.next : Attempt Failure (Proximity _ size) _)
          node with
      | mk outcome reached =>
          cases outcome with
          | ok span? =>
              exact (Attempt.meets_of_ok went).mpr (met.of_ok went)
          | error failure =>
              refine (Attempt.meets_of_error went).mpr ⟨?_, met.of_error went⟩
              exact fun fails => of_failsAtPivot stands after fails went

/-! ## Reading again and again -/

/--
If reads only fail at the pivot, they answer the first of the matches to come,
and all of them once they have ended.
-/
theorem Awaits.isPrefix_read (count : Nat) (awaits : Awaits rule visits node)
    (fails : ∀ earlier < count, FailsAtPivot (Cursor.read earlier node).2) :
    (Cursor.read count node).1.filterMap Report.span? <+:
        visits.map Visit.span ∧
      ((∃ report ∈ (Cursor.read count node).1, report.Ended) →
        (Cursor.read count node).1.filterMap Report.span? =
          visits.map Visit.span) := by
  induction count generalizing node visits with
  | zero =>
      refine ⟨List.nil_prefix, ?_⟩
      rintro ⟨report, isReport, _⟩
      exact absurd isReport List.not_mem_nil
  | succ count ih =>
      cases went : (Cursor.next : Attempt Failure (Proximity _ size) _)
          node with
      | mk outcome reached =>
          have further : ∀ earlier < count,
              FailsAtPivot (Cursor.read earlier reached).2 := by
            intro earlier before
            have fails := fails (earlier + 1) (Nat.succ_lt_succ before)
            rw [Cursor.read_succ earlier went] at fails
            exact fails
          rw [Cursor.read_succ count went]
          cases outcome with
          | error failure =>
              have still := (awaits.meets_next.of_error went).1
                (fails 0 (Nat.succ_pos count))
              simp only [Except.map, List.filterMap_cons, Report.span?_error,
                List.exists_mem_cons_iff, Report.ended_error, false_or]
              exact ih still further
          | ok span? =>
              obtain ⟨rfl, goesOn⟩ := awaits.meets_next.of_ok went
              obtain ⟨isPrefix, ended⟩ := ih goesOn further
              cases visits with
              | nil =>
                  have none := List.prefix_nil.mp isPrefix
                  simp only [Except.map, List.filterMap_cons, Report.span?_ok,
                    Reached.span?, List.head?_nil, Option.map_none, none,
                    List.map_nil]
                  exact ⟨List.nil_prefix, fun _ => trivial⟩
              | cons visit rest =>
                  simp only [Except.map, List.filterMap_cons, Report.span?_ok,
                    Reached.span?, List.head?_cons, Option.map_some,
                    List.exists_mem_cons_iff, Report.ended_ok, reduceCtorEq,
                    false_or, List.map_cons, List.cons_prefix_cons,
                    List.cons.injEq, true_and]
                  exact ⟨isPrefix, ended⟩

/--
In order, reads answer some of the matches to come, whatever fails; once they
have ended, only matches are missing that started with a span on which a failed
read left the first child.
-/
theorem Awaits.sublist_read (inOrder : rule.arrangement = .inOrder)
    (count : Nat) (awaits : Awaits rule visits node) :
    ((Cursor.read count node).1.filterMap Report.span?).Sublist
        (visits.map Visit.span) ∧
      ((∃ report ∈ (Cursor.read count node).1, report.Ended) →
        ∀ span ∈ visits.map Visit.span,
          span ∈ (Cursor.read count node).1.filterMap Report.span? ∨
            ∃ earlier < count,
              BreaksOffAt span (Cursor.read earlier node).2) := by
  induction count generalizing node visits with
  | zero =>
      refine ⟨List.nil_sublist _, ?_⟩
      rintro ⟨report, isReport, _⟩
      exact absurd isReport List.not_mem_nil
  | succ count ih =>
      cases went : (Cursor.next : Attempt Failure (Proximity _ size) _)
          node with
      | mk outcome reached =>
          have breaksLater : ∀ span,
              (∃ earlier < count,
                BreaksOffAt span (Cursor.read earlier reached).2) →
                ∃ earlier < count + 1,
                  BreaksOffAt span (Cursor.read earlier node).2 := by
            rintro span ⟨earlier, before, breaks⟩
            refine ⟨earlier + 1, Nat.succ_lt_succ before, ?_⟩
            rw [Cursor.read_succ earlier went]
            exact breaks
          rw [Cursor.read_succ count went]
          cases outcome with
          | error failure =>
              obtain ⟨kept, still, loses⟩ :=
                (awaits.meets_next.of_error went).2 inOrder
              obtain ⟨sublist, ended⟩ := ih still
              simp only [Except.map, List.filterMap_cons, Report.span?_error,
                List.exists_mem_cons_iff, Report.ended_error, false_or]
              rcases loses with rfl | ⟨lineup, running, filled, loses⟩
              · refine ⟨sublist, fun isEnd span member => ?_⟩
                exact (ended isEnd span member).imp_right (breaksLater span)
              · refine ⟨sublist.trans loses.sublist, fun isEnd span member => ?_⟩
                rcases loses.starts span member with isKept | starts
                · exact (ended isEnd span isKept).imp_right (breaksLater span)
                · exact .inr ⟨0, Nat.succ_pos count, failure, reached, lineup,
                    went, running, filled, starts⟩
          | ok span? =>
              obtain ⟨rfl, goesOn⟩ := awaits.meets_next.of_ok went
              obtain ⟨sublist, ended⟩ := ih goesOn
              cases visits with
              | nil =>
                  have none := List.sublist_nil.mp sublist
                  simp only [Except.map, List.filterMap_cons, Report.span?_ok,
                    Reached.span?, List.head?_nil, Option.map_none, none,
                    List.map_nil]
                  exact ⟨List.nil_sublist _, fun _ span member =>
                    absurd member List.not_mem_nil⟩
              | cons visit rest =>
                  simp only [Except.map, List.filterMap_cons, Report.span?_ok,
                    Reached.span?, List.head?_cons, Option.map_some,
                    List.exists_mem_cons_iff, Report.ended_ok,
                    reduceCtorEq, false_or, List.map_cons]
                  refine ⟨sublist.cons_cons _, fun isEnd span member => ?_⟩
                  rcases List.mem_cons.mp member with rfl | later
                  · exact .inl List.mem_cons_self
                  · exact (ended isEnd span later).imp
                      (List.mem_cons_of_mem _) (breaksLater span)

/-! ## Terms whose reads fail -/

/-- The same terms, with no fault planned for any call. -/
def withoutFaults (sources : Vector (Script × List Occurrence) size) :
    Vector (Script × List Occurrence) size :=
  sources.map fun (script, occurrences) =>
    ({ script with faults := [] }, occurrences)

/-- What the terms yield. -/
def visitsOf (sources : Vector (Script × List Occurrence) size) :
    Fin size → Visits :=
  fun child => Occurrence.visits sources[child].2

variable {sources : Vector (Script × List Occurrence) size}

theorem awaits_scriptedTerms (rule : Nearness)
    (plain : ∀ child : Fin size, sources[child].1.frequencies = []) :
    Awaits rule (rule.allMatches (visitsOf sources))
      (ofCursors rule.arrangement rule.slop rule.collects
        (scriptedTerms sources)) := by
  have ready : ∀ child : Fin size,
      Persists none (visitsOf sources child) (scriptedTerms sources)[child] ∧
        (visitsOf sources child).Ordered := by
    intro child
    simp only [scriptedTerms, getElem_place, Vector.getElem_map]
    exact ⟨Term.persists_ofPostings (plain child) _,
      Occurrence.ordered_visits _⟩
  obtain ⟨gathering, isStarting, _, gathers⟩ :=
    Alignment.exists_gathers (Persists none) Upon ready
  exact .entering rfl rfl isStarting (gathers none)

theorem drain_withoutFaults (rule : Nearness)
    (plain : ∀ child : Fin size, sources[child].1.frequencies = []) :
    Walk.drain (ofCursors rule.arrangement rule.slop rule.collects
        (scriptedTerms (withoutFaults sources))) =
      .ok ((rule.allMatches (visitsOf sources)).map Visit.span) := by
  apply Walk.drain_eq
  · apply follows_ofCursors
    intro child
    refine ⟨?_, Occurrence.ordered_visits _⟩
    simp only [scriptedTerms, withoutFaults, getElem_place,
      Vector.getElem_map]
    apply Term.follows_scripted
    · rfl
    · exact plain child
  · exact ordered_allMatches fun child => Occurrence.ordered_visits _

/--
A node that is read until it ends, whatever its terms fail to read, answers
what it would have answered without failures, if each read that failed did so
at the pivot.  In order it answers no more than that in any case, and all but
matches that start with a span on which a failed read left the first child.
-/
theorem retries_answer_matches (arrangement : Arrangement) (slop : Nat)
    (collects : Bool) (sources : Vector (Script × List Occurrence) size)
    (plain : ∀ child : Fin size, sources[child].1.frequencies = [])
    (count : Nat) :
    let node := ofCursors arrangement slop collects (scriptedTerms sources)
    let reports := (Cursor.read count node).1
    let answered := reports.filterMap Report.span?
    ∃ spans,
      Walk.drain (ofCursors arrangement slop collects
        (scriptedTerms (withoutFaults sources))) = .ok spans ∧
      ((∀ earlier < count, FailsAtPivot (Cursor.read earlier node).2) →
        answered <+: spans ∧
          ((∃ report ∈ reports, report.Ended) → answered = spans)) ∧
      (arrangement = .inOrder →
        answered.Sublist spans ∧
          ((∃ report ∈ reports, report.Ended) → ∀ span ∈ spans,
            span ∈ answered ∨ ∃ earlier < count,
              BreaksOffAt span (Cursor.read earlier node).2)) := by
  have awaits := awaits_scriptedTerms ⟨arrangement, slop, collects⟩ plain
  refine ⟨_, drain_withoutFaults ⟨arrangement, slop, collects⟩ plain, ?_, ?_⟩
  · exact awaits.isPrefix_read count
  · exact fun inOrder => awaits.sublist_read inOrder count

end

/-- Two terms; a position of the first cannot be read at first. -/
def retriedTerms : Vector (Script × List Occurrence) 2 :=
  #v[(⟨[⟨.nextPosition, 2, ⟨.interrupted, "transient"⟩⟩], [], none⟩,
      [⟨1, 0, none⟩, ⟨1, 4, none⟩, ⟨1, 10, none⟩]),
    (⟨[], [], none⟩, [⟨1, 1, none⟩, ⟨1, 5, none⟩])]

/-- The second read fails at the pivot, and the third one makes up for it. -/
theorem retried_match_answered :
    (∀ child : Fin 2, retriedTerms[child].1.frequencies = []) ∧
    Cursor.fails (Cursor.read 1
      (ofCursors .inOrder 0 false (scriptedTerms retriedTerms))).2 ∧
    (∀ earlier < 4, FailsAtPivot (Cursor.read earlier
      (ofCursors .inOrder 0 false (scriptedTerms retriedTerms))).2) ∧
    (Cursor.read 4 (ofCursors .inOrder 0 false
      (scriptedTerms retriedTerms))).1.filterMap Report.span? =
        [⟨1, 0, 2, by decide⟩, ⟨1, 4, 6, by decide⟩] ∧
    Walk.drain (ofCursors .inOrder 0 false
        (scriptedTerms (withoutFaults retriedTerms))) =
      .ok [⟨1, 0, 2, by decide⟩, ⟨1, 4, 6, by decide⟩] := by
  have plain : ∀ child : Fin 2, retriedTerms[child].1.frequencies = [] := by
    decide
  have fails : ∀ earlier < 4, FailsAtPivot (Cursor.read earlier
      (ofCursors .inOrder 0 false (scriptedTerms retriedTerms))).2 := by
    intro earlier before
    match earlier with
    | 0 => exact of_decide_eq_true (by cbv)
    | 1 => exact of_decide_eq_true (by cbv)
    | 2 => exact of_decide_eq_true (by cbv)
    | 3 => exact of_decide_eq_true (by cbv)
  have ends : (Cursor.read 4 (ofCursors .inOrder 0 false
      (scriptedTerms retriedTerms))).1.getLast? =
        some ⟨.next, .ok (.span none), .exhausted⟩ := by
    cbv
  have answered : (Cursor.read 4 (ofCursors .inOrder 0 false
      (scriptedTerms retriedTerms))).1.filterMap Report.span? =
        [⟨1, 0, 2, by decide⟩, ⟨1, 4, 6, by decide⟩] := by
    cbv
  obtain ⟨spans, drained, kept, _⟩ :=
    retries_answer_matches .inOrder 0 false retriedTerms plain 4
  have whole := (kept fails).2
    ⟨_, List.mem_of_getLast? ends, Report.ended_ok.mpr rfl⟩
  refine ⟨plain, by cbv, fails, answered, ?_⟩
  rw [drained, ← whole, answered]

/-- Two terms; a position of the second cannot be read at first. -/
def overtakenTerms : Vector (Script × List Occurrence) 2 :=
  #v[(⟨[], [], none⟩, [⟨1, 0, none⟩, ⟨1, 4, none⟩, ⟨1, 10, none⟩]),
    (⟨[⟨.nextPosition, 2, ⟨.interrupted, "transient"⟩⟩], [], none⟩,
      [⟨1, 1, none⟩, ⟨1, 5, none⟩])]

/--
The second read moves the first term on and fails with the second one.  The
third moves the first term on again, past the match that was being looked for.
-/
theorem overtaken_match_lost :
    (∀ child : Fin 2, overtakenTerms[child].1.frequencies = []) ∧
    (∃ report ∈ (Cursor.read 4 (ofCursors .inOrder 0 false
      (scriptedTerms overtakenTerms))).1, report.Ended) ∧
    (Cursor.read 4 (ofCursors .inOrder 0 false
      (scriptedTerms overtakenTerms))).1.filterMap Report.span? =
        [⟨1, 0, 2, by decide⟩] ∧
    Walk.drain (ofCursors .inOrder 0 false
        (scriptedTerms (withoutFaults overtakenTerms))) =
      .ok [⟨1, 0, 2, by decide⟩, ⟨1, 4, 6, by decide⟩] := by
  have ends : (Cursor.read 4 (ofCursors .inOrder 0 false
      (scriptedTerms overtakenTerms))).1.getLast? =
        some ⟨.next, .ok (.span none), .exhausted⟩ := by
    cbv
  refine ⟨by decide, ⟨_, List.mem_of_getLast? ends, ?_⟩, by cbv, by cbv⟩
  exact Report.ended_ok.mpr rfl

end Proximity

end PositionalSearch
