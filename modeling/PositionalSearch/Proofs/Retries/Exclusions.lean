import PositionalSearch.Proofs.Order.Query
import PositionalSearch.Proofs.Retries.Reads
import PositionalSearch.Proofs.SetOperations

/-!
# Exclusions whose children fail

A node that leaves out what clashes is moved again and again, whatever its
moves come to.  What the excluded child has pending decides every test to come
as all excluded spans would, so nothing that clashes is ever answered.  But
the included child is moved before the test, and a test that fails leaves it
on a span which the next read passes: of the spans that clash with nothing,
exactly these are lost.
-/

namespace PositionalSearch

open Cursor (Orderly Advances Follows Seeks Served Serves Under)

/-! ## Conflicts with occurrences -/

namespace Clash

variable {clash : Clash} {span : Span}

/-- No span that is not barred is in conflict with one of the visits. -/
theorem not_conflicts_of_bars {all : Visits}
    (free : clash.bars all span = false) {visit : Visit}
    (member : visit ∈ all) : ¬ clash.Conflicts span visit.span := by
  intro conflicts
  have clear := List.any_eq_false.mp free visit member
  exact clear (between_iff.mpr conflicts)

/-- A span in conflict with an occurrence is so with what the term yields. -/
theorem exists_conflict {occurrences : List Occurrence}
    {occurrence : Occurrence} (member : occurrence ∈ occurrences)
    (conflicts : clash.Conflicts span occurrence.span) :
    ∃ visit ∈ Occurrence.visits occurrences,
      clash.Conflicts span visit.span := by
  obtain ⟨visit, isVisit, sameDoc, same | last⟩ :=
    Occurrence.exists_visit member
  · exact ⟨visit, isVisit, same ▸ conflicts⟩
  · cases clash with
    | inDocument =>
        have inDoc : occurrence.span.doc = span.doc := conflicts
        rw [Occurrence.span, Span.doc_ofToken] at inDoc
        exact ⟨visit, isVisit, sameDoc.trans inDoc⟩
    | overlap before behind =>
        -- No span overlaps the empty one after the last position.
        obtain ⟨_, _, starts⟩ := conflicts
        simp only [Occurrence.span, Span.start_ofToken] at starts
        simp only [StoredPostings.frequencyLimit, UInt32.size] at last
        omega

end Clash

namespace Without

/-! ## Nothing that clashes is answered -/

section

variable {ι σ : Type} [Cursor σ] {disturb : ι → σ → σ} {fails : Prop}
  {waits serves : Visits → σ → Prop} {clash : Clash} {all : Visits}
  {last? : Option Span} {node : Without σ}

/--
The included child goes on in order, and what is pending clashes with all that
it has to come as all the excluded visits do.
-/
structure Guarded (disturb : ι → σ → σ) (waits serves : Visits → σ → Prop)
    (clash : Clash) (all : Visits) (last? : Option Span) (node : Without σ) :
    Prop where
  same : node.clash = clash
  included : Orderly disturb last? node.included
  pends : ∃ pending, Pending waits serves pending node ∧
    ∀ span, (∀ last ∈ last?, last ≤ span) →
      clash.bars pending span = clash.bars all span

/-- The answer clashes with nothing, and the node is still guarded. -/
def Clears (disturb : ι → σ → σ) (waits serves : Visits → σ → Prop)
    (clash : Clash) (all : Visits) (span? : Option Span)
    (reached : Without σ) : Prop :=
  (∀ span ∈ span?, clash.bars all span = false) ∧
    ∃ last?, Guarded disturb waits serves clash all last? reached

/-- A node is guarded wherever it stands. -/
theorem Guarded.standing
    (guarded : Guarded disturb waits serves clash all last? node)
    (standing : Standing) :
    Guarded disturb waits serves clash all last?
      { node with standing := standing } :=
  ⟨guarded.same, guarded.included, guarded.pends⟩

/-- When the included child has moved on, the node is guarded from there on. -/
theorem Guarded.moved
    (guarded : Guarded disturb waits serves clash all last? node)
    {child : σ} {later? : Option Span} (orderly : Orderly disturb later? child)
    (further : ∀ last ∈ last?, ∃ later ∈ later?, last ≤ later) :
    Guarded disturb waits serves clash all later?
      { node with included := child } := by
  obtain ⟨pending, holds, agree⟩ := guarded.pends
  refine ⟨guarded.same, orderly, pending, holds, fun span from_ => ?_⟩
  apply agree
  intro last isLast
  obtain ⟨later, isLater, notBefore⟩ := further last isLast
  exact le_trans notBefore (from_ later isLater)

theorem guarded_settleFrom (does : Serves fails serves)
    (seeks : Seeks fails waits serves) (node : Without σ) {span : Span}
    (guarded : Guarded disturb waits serves clash all (some span) node) :
    (settleFrom span).Meets node
      (Clears disturb waits serves clash all)
      (fun _ reached => ∃ last?,
        Guarded disturb waits serves clash all last? reached) := by
  obtain ⟨sameClash, orderly, pending, holds, agree⟩ := guarded
  have tested : ∀ reached, Trims waits serves pending span node reached →
      Guarded disturb waits serves clash all (some span) reached := by
    intro reached trims
    obtain ⟨steady, rest, pends, same⟩ := trims
    refine ⟨steady.clash.trans sameClash, steady.included ▸ orderly, rest,
      pends, fun later after => ?_⟩
    rw [← agree later after, ← sameClash, same later (after span rfl)]
  rw [settleFrom]
  simp only [Attempt.meets_bind]
  refine (pends_clashes does seeks holds span).mono ?_ ?_
  · intro found reached answered
    obtain ⟨isFound, trims⟩ := answered
    have still := tested reached trims
    rw [sameClash, agree span fun last isLast => le_of_eq
      (Option.some.inj isLast).symm] at isFound
    cases found with
    | false =>
        refine ⟨?_, some span, still.standing (.on span)⟩
        intro other isOther
        cases isOther
        exact isFound.symm
    | true =>
        simp only [↓reduceIte, Attempt.meets_bind]
        refine (meets_nextCandidate still.included).mono ?_ ?_
        · intro later? next moved
          obtain ⟨child, rfl, beyondOrderly⟩ := moved
          cases later? with
          | none =>
              refine ⟨by simp, some span, ?_⟩
              exact (still.moved beyondOrderly fun last isLast =>
                ⟨last, isLast, le_refl _⟩).standing .exhausted
          | some later =>
              obtain ⟨later, beyond⟩ := later
              have := Span.room_lt_room beyond
              apply guarded_settleFrom does seeks
              apply still.moved beyondOrderly
              intro last isLast
              cases isLast
              exact ⟨later, rfl, le_of_lt beyond⟩
        · intro failure next failed
          obtain ⟨child, rfl, same⟩ := failed
          exact ⟨some span, still.moved same fun last isLast =>
            ⟨last, isLast, le_refl _⟩⟩
  · intro failure reached failed
    exact ⟨some span, tested reached failed.2⟩
termination_by span.room

/-- What the included child answers is tested before it is answered. -/
theorem Guarded.meets_keep (does : Serves fails serves)
    (seeks : Seeks fails waits serves)
    (guarded : Guarded disturb waits serves clash all last? node)
    {floor? : Option DocId} {span? : Option Span} {child : σ}
    (advances : Advances (Orderly disturb) last? floor? span? child) :
    (keep span?).Meets { node with included := child }
      (Clears disturb waits serves clash all)
      (fun _ reached => ∃ last?,
        Guarded disturb waits serves clash all last? reached) := by
  cases span? with
  | none =>
      refine ⟨by simp, last?, ?_⟩
      exact (guarded.moved advances.2 fun last isLast =>
        ⟨last, isLast, le_refl _⟩).standing .exhausted
  | some span =>
      obtain ⟨after, _, _, orderly⟩ := advances
      apply guarded_settleFrom does seeks
      apply guarded.moved orderly
      intro last isLast
      exact ⟨span, rfl, le_of_lt (after last isLast)⟩

/-- Whatever move is made, nothing that clashes is answered. -/
theorem Guarded.meets_go (does : Serves fails serves)
    (seeks : Seeks fails waits serves)
    (guarded : Guarded disturb waits serves clash all last? node)
    (move : Move) :
    (Cursor.go move).Meets node (Clears disturb waits serves clash all)
      (fun _ reached => ∃ last?,
        Guarded disturb waits serves clash all last? reached) := by
  have moved : ∀ move : Move, (do
      keep (← including (Cursor.go move)) : Attempt Failure (Without σ) _).Meets
      node (Clears disturb waits serves clash all)
      (fun _ reached => ∃ last?,
        Guarded disturb waits serves clash all last? reached) := by
    intro move
    simp only [including, Attempt.meets_bind, Attempt.meets_within]
    refine (Orderly.disciplined.moves guarded.included move).mono ?_ ?_
    · intro span? child advances
      exact guarded.meets_keep does seeks advances
    · intro failure child orderly
      exact ⟨last?, guarded.moved orderly fun last isLast =>
        ⟨last, isLast, le_refl _⟩⟩
  have still : ∃ last?, Guarded disturb waits serves clash all last? node :=
    ⟨last?, guarded⟩
  cases move with
  | next =>
      exact planned.meets_next (fun _ => still) (fun _ => ⟨by simp, still⟩)
        fun _ => moved .next
  | seek target =>
      exact planned.meets_seek (fun _ => still) (fun _ => ⟨by simp, still⟩)
        (fun _ _ _ => still) (fun _ _ _ => moved .next)
        fun _ => moved (.seek target)

/-- In no run, whatever fails in it, a span that clashes is answered. -/
theorem Guarded.runs_clear (does : Serves fails serves)
    (seeks : Seeks fails waits serves)
    (guarded : Guarded disturb waits serves clash all last? node)
    (moves : List Move) :
    ∀ report ∈ (Cursor.runs moves node).1, ∀ span ∈ report.span?,
      clash.bars all span = false := by
  induction moves generalizing last? node with
  | nil => exact fun report member => absurd member List.not_mem_nil
  | cons move rest ih =>
      have met := guarded.meets_go does seeks move
      intro report member
      cases went : Cursor.go move node with
      | mk outcome reached =>
          simp only [Cursor.runs, Cursor.make_of_go went, List.mem_cons]
            at member
          cases outcome with
          | error failure =>
              obtain ⟨further?, still⟩ := met.of_error went
              rcases member with rfl | later
              · intro span isAnswered
                cases isAnswered
              · exact ih still report later
          | ok span? =>
              obtain ⟨clear, further?, still⟩ := met.of_ok went
              rcases member with rfl | later
              · intro span isAnswered
                apply clear
                simpa [Report.span?, Except.map] using isAnswered
              · exact ih still report later

end

/-! ## What reads lose -/

/--
The span that the included child was left on when the node did not stand on
it: the next read passes it.
-/
def untested? {σ : Type} [Cursor σ] (node : Without σ) : Option Span :=
  if Cursor.standing node.included = node.standing then none
  else (Cursor.standing node.included).span?

section

open Term (Persists Upon)

variable {all : Visits} {last? : Option Span} {coming : List Span}
  {span : Span} {node : Without (Term ScriptedPostings)}

/--
The spans that a node has to come, all of them after the last one of its
included child, whatever failed before.
-/
inductive Awaits (all : Visits) :
    Option Span → List Span → Without (Term ScriptedPostings) → Prop
  | going {last? : Option Span} {left : Visits}
      {node : Without (Term ScriptedPostings)}
      (goes : node.standing.planNext = .ok true)
      (persists : Persists last? left node.included)
      (ordered : left.Ordered)
      (after : ∀ last ∈ last?, ∀ visit ∈ left, last < visit.span)
      (pends : ∃ pending, Pending (Persists none) Upon pending node ∧
        ∀ visit ∈ left, node.clash.bars pending visit.span =
          node.clash.bars all visit.span)
      (notBehind : ∀ span, node.standing = .on span →
        ∃ last ∈ last?, span ≤ last) :
      Awaits all last? ((node.clash.spare all left).map Visit.span) node
  | ended {last? : Option Span} {node : Without (Term ScriptedPostings)}
      (exhausted : node.standing = .exhausted)
      (further : ∀ span ∈ node.untested?, ∀ last ∈ last?, last < span) :
      Awaits all last? [] node

theorem mem_untested?_iff :
    span ∈ node.untested? ↔ Cursor.standing node.included = .on span ∧
      node.standing ≠ .on span := by
  unfold untested?
  split
  · rename_i same
    constructor
    · simp
    · intro untested
      exact absurd (same.symm.trans untested.1) untested.2
  · rename_i other
    rw [Option.mem_def, Standing.span?_eq_some_iff]
    constructor
    · intro isOn
      exact ⟨isOn, fun same => other (isOn.trans same.symm)⟩
    · exact And.left

/-- What was left untested is not to come. -/
theorem Awaits.ne_untested? (awaits : Awaits all last? coming node)
    (member : span ∈ coming) : span ∉ node.untested? := by
  intro isUntested
  cases awaits with
  | going goes persists ordered after pends notBehind =>
      obtain ⟨visit, isSpared, rfl⟩ := List.mem_map.mp member
      have isLast := persists.last_eq (mem_untested?_iff.mp isUntested).1
      exact lt_irrefl _ (after _ isLast visit (List.mem_of_mem_filter isSpared))
  | ended exhausted further => exact absurd member List.not_mem_nil

/-- A span that was answered is before the node, or the node stands on it. -/
def Passed (span : Span) (last? : Option Span)
    (node : Without (Term ScriptedPostings)) : Prop :=
  ∃ last ∈ last?, span < last ∨ span = last ∧
    (node.standing = .on span ∨ node.standing = .exhausted)

/-- A span that was answered is not left untested. -/
theorem Awaits.passed_ne (awaits : Awaits all last? coming node)
    (passed : Passed span last? node) : span ∉ node.untested? := by
  intro isUntested
  obtain ⟨isOn, notThere⟩ := mem_untested?_iff.mp isUntested
  obtain ⟨last, isLast, passed⟩ := passed
  cases awaits with
  | going goes persists ordered after pends notBehind =>
      have same := persists.last_eq isOn
      cases isLast.symm.trans same
      rcases passed with before | ⟨_, stands | stands⟩
      · exact lt_irrefl _ before
      · exact notThere stands
      · rw [stands] at goes
        cases goes
  | ended exhausted further =>
      have later := further span isUntested last isLast
      rcases passed with before | ⟨rfl, _⟩
      · exact lt_irrefl _ (lt_trans later before)
      · exact lt_irrefl _ later

/-- A read answers the first of the spans to come. -/
def Takes (all : Visits) (last? : Option Span) (coming : List Span)
    (span? : Option Span) (reached : Without (Term ScriptedPostings)) : Prop :=
  reached.standing = .after span? ∧ span? = coming.head? ∧
    (∀ span ∈ span?, ∀ last ∈ last?, last < span) ∧
    Awaits all (span?.or last?) coming.tail reached

/-- A read that fails loses the span that it leaves untested. -/
def Loses (all : Visits) (last? : Option Span) (coming : List Span)
    (node reached : Without (Term ScriptedPostings)) : Prop :=
  reached.standing = node.standing ∧ ∃ further? kept,
    Awaits all further? kept reached ∧
      (coming.filter fun span => span ∉ reached.untested?) = kept ∧
      (further? = last? ∨ ∃ further, further? = some further ∧
        ∀ last ∈ last?, last < further)

/-- What a node settles on is the first of the spans to come. -/
theorem Settled.takes_coming {left : Visits} {span? : Option Span}
    {reached : Without (Term ScriptedPostings)}
    (after : ∀ last ∈ last?, ∀ visit ∈ left, last < visit.span)
    (settled : Settled (Persists none) Upon all left node span? reached) :
    Takes all last? ((node.clash.spare all left).map Visit.span) span?
      reached := by
  obtain ⟨sameClash, stands, settled⟩ := settled
  cases span? with
  | none =>
      obtain ⟨none, within⟩ := settled
      rw [none]
      refine ⟨stands, rfl, by simp, .ended stands ?_⟩
      intro span isUntested last isLast
      obtain ⟨visit, member, rfl⟩ :=
        within span (mem_untested?_iff.mp isUntested).1
      exact after last isLast visit member
  | some span =>
      obtain ⟨visit, rest, rfl, faces, _, spared⟩ := settled
      obtain ⟨⟨_, isHead, _, persists⟩, ordered, pending, holds, agree⟩ :=
        faces
      cases isHead
      have member : visit ∈ node.clash.spare all left := by
        rw [spared]
        exact List.mem_cons_self
      rw [spared, ← sameClash]
      refine ⟨stands, rfl, ?_, .going ?_ persists ordered.tail ?_
        ⟨pending, holds, ?_⟩ ?_⟩
      · intro other isOther last isLast
        cases isOther
        exact after last isLast visit (List.mem_of_mem_filter member)
      · rw [stands]
        rfl
      · intro last isLast later isLater
        cases isLast
        exact ordered.head_lt isLater
      · exact fun later isLater => agree later (List.mem_cons_of_mem _ isLater)
      · intro other isOn
        rw [stands] at isOn
        cases isOn
        exact ⟨visit.span, rfl, le_refl _⟩

/-- A node that stalled loses the span that it could not test. -/
theorem Stalled.loses {left : Visits}
    {reached : Without (Term ScriptedPostings)}
    (goes : node.standing.planNext = .ok true)
    (after : ∀ last ∈ last?, ∀ visit ∈ left, last < visit.span)
    (notBehind : ∀ span, node.standing = .on span →
      ∃ last ∈ last?, span ≤ last)
    (stalled : Stalled (Persists none) Upon all left node reached) :
    Loses all last? ((node.clash.spare all left).map Visit.span) node
      reached := by
  obtain ⟨sameClash, stands, visit, rest, faces, member, same, cause⟩ :=
    stalled
  obtain ⟨⟨_, isHead, _, persists⟩, ordered, pending, holds, agree⟩ := faces
  cases isHead
  have awaits : Awaits all (some visit.span)
      ((node.clash.spare all rest).map Visit.span) reached := by
    rw [← sameClash]
    refine .going (stands ▸ goes) persists ordered.tail ?_
      ⟨pending, holds, ?_⟩ ?_
    · intro last isLast later isLater
      cases isLast
      exact ordered.head_lt isLater
    · exact fun later isLater => agree later (List.mem_cons_of_mem _ isLater)
    · intro span isOn
      rw [stands] at isOn
      obtain ⟨last, isLast, notAfter⟩ := notBehind span isOn
      exact ⟨visit.span, rfl,
        le_trans notAfter (le_of_lt (after last isLast visit member))⟩
  have keeps : ((node.clash.spare all rest).map Visit.span).filter
      (fun span => span ∉ reached.untested?) =
        (node.clash.spare all rest).map Visit.span :=
    List.filter_eq_self.mpr fun span isComing =>
      decide_eq_true (awaits.ne_untested? isComing)
  refine ⟨stands, some visit.span, _, awaits, ?_, .inr ⟨visit.span, rfl, ?_⟩⟩
  · rw [← same]
    cases barred : node.clash.bars all visit.span with
    | true =>
        have spared : node.clash.spare all (visit :: rest) =
            node.clash.spare all rest := by
          simp [Clash.spare, barred]
        rw [spared, keeps]
    | false =>
        have spared : node.clash.spare all (visit :: rest) =
            visit :: node.clash.spare all rest := by
          simp [Clash.spare, barred]
        have isOn := cause.resolve_left (by simp [barred])
        have untested : visit.span ∈ reached.untested? := by
          refine mem_untested?_iff.mpr ⟨isOn, fun there => ?_⟩
          rw [stands] at there
          obtain ⟨last, isLast, notAfter⟩ := notBehind _ there
          exact absurd (after last isLast visit member)
            (not_lt_of_ge notAfter)
        rw [spared, List.map_cons, List.filter_cons_of_neg
          (by simpa using untested), keeps]
  · exact fun last isLast => after last isLast visit member

/-- What one read comes to. -/
theorem Awaits.meets_next (awaits : Awaits all last? coming node) :
    (Cursor.next : Attempt Failure (Without _) _).Meets node
      (Takes all last? coming) (fun _ => Loses all last? coming node) := by
  cases awaits with
  | ended exhausted further =>
      refine planned.meets_next ?_ ?_ ?_
      · intro isClosed
        cases exhausted.symm.trans isClosed
      · intro isExhausted
        exact ⟨exhausted, rfl, by simp, .ended exhausted further⟩
      · intro goes
        rw [show Cursor.standing node = .exhausted from exhausted] at goes
        cases goes
  | going goes persists ordered after pends notBehind =>
      rename_i left
      refine planned.meets_next ?_ ?_ fun _ => ?_
      · intro isClosed
        rw [show node.standing = .closed from isClosed] at goes
        cases goes
      · intro isExhausted
        rw [show node.standing = .exhausted from isExhausted] at goes
        cases goes
      · simp only [including, Attempt.meets_bind, Attempt.meets_within]
        refine (persists.meets_next.and (persists.settles .next)).mono ?_ ?_
        · intro span? child answered
          refine (settles_keep Term.serves_upon Term.seeks_upon
            Term.settles_upon { node with included := child } answered.1
            answered.2 ordered pends).mono ?_ ?_
          · intro span? reached settled
            exact settled.takes_coming after
          · intro failure reached failed
            exact failed.2.loses goes after notBehind
        · intro failure child failed
          have still : Awaits all last?
              ((node.clash.spare all left).map Visit.span)
              { node with included := child } :=
            @Awaits.going _ _ _ { node with included := child } goes failed.1
              ordered after pends notBehind
          refine ⟨rfl, last?, _, still, ?_, .inl rfl⟩
          exact List.filter_eq_self.mpr fun span isComing =>
            decide_eq_true (still.ne_untested? isComing)

/-- A span that was answered is never left untested by a later read. -/
theorem Awaits.passed_ne_read (awaits : Awaits all last? coming node)
    (passed : Passed span last? node) (count : Nat) :
    span ∉ (Cursor.read count node).2.untested? := by
  induction count generalizing last? coming node with
  | zero => exact awaits.passed_ne passed
  | succ count ih =>
      have met := awaits.meets_next
      cases went : (Cursor.next : Attempt Failure (Without _) _) node with
      | mk outcome reached =>
          rw [Cursor.read_succ count went]
          obtain ⟨last, isLast, passed⟩ := passed
          cases outcome with
          | ok span? =>
              obtain ⟨stands, _, beyond, still⟩ := met.of_ok went
              refine ih still ?_
              cases span? with
              | none =>
                  exact ⟨last, isLast, passed.imp_right fun there =>
                    ⟨there.1, .inr stands⟩⟩
              | some later =>
                  have before := beyond later rfl last isLast
                  refine ⟨later, rfl, .inl ?_⟩
                  rcases passed with earlier | ⟨rfl, _⟩
                  · exact lt_trans earlier before
                  · exact before
          | error failure =>
              obtain ⟨stands, further?, kept, still, _, onward⟩ :=
                met.of_error went
              refine ih still ?_
              rcases onward with rfl | ⟨further, rfl, beyond⟩
              · exact ⟨last, isLast, passed.imp_right fun there =>
                  ⟨there.1, stands ▸ there.2⟩⟩
              · have before := beyond last isLast
                refine ⟨further, rfl, .inl ?_⟩
                rcases passed with earlier | ⟨rfl, _⟩
                · exact lt_trans earlier before
                · exact before

/-- The reads answer what is to come but for what they leave untested. -/
theorem Awaits.answered_eq (awaits : Awaits all last? coming node)
    (count : Nat) :
    ∃ rest,
      (coming.filter fun span => ∀ earlier ≤ count,
        span ∉ (Cursor.read earlier node).2.untested?) =
        (Cursor.read count node).1.filterMap Report.span? ++ rest ∧
      ((∃ report ∈ (Cursor.read count node).1, report.Ended) →
        rest = []) := by
  induction count generalizing last? coming node with
  | zero =>
      refine ⟨_, rfl, ?_⟩
      rintro ⟨report, member, _⟩
      exact absurd member List.not_mem_nil
  | succ count ih =>
      have met := awaits.meets_next
      cases went : (Cursor.next : Attempt Failure (Without _) _) node with
      | mk outcome reached =>
          -- The state before the first read leaves nothing untested.
          have split : (coming.filter fun span => ∀ earlier ≤ count + 1,
              span ∉ (Cursor.read earlier node).2.untested?) =
              coming.filter fun span => ∀ earlier ≤ count,
                span ∉ (Cursor.read earlier reached).2.untested? := by
            refine List.filter_congr fun span isComing => ?_
            rw [decide_eq_decide]
            constructor
            · intro kept earlier before
              have later := kept (earlier + 1) (Nat.succ_le_succ before)
              rwa [Cursor.read_succ earlier went] at later
            · intro kept earlier before
              cases earlier with
              | zero => exact awaits.ne_untested? isComing
              | succ earlier =>
                  rw [Cursor.read_succ earlier went]
                  exact kept earlier (Nat.le_of_succ_le_succ before)
          rw [split, Cursor.read_succ count went]
          cases outcome with
          | error failure =>
              obtain ⟨_, further?, kept, still, isKept, _⟩ := met.of_error went
              obtain ⟨rest, answered, ends⟩ := ih still
              refine ⟨rest, ?_, ?_⟩
              · rw [← isKept, List.filter_filter] at answered
                rw [List.filterMap_cons_none rfl, ← answered]
                refine List.filter_congr fun span _ => ?_
                rw [Bool.eq_iff_iff, Bool.and_eq_true]
                simp only [decide_eq_true_eq]
                exact ⟨fun kept => ⟨kept, kept 0 (Nat.zero_le _)⟩, And.left⟩
              · rintro ⟨report, member, ended⟩
                rcases List.mem_cons.mp member with rfl | later
                · exact absurd ended Report.ended_error.mp
                · exact ends ⟨report, later, ended⟩
          | ok span? =>
              obtain ⟨stands, isHead, _, still⟩ := met.of_ok went
              obtain ⟨rest, answered, ends⟩ := ih still
              cases span? with
              | none =>
                  obtain rfl : coming = [] := List.head?_eq_none_iff.mp
                    isHead.symm
                  have nothing := List.append_eq_nil_iff.mp answered.symm
                  refine ⟨[], ?_, fun _ => rfl⟩
                  rw [List.filterMap_cons_none rfl, nothing.1]
                  rfl
              | some span =>
                  obtain ⟨others, rfl⟩ :=
                    List.head?_eq_some_iff.mp isHead.symm
                  have passed : Passed span (some span) reached :=
                    ⟨span, rfl, .inr ⟨rfl, .inl stands⟩⟩
                  refine ⟨rest, ?_, ?_⟩
                  · rw [List.filter_cons, if_pos (decide_eq_true
                      fun earlier _ => still.passed_ne_read passed earlier)]
                    exact congrArg (span :: ·) answered
                  · rintro ⟨report, member, ended⟩
                    rcases List.mem_cons.mp member with rfl | later
                    · cases Report.ended_ok.mp ended
                    · exact ends ⟨report, later, ended⟩

end

/-- Such a node over two terms whose postings follow scripts. -/
def overTerms (clash : Clash) (included excluded : Script × List Occurrence) :
    Without (Term ScriptedPostings) :=
  ofCursors clash (.ofPostings (.ofOccurrences included.1 included.2))
    (.ofPostings (.ofOccurrences excluded.1 excluded.2))

/-- The same node, with no fault planned for any call. -/
def overTermsWithoutFaults (clash : Clash)
    (included excluded : Script × List Occurrence) :
    Without (Term ScriptedPostings) :=
  overTerms clash ({ included.1 with faults := [] }, included.2)
    ({ excluded.1 with faults := [] }, excluded.2)

section

variable (clash : Clash) {included excluded : Script × List Occurrence}
  (includedPlain : included.1.frequencies = [])
  (excludedPlain : excluded.1.frequencies = [])

include includedPlain excludedPlain

theorem awaits_overTerms :
    Awaits (Occurrence.visits excluded.2) none
      ((clash.spare (Occurrence.visits excluded.2)
        (Occurrence.visits included.2)).map Visit.span)
      (overTerms clash included excluded) := by
  apply @Awaits.going _ _ _ (overTerms clash included excluded) rfl
  · exact Term.persists_ofPostings includedPlain included.2
  · exact Occurrence.ordered_visits included.2
  · simp
  · refine ⟨Occurrence.visits excluded.2, ⟨Occurrence.ordered_visits _, ?_⟩,
      fun _ _ => rfl⟩
    exact Term.persists_ofPostings excludedPlain excluded.2
  · intro span isOn
    cases isOn

theorem drain_overTermsWithoutFaults :
    Walk.drain (overTermsWithoutFaults clash included excluded) =
      .ok ((clash.spare (Occurrence.visits excluded.2)
        (Occurrence.visits included.2)).map Visit.span) := by
  have follows : ∀ source : Script × List Occurrence,
      source.1.frequencies = [] →
      Follows (Term.ofPostings (ScriptedPostings.ofOccurrences
        { source.1 with faults := [] } source.2))
        (.fresh (Occurrence.visits source.2)) := by
    intro source plain
    apply Term.follows_scripted
    · rfl
    · exact plain
  apply Walk.drain_eq
  · exact follows_ofCursors (follows included includedPlain)
      (follows excluded excludedPlain) (Occurrence.ordered_visits _)
      (Occurrence.ordered_visits _)
  · exact (Occurrence.ordered_visits _).filter _

/--
A node that is read until it ends, whatever its terms fail to read, answers
what it would have answered without failures but for the spans that some
failed read left untested.
-/
theorem reads_answer_tested (count : Nat) :
    let node := overTerms clash included excluded
    let reports := (Cursor.read count node).1
    let answered := reports.filterMap Report.span?
    ∃ spans,
      Walk.drain (overTermsWithoutFaults clash included excluded) =
        .ok spans ∧
      let tested := spans.filter fun span => ∀ earlier ≤ count,
        span ∉ (Cursor.read earlier node).2.untested?
      answered <+: tested ∧
        ((∃ report ∈ reports, report.Ended) → answered = tested) := by
  intro node reports answered
  refine ⟨_, drain_overTermsWithoutFaults clash includedPlain excludedPlain, ?_⟩
  have awaits := awaits_overTerms clash includedPlain excludedPlain
  obtain ⟨rest, split, ends⟩ := awaits.answered_eq count
  refine ⟨⟨rest, split.symm⟩, fun ended => ?_⟩
  rw [split, ends ended, List.append_nil]

end

/-- A script under which the first move of a term to a document fails. -/
def firstSeekFails : Script :=
  ⟨[⟨.seekDocument, 1, ⟨.interrupted, "transient"⟩⟩], [], none⟩

/-- A term that is found twice, over postings that are read without fault. -/
def foundTwice : Script × List Occurrence :=
  (⟨[], [], none⟩, [⟨1, 0, none⟩, ⟨1, 5, none⟩])

/-- A term that is found elsewhere, if the first move to a document fails. -/
def foundElsewhere : Script × List Occurrence :=
  (firstSeekFails, [⟨2, 0, none⟩])

/-- The first read fails to test a span, and the others answer the rest. -/
theorem failed_test_leaves_span :
    (foundTwice.1.frequencies = [] ∧ foundElsewhere.1.frequencies = []) ∧
    (Cursor.read 1 (overTerms .inDocument foundTwice foundElsewhere)).2.untested?
      = some (.ofToken 1 0) ∧
    (Cursor.read 3 (overTerms .inDocument foundTwice foundElsewhere)).1.filterMap
      Report.span? = [.ofToken 1 5] := by
  have ends : (Cursor.read 3 (overTerms .inDocument foundTwice
      foundElsewhere)).1.getLast? =
        some ⟨.next, .ok (.span none), .exhausted⟩ := by
    cbv
  obtain ⟨spans, drained, _, whole⟩ :=
    @reads_answer_tested .inDocument foundTwice foundElsewhere rfl rfl 3
  have answers := whole ⟨_, List.mem_of_getLast? ends, Report.ended_ok.mpr rfl⟩
  have found : Walk.drain (overTermsWithoutFaults .inDocument foundTwice
      foundElsewhere) = .ok [.ofToken 1 0, .ofToken 1 5] := by
    cbv
  have untested : (Cursor.read 1 (overTerms .inDocument foundTwice
      foundElsewhere)).2.untested? = some (.ofToken 1 0) := by
    cbv
  have lost : ¬ ∀ earlier ≤ 3, Span.ofToken 1 0 ∉ (Cursor.read earlier
      (overTerms .inDocument foundTwice foundElsewhere)).2.untested? :=
    fun tested => tested 1 (by decide) untested
  have kept : ∀ earlier ≤ 3, Span.ofToken 1 5 ∉ (Cursor.read earlier
      (overTerms .inDocument foundTwice foundElsewhere)).2.untested? := by
    intro earlier before
    have which : earlier = 0 ∨ earlier = 1 ∨ earlier = 2 ∨ earlier = 3 := by
      omega
    rcases which with rfl | rfl | rfl | rfl
    · exact of_decide_eq_true (by cbv)
    · exact of_decide_eq_true (by cbv)
    · exact of_decide_eq_true (by cbv)
    · exact of_decide_eq_true (by cbv)
  cases drained.symm.trans found
  refine ⟨⟨rfl, rfl⟩, untested, ?_⟩
  rw [answers, List.filter_cons_of_neg (by simpa only [decide_eq_true_eq]),
    List.filter_cons_of_pos (by simpa only [decide_eq_true_eq]),
    List.filter_nil]

/--
A span that clashes with nothing is lost: the first read moves the included
term to it and fails with the excluded one, and the second read moves on.
-/
theorem untested_span_lost :
    (∃ report ∈ (Cursor.read 3 (overTerms .inDocument foundTwice
      foundElsewhere)).1, report.Ended) ∧
    (Cursor.read 3 (overTerms .inDocument foundTwice
      foundElsewhere)).1.filterMap Report.span? = [.ofToken 1 5] ∧
    Walk.drain (overTermsWithoutFaults .inDocument foundTwice
      foundElsewhere) = .ok [.ofToken 1 0, .ofToken 1 5] := by
  have ends : (Cursor.read 3 (overTerms .inDocument foundTwice
      foundElsewhere)).1.getLast? =
        some ⟨.next, .ok (.span none), .exhausted⟩ := by
    cbv
  refine ⟨⟨_, List.mem_of_getLast? ends, ?_⟩, by cbv, by cbv⟩
  exact Report.ended_ok.mpr rfl

end Without

namespace Query

/-- At every height a term over a script is the leaf, carried. -/
theorem openAt_scripted {levels : Nat} {name : String} {script : Script}
    {occurrences : List Occurrence}
    (fits : (scripted name script occurrences).height ≤ levels) :
    ∃ wrap : Term ScriptedPostings → Tree levels, Cursor.Carries wrap ∧
      openAt levels (.scripted name script occurrences) fits =
        wrap (.ofPostings (.ofOccurrences script occurrences)) := by
  cases levels with
  | zero => exact absurd fits (by simp [height])
  | succ levels =>
      exact ⟨.scripted name, Level.carries_scripted name, rfl⟩

/-- An exclusion is opened over its opened children. -/
theorem exists_runs_without (clash : Clash) (included excluded : Query)
    (moves : List Move) :
    ∃ levels, ∃ (fits : included.height ≤ levels)
      (fitsToo : excluded.height ≤ levels),
      (Cursor.runs moves (without clash included excluded).openTree).1 =
        (Cursor.runs moves (Without.ofCursors clash
          (openAt levels included fits)
          (openAt levels excluded fitsToo))).1 := by
  refine ⟨max included.height excluded.height, Nat.le_max_left _ _,
    Nat.le_max_right _ _, ?_⟩
  exact congrArg Prod.fst (Level.carries_without.runs_eq moves _)

/--
However the reads of the children fail and whatever moves are made after that,
an exclusion over a term answers no span that is in conflict with one of its
occurrences.
-/
theorem without_clears_occurrences (clash : Clash) (included : Query)
    (name : String) {script : Script} (plain : script.frequencies = [])
    (occurrences : List Occurrence) (moves : List Move) :
    ∀ report ∈ (Cursor.runs moves (without clash included
        (.scripted name script occurrences)).openTree).1,
      ∀ span ∈ report.span?, ∀ occurrence ∈ occurrences,
        ¬ clash.Conflicts span occurrence.span := by
  intro report member span isAnswered occurrence isOccurrence conflicts
  obtain ⟨levels, fits, fitsToo, erased⟩ := exists_runs_without clash included
    (.scripted name script occurrences) moves
  obtain ⟨wrap, carries, opened⟩ := openAt_scripted fitsToo
  rw [erased, opened] at member
  have guarded : Without.Guarded Tree.armed (Under wrap (Term.Persists none))
      (Under wrap Term.Upon) clash (Occurrence.visits occurrences) none
      (.ofCursors clash (openAt levels included fits)
        (wrap (.ofPostings (.ofOccurrences script occurrences)))) := by
    refine ⟨rfl, orderly_openAt _ _ _, Occurrence.visits occurrences,
      ⟨Occurrence.ordered_visits occurrences, ?_⟩, fun _ _ => rfl⟩
    exact ⟨_, rfl, Term.persists_ofPostings plain occurrences⟩
  have free := guarded.runs_clear (carries.serves_under Term.serves_upon)
    (carries.seeks_under Term.seeks_upon) moves report member span isAnswered
  obtain ⟨visit, isVisit, clashes⟩ :=
    Clash.exists_conflict isOccurrence conflicts
  exact Clash.not_conflicts_of_bars free isVisit clashes

/-- The occurrences of a term of which the second one is excluded. -/
def oftenFound : Query :=
  .scripted "a" ⟨[], [], none⟩
    [⟨1, 0, none⟩, ⟨1, 4, none⟩, ⟨2, 3, none⟩]

/-- The first test fails, and what clashes is still left out of later reads. -/
theorem interrupted_test_clears :
    Without.firstSeekFails.frequencies = [] ∧
    (Cursor.runs [.next, .next, .next] (without .plain oftenFound
      (.scripted "b" Without.firstSeekFails
        [⟨1, 4, none⟩, ⟨2, 0, none⟩])).openTree).1.map Report.outcome =
      [.error (.unreadable ⟨.interrupted, "transient"⟩),
        .ok (.span (some (.ofToken 2 3))), .ok (.span none)] ∧
    ¬ Clash.plain.Conflicts (.ofToken 2 3) (Occurrence.span ⟨1, 4, none⟩) := by
  have outcomes : (Cursor.runs [.next, .next, .next] (without .plain oftenFound
      (.scripted "b" Without.firstSeekFails
        [⟨1, 4, none⟩, ⟨2, 0, none⟩])).openTree).1.map Report.outcome =
      [.error (.unreadable ⟨.interrupted, "transient"⟩),
        .ok (.span (some (.ofToken 2 3))), .ok (.span none)] := by
    cbv
  refine ⟨rfl, outcomes, ?_⟩
  have member : (.ok (.span (some (.ofToken 2 3))) : Except Failure Reached) ∈
      (Cursor.runs [.next, .next, .next] (without .plain oftenFound
        (.scripted "b" Without.firstSeekFails
          [⟨1, 4, none⟩, ⟨2, 0, none⟩])).openTree).1.map Report.outcome := by
    rw [outcomes]
    simp
  obtain ⟨report, isReport, answered⟩ := List.mem_map.mp member
  refine without_clears_occurrences .plain oftenFound "b" rfl _ _ report
    isReport _ ?_ _ List.mem_cons_self
  simp [Report.span?, answered, Reached.span?]

end Query

end PositionalSearch
