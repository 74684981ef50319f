import PositionalSearch.Proofs.Closing
import PositionalSearch.Proofs.Lawful.Filters
import PositionalSearch.Proofs.Lawful.Proximity
import PositionalSearch.Proofs.Lawful.Ranges
import PositionalSearch.Proofs.Lawful.Union

/-!
# No session breaks a rule of use

Whatever is done to an opened query, step by step and walk by walk, with
whatever faults: nothing that it answers is a breach, and each place and each
count in the tree stays in range.
-/

namespace PositionalSearch

open Attempt (Abides Sustains)
open Cursor (Carries Lasting Lawful Orderly Shut Trusted)

/-! ## Opened queries -/

/-- A query is opened as a cursor that a node can rely on. -/
theorem Query.trusted_openAt (levels : Nat) (query : Query)
    (fits : query.height ≤ levels) :
    Trusted Tree.armed none (openAt levels query fits) := by
  refine ⟨orderly_openAt levels query fits, ?_⟩
  induction levels generalizing query with
  | zero => exact absurd query.height_pos (Nat.not_lt.mpr fits)
  | succ levels ih =>
      have trusted : ∀ (child : Query) (fits : child.height ≤ levels),
          Trusted Tree.armed none (openAt levels child fits) :=
        fun child fits => ⟨orderly_openAt levels child fits, ih child fits⟩
      cases query with
      | nothing =>
          exact Level.carries_nothing.lawful (fun _ _ => rfl)
            Nothing.lawful_fresh
      | listed listing =>
          exact Level.carries_listed.lawful (fun _ _ => rfl)
            (Listed.lawful_ofListing listing)
      | term occurrences =>
          exact Level.carries_term.lawful (fun _ _ => rfl)
            (Term.lawful_ofPostings StoredPostings.steady_marks
              (StoredPostings.marks_ofOccurrences occurrences))
      | scripted name script occurrences =>
          exact (Level.carries_scripted name).lawful (fun _ _ => rfl)
            (Term.lawful_ofPostings ScriptedPostings.steady_marks
              (ScriptedPostings.marks_ofOccurrences script occurrences))
      | probe name listing fault? =>
          exact Level.carries_probe.lawful (fun _ _ => rfl)
            (Probe.lawful_ofListing name listing fault?)
      | proximity arrangement slop collects children =>
          refine Level.carries_proximity.lawful (fun _ _ => rfl)
            (Proximity.lawful_ofCursors fun place => ?_)
          rw [getElem_pmap_openAt]
          exact trusted _ _
      | union children =>
          refine Level.carries_union.lawful (fun _ _ => rfl)
            (Union.lawful_ofCursors fun place => ?_)
          rw [getElem_pmap_openAt]
          exact trusted _ _
      | without clash included excluded =>
          exact Level.carries_without.lawful (fun _ _ => rfl)
            (Without.lawful_ofCursors (trusted included _)
              (trusted excluded _))
      | region low high anchor child =>
          exact Level.carries_region.lawful (fun _ _ => rfl)
            (Region.lawful_ofCursor (trusted child _))
      | metered name child =>
          exact Level.carries_metered.lawful (fun _ _ => rfl)
            (Metered.lawful_ofCursor (ih child _))

/-! ## Trees in use -/

/-- What refuses everything once it is closed can be relied on then. -/
theorem Cursor.trusted_closed {ι σ : Type} [Cursor σ] {disturb : ι → σ → σ}
    (shut : ∀ cursor : σ, standing cursor = .closed → Shut cursor)
    (stands : ∀ event cursor,
      standing (disturb event cursor) = standing cursor)
    {cursor : σ} (isClosed : standing cursor = .closed)
    (last? : Option Span) : Trusted disturb last? cursor where
  orderly := by
    refine ⟨fun _ cursor => standing cursor = .closed, ⟨?_, ?_, ?_⟩, isClosed⟩
    · intro last? cursor isClosed move
      exact ((shut cursor isClosed).moves move).mono
        (fun _ _ impossible => impossible.elim) fun _ _ refused => refused.2
    · intro last? cursor isClosed isExhausted
      cases isClosed.symm.trans isExhausted
    · intro last? cursor isClosed event
      exact ⟨(stands event cursor).trans isClosed, stands event cursor⟩
  lawful := by
    refine ⟨fun cursor => standing cursor = .closed, ⟨?_, ?_, ?_⟩, isClosed⟩
    · intro cursor isClosed move
      refine ((shut cursor isClosed).moves move).mono
        (fun _ _ impossible => impossible.elim) ?_
      rintro _ reached ⟨rfl, closed⟩
      exact ⟨nofun, closed⟩
    · intro cursor failure isClosed refused
      rw [(shut cursor isClosed).payloads] at refused
      cases refused
      exact nofun
    · exact fun isClosed event => (stands event _).trans isClosed

/-- A meter moves as its child does. -/
theorem Metered.carries_child {σ : Type} [Cursor σ] :
    Carries (child : Metered σ → σ) where
  go_eq node move := by
    rw [go_eq]
    rfl
  standing_eq _ := rfl
  payloads_eq _ := rfl
  estimate_eq _ := rfl

namespace Tree

variable {height : Nat} {tree : Tree height}

/-- The tree breaks no rule, and everything in it is in range. -/
structure Fit (tree : Tree height) : Prop where
  trusted : ∃ last?, Trusted armed last? tree
  inRange : tree.InRange

theorem fit_openTree (query : Query) : query.openTree.Fit :=
  ⟨⟨none, query.trusted_openAt _ _⟩, query.inRange_openAt _ _⟩

theorem Fit.lawful (fit : tree.Fit) : Lawful armed tree :=
  let ⟨_, trusted⟩ := fit.trusted
  trusted.lawful

theorem Fit.abides_go (fit : tree.Fit) (move : Move) :
    (Cursor.go move).Abides Fit tree := by
  obtain ⟨last?, trusted⟩ := fit.trusted
  refine ((trusted.meets_go move).and
    (lasting_inRange fit.inRange move)).mono ?_ ?_
  · rintro (_ | span) reached ⟨advances, inRange⟩
    · exact ⟨⟨last?, advances.2⟩, inRange⟩
    · exact ⟨⟨some span, advances.2.2.2⟩, inRange⟩
  · rintro failure reached ⟨⟨ordinary, trustedOn⟩, inRange⟩
    exact ⟨ordinary, ⟨last?, trustedOn⟩, inRange trivial⟩

theorem Fit.arm (fit : tree.Fit) (name : String)
    (fault? : Option ProbeFault) : (tree.arm name fault?).Fit := by
  obtain ⟨last?, trusted⟩ := fit.trusted
  exact ⟨⟨last?, trusted.orderly.disturbed (name, fault?),
    Lawful.guards.disturbed trusted.lawful (name, fault?)⟩,
    fit.inRange.arm name fault?⟩

/-- A closed tree refuses what it is asked, but breaks no rule. -/
theorem Fit.close (fit : tree.Fit) : Fit (Cursor.close tree) :=
  ⟨⟨none, Cursor.trusted_closed shut
    (fun (event : String × Option ProbeFault) tree =>
      (armed_arm event.1 event.2 tree).standing)
    (standing_close tree) none⟩, fit.inRange.close⟩

/-- What a meter is taken off is as fit as before. -/
theorem Fit.child {node : Metered (Tree height)}
    (fit : @Tree.Fit (height + 1) (.metered node)) : node.child.Fit := by
  obtain ⟨last?, trusted⟩ := fit.trusted
  have orderly : Orderly (Metered.disturbed armed) last? node :=
    Level.carries_metered.orderly_of (fun _ _ => rfl) trusted.orderly
  have lawful : Lawful (Metered.disturbed armed) node :=
    Level.carries_metered.lawful_of (fun _ _ => rfl) trusted.lawful
  exact ⟨⟨last?, Metered.carries_child.orderly (fun _ _ => rfl) orderly,
    Metered.carries_child.lawful (fun _ _ => rfl) lawful⟩, fit.inRange⟩

end Tree

/-! ## Steps -/

/-- If the outcome is a failure, then not a breach. -/
def Unbreached {α : Type} (outcome : Except Failure α) : Prop :=
  ∀ failure, outcome = .error failure → failure.Ordinary

theorem Unbreached.map {α β : Type} {outcome : Except Failure α}
    (unbreached : Unbreached outcome) (change : α → β) :
    Unbreached (outcome.map change) := by
  cases outcome with
  | ok value => exact nofun
  | error failure =>
      rintro _ ⟨rfl⟩
      exact unbreached failure rfl

/-- Nothing that is asked of a standing is refused with a breach. -/
theorem Standing.unbreached_span (standing : Standing) :
    Unbreached standing.span := by
  rintro failure refused
  cases standing <;> cases refused <;> exact nofun

theorem Standing.unbreached_doc (standing : Standing) :
    Unbreached standing.doc := by
  rintro failure refused
  cases standing <;> cases refused <;> exact nofun

section

variable {height : Nat} {root : Tree height} {detached : List MeterTally}

/-- The payloads of a tree are never refused with a breach. -/
theorem Tree.Fit.unbreached_payloads (fit : root.Fit) :
    Unbreached (Cursor.payloads root) :=
  fun _ => Lawful.guards.payloads fit.lawful

/-- To take spans breaks no rule. -/
theorem Cursor.fit_take (limit : Nat) (fit : root.Fit) :
    (∀ failure, (take limit root).1.2 = .failed failure → failure.Ordinary) ∧
      (take limit root).2.Fit := by
  induction limit generalizing root with
  | zero => exact ⟨by rintro _ ⟨⟩, fit⟩
  | succ limit ih =>
      have moved := fit.abides_go .next
      simp only [take]
      cases went : (next : Attempt Failure (Tree height) _) root with
      | mk outcome reached =>
          cases outcome with
          | error failure =>
              have failed := moved.of_error went
              refine ⟨?_, failed.2⟩
              rintro _ ⟨rfl⟩
              exact failed.1
          | ok span? =>
              have fit : reached.Fit := moved.of_ok went
              cases span? with
              | none => exact ⟨by rintro _ ⟨⟩, fit⟩
              | some span =>
                  dsimp only
                  cases paid : payloads reached with
                  | error failure =>
                      refine ⟨?_, fit⟩
                      rintro _ ⟨rfl⟩
                      exact fit.unbreached_payloads _ paid
                  | ok stored => exact ih fit

namespace Session

/-- What a step answered shows no breach. -/
def Sound (outcome : Except Failure Reply) : Prop :=
  ∀ standing, Answer.breached ⟨outcome, standing⟩ = false

/-- A reply other than taken spans tells of no failure. -/
theorem sound_map {α : Type} {outcome : Except Failure α}
    (unbreached : Unbreached outcome) {reply : α → Reply}
    (plain : ∀ value, Sound (.ok (reply value))) :
    Sound (outcome.map reply) := by
  cases outcome with
  | ok value => exact plain value
  | error failure =>
      intro standing
      cases failure with
      | breach rule => exact absurd rfl (unbreached _ rfl rule)
      | _ => rfl

/-- Taken spans tell of the failure that ended the taking. -/
theorem sound_taken {visits : List Visit} {ending : Ending}
    (ordinary : ∀ failure, ending = .failed failure → failure.Ordinary) :
    Sound (.ok (.taken visits ending)) := by
  intro standing
  cases ending with
  | limit => rfl
  | exhausted => rfl
  | failed failure =>
      cases failure with
      | breach rule => exact absurd rfl (ordinary _ rfl rule)
      | _ => rfl

/-- To move the root breaks no rule if the move abides. -/
theorem fit_moving {α : Type}
    (step : {height : Nat} → Attempt Failure (Tree height) α)
    (abides : Abides Tree.Fit (step : Attempt Failure (Tree height) α) root)
    {reply : α → Reply} (plain : ∀ value, Sound (.ok (reply value))) :
    Sound (moving ⟨root, detached⟩ step reply).1 ∧
      (moving ⟨root, detached⟩ step reply).2.root.Fit :=
  ⟨sound_map (fun _ => abides.ordinary) plain, abides.reached⟩

/-- Without its meter the root is as fit as before. -/
theorem fit_unwrap (fit : root.Fit) :
    (unwrap ⟨root, detached⟩).2.root.Fit := by
  match height, root with
  | _ + 1, .metered node => exact fit.child
  | _ + 1, .nothing leaf => exact fit
  | _ + 1, .listed leaf => exact fit
  | _ + 1, .term leaf => exact fit
  | _ + 1, .scripted name leaf => exact fit
  | _ + 1, .probe leaf => exact fit
  | _ + 1, .proximity node => exact fit
  | _ + 1, .union node => exact fit
  | _ + 1, .without node => exact fit
  | _ + 1, .region node => exact fit

/-- No step breaks a rule, and each leaves the root fit for the next one. -/
theorem fit_perform {session : Session} (fit : session.root.Fit)
    (step : Step) :
    Sound (session.perform step).1 ∧ (session.perform step).2.root.Fit := by
  obtain ⟨root, detached⟩ := session
  have unbreached : Unbreached (Cursor.current root) :=
    Standing.unbreached_span _
  cases step with
  | next =>
      exact fit_moving Cursor.next (fit.abides_go .next) fun _ _ => rfl
  | seek target =>
      refine fit_moving (Cursor.land target) ?_ fun _ _ => rfl
      rw [Cursor.land, Abides, Attempt.meets_map]
      exact fit.abides_go (.seek target)
  | take limit =>
      obtain ⟨ordinary, still⟩ := Cursor.fit_take limit fit
      exact ⟨sound_taken ordinary, still⟩
  | payloads => exact ⟨sound_map fit.unbreached_payloads fun _ _ => rfl, fit⟩
  | hasPayload =>
      exact ⟨sound_map (fit.unbreached_payloads.map _) fun _ _ => rfl, fit⟩
  | current => exact ⟨sound_map unbreached fun _ _ => rfl, fit⟩
  | doc =>
      exact ⟨sound_map (Standing.unbreached_doc _) fun _ _ => rfl, fit⟩
  | start => exact ⟨sound_map (unbreached.map _) fun _ _ => rfl, fit⟩
  | stop => exact ⟨sound_map (unbreached.map _) fun _ _ => rfl, fit⟩
  | atEnd => exact ⟨fun _ => rfl, fit⟩
  | estimate => exact ⟨fun _ => rfl, fit⟩
  | describe => exact ⟨fun _ => rfl, fit⟩
  | tally => exact ⟨fun _ => rfl, fit⟩
  | arm name fault? => exact ⟨fun _ => rfl, fit.arm name fault?⟩
  | close => exact ⟨fun _ => rfl, fit.close⟩
  | unwrap => exact ⟨fun _ => rfl, fit_unwrap fit⟩

end Session

end

/-! ## Walks -/

/-- A check counts within the interval and is refused for no breach. -/
theorem Deadline.abides_check {deadline : Deadline}
    (within : deadline.checks < deadline.interval) :
    check.Abides (fun reached => reached.checks < reached.interval)
      deadline := by
  have filled : 0 < deadline.interval := Nat.zero_lt_of_lt within
  rw [Abides, Attempt.Meets, Attempt.run, check]
  by_cases isOver : deadline.interval ≤ deadline.checks + 1
  · cases isReached : deadline.reached
    · simpa [isOver] using filled
    · simpa [isOver, Failure.Ordinary] using filled
  · simpa only [isOver, ↓reduceIte] using Nat.lt_of_not_le isOver

namespace Walk

variable {height : Nat}

/--
A walk under way: the root goes on from the last span, and the checks of the
deadline are counted within its interval.
-/
structure Progress.Fit (last? : Option Span)
    (progress : Progress (Tree height)) : Prop where
  trusted : Trusted Tree.armed last? progress.root
  inRange : progress.root.InRange
  timely : ∀ deadline ∈ progress.deadline?,
    deadline.checks < deadline.interval

/-- A walk under way, wherever its root stands. -/
def Progress.Sound (progress : Progress (Tree height)) : Prop :=
  ∃ last?, progress.Fit last?

variable {progress : Progress (Tree height)} {last? : Option Span}

/-- Where a move goes on in order, the walk goes on. -/
theorem Progress.Fit.meets_moving {α : Type} (fit : progress.Fit last?)
    {step : Attempt Failure (Tree height) α} {toLast? : α → Option Span}
    (meets : step.Meets progress.root
      (fun value reached => Trusted Tree.armed (toLast? value) reached)
      fun failure reached => failure.Ordinary ∧
        Trusted Tree.armed last? reached)
    (sustains : step.Sustains (fun _ => True) Tree.InRange progress.root) :
    (moving step).Meets progress
      (fun value reached => reached.Fit (toLast? value))
      fun failure reached => failure.Ordinary ∧ reached.Sound := by
  rw [moving, Attempt.meets_within]
  refine (meets.and sustains).mono ?_ ?_
  · rintro value reached ⟨trusted, inRange⟩
    exact ⟨trusted, inRange, fit.timely⟩
  · rintro failure reached ⟨⟨ordinary, trusted⟩, inRange⟩
    exact ⟨ordinary, last?, trusted, inRange trivial, fit.timely⟩

theorem Progress.Fit.abides_checkDeadline (fit : progress.Fit last?) :
    checkDeadline.Abides (Progress.Fit last?) progress := by
  obtain ⟨root, visits, deadline?⟩ := progress
  cases deadline? with
  | none => exact fit
  | some deadline =>
      have checked := Deadline.abides_check (fit.timely deadline rfl)
      simp only [Abides, Attempt.Meets, Attempt.run, checkDeadline] at *
      cases went : Deadline.check deadline with
      | mk outcome reached =>
          rw [went] at checked
          cases outcome with
          | ok value =>
              exact ⟨fit.trusted, fit.inRange, by rintro _ ⟨rfl⟩; exact checked⟩
          | error failure =>
              exact ⟨checked.1, fit.trusted, fit.inRange,
                by rintro _ ⟨rfl⟩; exact checked.2⟩

/-- From a span on, a walk breaks no rule. -/
theorem abides_follow (plan : Plan) {span : Span}
    {progress : Progress (Tree height)} (fit : progress.Fit (some span)) :
    (follow plan span).Abides Progress.Sound progress := by
  rw [follow]
  apply Attempt.abides_look_bind
  dsimp only
  split
  · exact Attempt.abides_pure ⟨_, fit⟩ true
  simp only [visit, Abides, Attempt.meets_bind, Attempt.meets_look,
    Attempt.meets_ofExcept, Attempt.meets_update]
  refine ⟨fun payloads _ => ?_, fun failure refused =>
    ⟨Lawful.guards.payloads fit.trusted.lawful refused, _, fit⟩⟩
  have visited : Progress.Fit (some span)
      { progress with visits := progress.visits.push ⟨span, payloads⟩ } :=
    ⟨fit.trusted, fit.inRange, fit.timely⟩
  refine Attempt.Meets.mono visited.abides_checkDeadline ?_
    fun _ _ failed => ⟨failed.1, _, failed.2⟩
  intro _ checked fit
  apply (fit.meets_moving fit.trusted.meets_nextBeyond
    (Tree.lasting_inRange.nextBeyond fit.inRange span)).imp_answer
  rintro (_ | ⟨later, beyond⟩) reached fit
  · exact ⟨_, fit⟩
  · exact abides_follow plan fit
termination_by span.room
decreasing_by exact Span.room_lt_room beyond

/-- So does a walk that begins. -/
theorem abides_begin (plan : Plan) (fit : progress.Fit last?) :
    (begin plan).Abides Progress.Sound progress := by
  have entered : (Cursor.enter plan.startDoc?).Meets progress.root
      (fun span? reached => Trusted Tree.armed (span?.or last?) reached)
      fun failure reached => failure.Ordinary ∧
        Trusted Tree.armed last? reached := by
    apply (fit.trusted.meets_enter plan.startDoc?).imp_answer
    rintro (_ | span) reached advances
    · exact advances.2
    · exact advances.2.2.2
  simp only [begin, Abides, Attempt.meets_bind]
  apply (fit.meets_moving entered
    (Tree.lasting_inRange.enter fit.inRange plan.startDoc?)).imp_answer
  rintro (_ | span) reached fit
  · exact ⟨_, fit⟩
  · exact abides_follow plan fit

/-- Where a walk begins, if the clock counts to its deadline. -/
def Progress.start (plan : Plan) (root : Tree height) :
    Progress (Tree height) :=
  ⟨root, #[], plan.budget?.map fun seconds =>
    .ofBudget seconds plan.interval⟩

theorem abides_start (plan : Plan) {root : Tree height} (fit : root.Fit) :
    (begin plan).Abides Progress.Sound (.start plan root) := by
  obtain ⟨last?, trusted⟩ := fit.trusted
  refine abides_begin plan
    (show Progress.Fit last? _ from ⟨trusted, fit.inRange, ?_⟩)
  intro deadline isDeadline
  obtain ⟨seconds, _, rfl⟩ := Option.map_eq_some_iff.mp isDeadline
  exact Nat.lt_of_lt_of_le Nat.one_pos (Nat.le_max_right _ _)

/-- A walk over a fit tree leaves it fit. -/
theorem fit_run (plan : Plan) {root : Tree height} (fit : root.Fit) :
    (run plan root).root.Fit := by
  by_cases timely : plan.Timely
  · obtain ⟨last?, reached⟩ := (abides_start plan fit).reached
    rw [run_of_timely timely]
    exact Tree.Fit.close ⟨⟨last?, reached.trusted⟩, reached.inRange⟩
  · rw [run_of_not_timely timely]
    exact fit

/--
A walk over a fit tree ends in no breach, exactly if the clock counts to the end
of its time budget.
-/
theorem unbreached_run_iff (plan : Plan) {root : Tree height}
    (fit : root.Fit) : Unbreached (run plan root).outcome ↔ plan.Timely := by
  constructor
  · intro unbreached
    by_contra untimely
    rw [run_of_not_timely untimely] at unbreached
    exact unbreached _ rfl .endlessBudget rfl
  · intro timely
    have begun := abides_start plan fit
    rw [run_of_timely timely]
    exact Unbreached.map (fun _ => begun.ordinary) _

/-- Its deadline is left within the interval. -/
theorem timely_begin (plan : Plan) {root : Tree height} (fit : root.Fit) :
    ∀ deadline ∈ (begin plan (.start plan root)).2.deadline?,
      deadline.checks < deadline.interval :=
  let ⟨_, reached⟩ := (abides_start plan fit).reached
  reached.timely

end Walk

/-! ## Sessions -/

namespace Session

/-- What can be done with a session. -/
inductive Use
  | step (step : Step)
  | walk (plan : Walk.Plan)

/-- The session after it was used. -/
def afterUse (session : Session) : Use → Session
  | .step step => (session.perform step).2
  | .walk plan => (session.walk plan).2

/-- The session after several uses. -/
def afterUses (session : Session) (uses : List Use) : Session :=
  uses.foldl afterUse session

/-- Each step is taken and answered without a breach. -/
theorem fit_performAll {session : Session} (fit : session.root.Fit)
    (steps : List Step) :
    (session.performAll steps).1.map Answer.breached =
        List.replicate steps.length false ∧
      (session.performAll steps).2.root.Fit := by
  induction steps generalizing session with
  | nil => exact ⟨rfl, fit⟩
  | cons step rest ih =>
      obtain ⟨sound, still⟩ := fit_perform fit step
      obtain ⟨answers, last⟩ := ih still
      have goesOn : session.performAll (step :: rest) =
          (⟨(session.perform step).1, (session.perform step).2.standing⟩ ::
            ((session.perform step).2.performAll rest).1,
            ((session.perform step).2.performAll rest).2) :=
        if_neg (Bool.not_eq_true _ ▸ sound _)
      rw [goesOn]
      exact ⟨congrArg₂ List.cons (sound _) answers, last⟩

end Session

end PositionalSearch
