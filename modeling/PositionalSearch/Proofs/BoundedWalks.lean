import PositionalSearch.Proofs.Closed
import PositionalSearch.Proofs.Exact.Tree
import PositionalSearch.Proofs.Follow.Walks

/-!
# Walks read out their roots

A walk without a time budget makes the moves that anyone could make: the first
one to where it begins, and then one to the next span after each visit.  It
visits what these moves answer, up to its limit, looks one answer further, and
closes the root where that answer left it.
-/

namespace PositionalSearch

open Cursor (Happening Orderly Reliable)

/--
What a cursor answers, and where it is then, to the last of a first move and a
number of moves to the next span.
-/
def Cursor.reply {σ : Type} [Cursor σ] (first : Move) (cursor : σ) :
    Nat → Except Failure (Option Span) × σ
  | 0 => go first cursor
  | nexts + 1 => go .next (reply first cursor nexts).2

namespace Walk

open Cursor (reply)

variable {ι σ : Type} [Cursor σ]

/-- The first move of a walk. -/
def Plan.first (plan : Plan) : Move := plan.startDoc?.elim .next .seek

theorem enter_eq_go (plan : Plan) :
    (Cursor.enter plan.startDoc? : Attempt Failure σ _) =
      Cursor.go plan.first := by
  unfold Plan.first
  cases plan.startDoc? <;> rfl

/-- The visits are the first spans answered, with the payloads there. -/
structure Visited (plan : Plan) (root : σ) (visits : List Visit) : Prop where
  answered : ∀ (place : Nat) (inside : place < visits.length),
    (reply plan.first root place).1 = .ok (some visits[place].span) ∧
      Cursor.payloads (reply plan.first root place).2 =
        .ok visits[place].payloads
  limited : ∀ limit ∈ plan.limit?, visits.length ≤ limit

/-- After that many visits the next answer is what the walk ends with. -/
def Stopped (plan : Plan) (root : σ) (made : Nat) :
    Except Failure Bool → Prop
  | .ok true => plan.limit? = some made ∧
      ∃ span, (reply plan.first root made).1 = .ok (some span)
  | .ok false => (reply plan.first root made).1 = .ok none
  | .error failure => (reply plan.first root made).1 = .error failure

/--
A walk visited the answers of the root up to its limit, ended as the next
answer says, and closed the root where that answer left it.
-/
structure Faithful (plan : Plan) (root : σ) (result : Result σ) : Prop where
  visited : Visited plan root result.visits
  ended : ∃ outcome, Stopped plan root result.visits.length outcome ∧
    result.outcome =
      outcome.map fun truncated => ⟨result.visits.length, truncated⟩
  closed : result.root =
    Cursor.close (reply plan.first root result.visits.length).2

theorem any_limit_iff {plan : Plan} {made : Nat} :
    (plan.limit?.any fun limit => limit ≤ made) = true ↔
      ∃ limit, plan.limit? = some limit ∧ limit ≤ made := by
  cases plan.limit? <;> simp

/-! ## One visit after the other -/

/-- A walk that has made its visits and stopped. -/
structure Done (plan : Plan) (root : σ) (outcome : Except Failure Bool)
    (reached : Progress σ) : Prop where
  visited : Visited plan root reached.visits.toList
  stopped : Stopped plan root reached.visits.size outcome
  root : reached.root = (reply plan.first root reached.visits.size).2

/-- A walk about to visit the span on which its root stands. -/
structure Underway (disturb : ι → σ → σ) (fit : σ → Prop) (plan : Plan)
    (root : σ) (span : Span) (progress : Progress σ) : Prop where
  visited : Visited plan root progress.visits.toList
  here : reply plan.first root progress.visits.size =
    (.ok (some span), progress.root)
  stands : Cursor.standing progress.root = .on span
  orderly : Orderly disturb (some span) progress.root
  fit : fit progress.root

variable {disturb : ι → σ → σ} {fit : σ → Prop} {plan : Plan} {root : σ}
  {last? : Option Span} {span : Span}

/-- One more visit within the limit. -/
theorem Visited.push {visits : Array Visit} {payloads : List Payload}
    {current : σ} (visited : Visited plan root visits.toList)
    (here : reply plan.first root visits.size = (.ok (some span), current))
    (paid : Cursor.payloads current = .ok payloads)
    (below : ∀ limit ∈ plan.limit?, visits.size < limit) :
    Visited plan root (visits.push ⟨span, payloads⟩).toList := by
  rw [Array.toList_push]
  refine ⟨fun place inside => ?_, fun limit isLimit => ?_⟩
  · rw [List.length_append, List.length_singleton, Array.length_toList]
      at inside
    rcases Nat.lt_or_eq_of_le (Nat.lt_succ_iff.mp inside) with before | rfl
    · have older : place < visits.toList.length := before
      rw [List.getElem_append_left older]
      exact visited.answered place older
    · simp [here, paid]
  · simpa using below limit isLimit

/-- A move that goes on in order answers what the next move of a root does. -/
theorem meets_nextBeyond {cursor : σ} (reliable : Reliable fit)
    (isFit : fit cursor)
    (orderly : Orderly disturb (some span) cursor) :
    (Cursor.nextBeyond span).Meets cursor
      (fun later? reached =>
        Cursor.go .next cursor = (.ok (later?.map Subtype.val), reached) ∧
          ∀ later ∈ later?, Cursor.standing reached = .on later.val ∧
            Orderly disturb (some later.val) reached ∧ fit reached)
      (fun failure reached =>
        Cursor.go .next cursor = (.error failure, reached)) := by
  have advances := orderly.meets_next
  have arrives := reliable isFit .next
  rw [Cursor.nextBeyond, Attempt.meets_bind]
  cases went : (Cursor.next : Attempt Failure σ _) cursor with
  | mk outcome reached =>
      cases outcome with
      | error failure => exact (Attempt.meets_of_error went).mpr went
      | ok span? =>
          rw [Attempt.meets_of_ok went] at advances ⊢
          cases span? with
          | none => exact ⟨went, by rintro _ ⟨⟩⟩
          | some later =>
              obtain ⟨after, _, stands, orderlyOn⟩ := advances
              have fitOn := (Attempt.Meets.of_ok arrives went).1
              simp only [Cursor.demandBeyond, after span rfl, ↓reduceDIte]
              refine ⟨went, ?_⟩
              rintro _ ⟨rfl⟩
              exact ⟨stands, orderlyOn, fitOn⟩

variable (reliable : Reliable fit)
  (pays : ∀ {cursor : σ} {span : Span}, fit cursor →
    Cursor.standing cursor = .on span →
      ∃ stored, Cursor.payloads cursor = .ok stored)
include reliable pays

/-- From a span on a walk visits what is answered until it stops. -/
theorem done_follow {span : Span} {current : σ} {visits : Array Visit}
    (underway : Underway disturb fit plan root span ⟨current, visits, none⟩) :
    (follow plan span).Meets ⟨current, visits, none⟩
      (fun isCut => Done plan root (.ok isCut))
      (fun failure => Done plan root (.error failure)) := by
  rw [follow, Attempt.meets_bind, Attempt.meets_look]
  dsimp only
  split
  · rename_i isLimited
    obtain ⟨limit, isLimit, reaches⟩ := any_limit_iff.mp isLimited
    have within : visits.toList.length ≤ limit :=
      underway.visited.limited limit isLimit
    obtain rfl : limit = visits.size := Nat.le_antisymm reaches within
    have here := underway.here
    exact ⟨underway.visited, ⟨isLimit, span, congrArg Prod.fst here⟩,
      (congrArg Prod.snd here).symm⟩
  · rename_i unlimited
    obtain ⟨payloads, paid⟩ := pays underway.fit underway.stands
    have visited : Visited plan root (visits.push ⟨span, payloads⟩).toList := by
      refine underway.visited.push underway.here paid fun limit isLimit => ?_
      refine Nat.lt_of_not_le fun reaches => unlimited ?_
      exact any_limit_iff.mpr ⟨limit, isLimit, reaches⟩
    -- What the root answers next is its answer after as many moves as visits.
    have further : ∀ {outcome : Except Failure (Option Span)} {reached : σ},
        Cursor.go .next current = (outcome, reached) →
          reply plan.first root (visits.push ⟨span, payloads⟩).size =
            (outcome, reached) := by
      intro outcome reached went
      rw [Array.size_push, reply, underway.here]
      exact went
    simp only [Walk.visit, paid, moving, Attempt.meets_bind,
      Attempt.meets_look, Attempt.meets_ofExcept_ok, Attempt.meets_update,
      Attempt.meets_within, meets_checkDeadline]
    apply (meets_nextBeyond reliable underway.fit underway.orderly).mono
    · rintro later? reached ⟨went, goesOn⟩
      have here := further went
      cases later? with
      | none =>
          exact ⟨visited, congrArg Prod.fst here, (congrArg Prod.snd here).symm⟩
      | some later =>
          obtain ⟨later, beyond⟩ := later
          have := Span.room_lt_room beyond
          obtain ⟨stands, orderly, isFit⟩ := goesOn _ rfl
          exact done_follow ⟨visited, here, stands, orderly, isFit⟩
    · intro failure reached went
      have here := further went
      exact ⟨visited, congrArg Prod.fst here, (congrArg Prod.snd here).symm⟩
termination_by span.room

/-- So does a walk that begins. -/
theorem done_begin (isFit : fit root) (orderly : Orderly disturb last? root) :
    (begin plan).Meets ⟨root, #[], none⟩
      (fun isCut => Done plan root (.ok isCut))
      (fun failure => Done plan root (.error failure)) := by
  have visited : Visited plan root [] := ⟨nofun, fun _ _ => Nat.zero_le _⟩
  have advances := Orderly.disciplined.moves orderly plan.first
  have arrives := reliable isFit plan.first
  simp only [begin, moving, enter_eq_go, Attempt.meets_bind,
    Attempt.meets_within]
  cases went : Cursor.go plan.first root with
  | mk outcome reached =>
      have here : reply plan.first root 0 = (outcome, reached) := went
      cases outcome with
      | error failure =>
          exact (Attempt.meets_of_error went).mpr
            ⟨visited, congrArg Prod.fst here, (congrArg Prod.snd here).symm⟩
      | ok span? =>
          refine (Attempt.meets_of_ok went).mpr ?_
          cases span? with
          | none =>
              exact ⟨visited, congrArg Prod.fst here,
                (congrArg Prod.snd here).symm⟩
          | some span =>
              obtain ⟨_, _, stands, orderlyOn⟩ := advances.of_ok went
              exact done_follow reliable pays ⟨visited, here, stands, orderlyOn,
                (Attempt.Meets.of_ok arrives went).1⟩

/-- A walk without a time budget reads out its root. -/
theorem faithful_run (untimed : plan.budget? = none) (isFit : fit root)
    (orderly : Orderly disturb last? root) :
    Faithful plan root (run plan root) := by
  have done : (begin plan).Meets ⟨root, #[], none⟩
      (fun isCut => Done plan root (.ok isCut))
      (fun failure => Done plan root (.error failure)) :=
    done_begin reliable pays isFit orderly
  cases began : begin plan (⟨root, #[], none⟩ : Progress σ) with
  | mk outcome reached =>
      have done : Done plan root outcome reached := by
        cases outcome with
        | ok isCut => exact done.of_ok began
        | error failure => exact done.of_error began
      have walked : run plan root = .ofEnd (outcome, reached) := by
        rw [run_of_timely (plan.timely_of_untimed untimed), untimed, runUntil,
          Option.map_none, began]
      rw [walked]
      exact ⟨done.visited, ⟨outcome, done.stopped, rfl⟩,
        congrArg Cursor.close done.root⟩

omit reliable pays in
/-- A walk over what is shut visits nothing and is refused. -/
theorem run_shut {plan : Plan} (timely : plan.Timely) {root : σ}
    (shut : Cursor.Shut root) :
    (run plan root).visits = [] ∧
      (run plan root).outcome = .error .closed := by
  rw [run_of_timely timely, runUntil]
  generalize plan.budget?.map _ = deadline?
  have refused : (begin plan).Meets ⟨root, #[], deadline?⟩
      (fun _ _ => False)
      (fun failure reached => failure = .closed ∧ reached.visits = #[]) := by
    simp only [begin, moving, enter_eq_go, Attempt.meets_bind,
      Attempt.meets_within]
    exact (shut.moves plan.first).mono (fun _ _ impossible => impossible.elim)
      fun _ _ refused => ⟨refused.1, trivial⟩
  cases began : begin plan (⟨root, #[], deadline?⟩ : Progress σ) with
  | mk outcome reached =>
      cases outcome with
      | ok isCut => exact (refused.of_ok began).elim
      | error failure =>
          obtain ⟨rfl, empty⟩ := refused.of_error began
          exact ⟨congrArg Array.toList empty, rfl⟩

end Walk

/-! ## Walks over trees -/

namespace Tree

variable {height : Nat}

/-- What no move changes is not changed by moves and by arming probes. -/
theorem lasts_undergo (tree : Tree height)
    (happenings : List (Happening (String × Option ProbeFault))) :
    tree.Lasts (Cursor.undergo armed happenings tree) := by
  induction happenings generalizing tree with
  | nil => exact .refl tree
  | cons happening rest ih =>
      cases happening with
      | disturb event => exact (tree.lasts_arm _ _).trans (ih _)
      | move move =>
          refine (tree.lasts_go move).trans ?_
          rw [Cursor.undergo, Cursor.make_of_go (Prod.mk.eta).symm]
          exact ih _

/-- Nor is it by what a walk asks. -/
theorem lasts_reply (tree : Tree height) (first : Move) (nexts : Nat) :
    tree.Lasts (Cursor.reply first tree nexts).2 := by
  induction nexts with
  | zero => exact tree.lasts_go first
  | succ nexts ih => exact ih.trans (Tree.lasts_go _ .next)

end Tree

namespace Query

/--
Whatever query was opened and moved without a failure, and whichever faults
are still to come, a walk without a time budget reads out its root and closes
each leaf once.  Any walk after that, if the clock shows the end of its time
budget, visits nothing and finds the root closed.
-/
theorem walks_read_out (query : Query)
    (happenings : List (Happening (String × Option ProbeFault)))
    (answered : ∀ report ∈
      Cursor.reports Tree.armed happenings query.openTree,
        ∃ reached, report.outcome = .ok reached)
    (plan : Walk.Plan) (untimed : plan.budget? = none) :
    let root := Cursor.undergo Tree.armed happenings query.openTree
    let result := Walk.run plan root
    Walk.Faithful plan root result ∧
    result.root.tally.closings = root.tally.closings.next ∧
    ∀ again : Walk.Plan, again.Timely →
      (Walk.run again result.root).visits = [] ∧
        (Walk.run again result.root).outcome = .error .closed := by
  intro root result
  have fits := Nat.le_refl query.height
  have exact : root.Exact :=
    Tree.exact_undergo (stands_openAt query.height query fits).fit answered
  obtain ⟨last?, orderly⟩ := Orderly.disciplined.keeps_undergo
    (orderly_openAt query.height query fits) happenings
  have faithful : Walk.Faithful plan root result :=
    Walk.faithful_run (Tree.reliable query.height) Tree.Exact.exists_payloads
      untimed exact orderly
  have opened : root.IsOpen :=
    (query.openTree.lasts_undergo happenings).isOpen
      (isOpen_openAt query.height query fits)
  refine ⟨faithful, ?_, fun again timely => ?_⟩
  · have lasts := root.lasts_reply plan.first result.visits.length
    rw [faithful.closed, Tree.closings_close (lasts.isOpen opened),
      lasts.closings]
  · apply Walk.run_shut timely
    rw [faithful.closed]
    exact Tree.shut _ (Tree.standing_close _)

/-- A term whose fourth position cannot be read. -/
def tornTerm : Query :=
  .scripted "torn" ⟨[⟨.nextPosition, 4, ⟨.interrupted, "torn"⟩⟩], [], none⟩
    [⟨1, 0, none⟩, ⟨1, 2, some ⟨#[7]⟩⟩, ⟨2, 5, none⟩, ⟨3, 0, none⟩]

/--
From its second span on the term is walked up to a limit of two; the look
beyond the limit fails, and the walk with it.
-/
theorem torn_term_read_out :
    let root := Cursor.undergo Tree.armed [.move .next] tornTerm.openTree
    let plan : Walk.Plan := ⟨none, some 2, none, 100, 0⟩
    let result := Walk.run plan root
    (∀ report ∈ Cursor.reports Tree.armed [.move .next] tornTerm.openTree,
      ∃ reached, report.outcome = .ok reached) ∧
    plan.budget? = none ∧
    Walk.Faithful plan root result ∧
    result.visits.map Visit.span = [.ofToken 1 2, .ofToken 2 5] ∧
    result.outcome = .error (.unreadable ⟨.interrupted, "torn"⟩) ∧
    (Walk.run plan result.root).outcome = .error .closed := by
  intro root plan result
  have outcomes : (Cursor.reports Tree.armed [.move .next]
      tornTerm.openTree).map Report.outcome =
        [.ok (.span (some (.ofToken 1 0)))] := by
    cbv
  have answered : ∀ report ∈
      Cursor.reports Tree.armed [.move .next] tornTerm.openTree,
        ∃ reached, report.outcome = .ok reached := by
    intro report member
    have isOutcome := List.mem_map_of_mem (f := Report.outcome) member
    rw [outcomes, List.mem_singleton] at isOutcome
    exact ⟨_, isOutcome⟩
  have walked : (Walk.run ⟨none, some 2, none, 100, 0⟩
      (Cursor.undergo Tree.armed [.move .next]
        tornTerm.openTree)).visits.map Visit.span =
        [.ofToken 1 2, .ofToken 2 5] ∧
      (Walk.run ⟨none, some 2, none, 100, 0⟩ (Cursor.undergo Tree.armed
        [.move .next] tornTerm.openTree)).outcome =
          .error (.unreadable ⟨.interrupted, "torn"⟩) := by
    constructor <;> cbv
  obtain ⟨faithful, _, again⟩ :=
    walks_read_out tornTerm [.move .next] answered plan rfl
  exact ⟨answered, rfl, faithful, walked.1, walked.2,
    (again plan (plan.timely_of_untimed rfl)).2⟩

end Query

end PositionalSearch
