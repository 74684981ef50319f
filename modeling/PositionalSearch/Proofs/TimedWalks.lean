import PositionalSearch.Proofs.BoundedWalks
import PositionalSearch.Proofs.CarryingLevels
import PositionalSearch.Proofs.Logging

/-!
# Time budgets cut walks

A walk with a time budget is compared with the same walk without one.  A
deadline that is still ahead changes nothing.  One that has passed is noticed
at the first reading of the clock, after as many visits as the interval says:
if the walk makes that many, it ends right there, whatever else would have
ended it later, and otherwise the deadline is not noticed at all.
-/

namespace PositionalSearch

open Attempt (Along along_pure along_bind along_within)
open Cursor (Carries Lasting reply)

/-! ## Deadlines -/

namespace Deadline

/-- After how many more checks the deadline is noticed, if it ever is. -/
def due? (deadline : Deadline) : Option Nat :=
  if deadline.reached then some (deadline.interval - deadline.checks) else none

variable {deadline : Deadline}

/-- When the interval is over, the clock is read. -/
theorem check_of_over (isOver : deadline.interval ≤ deadline.checks + 1) :
    deadline.check = (if deadline.reached then .error .timedOut else .ok (),
      deadline.renew) := by
  rw [check, if_pos isOver]
  split <;> rfl

theorem due?_eq_none_iff : deadline.due? = none ↔ deadline.reached = false := by
  simp [due?]

/-- A deadline that is ahead is not noticed by a check. -/
theorem check_of_ahead (ahead : deadline.due? = none) :
    ∃ later, deadline.check = (.ok (), later) ∧ later.due? = none := by
  have unreached := due?_eq_none_iff.mp ahead
  by_cases isOver : deadline.interval ≤ deadline.checks + 1
  · refine ⟨deadline.renew, ?_, due?_eq_none_iff.mpr unreached⟩
    rw [check_of_over isOver, unreached]
    rfl
  · exact ⟨_, if_neg isOver, due?_eq_none_iff.mpr unreached⟩

theorem due?_eq_some_iff {checks : Nat} :
    deadline.due? = some checks ↔
      deadline.reached = true ∧ deadline.interval - deadline.checks = checks := by
  simp [due?]

/-- A budget of no time is noticed after one interval, any other never. -/
theorem due?_ofBudget (seconds interval : Nat) :
    (ofBudget seconds interval).due? =
      if seconds = 0 then some (max interval 1) else none := by
  simp [due?, ofBudget]

/-- The last check of an interval notices a deadline that has passed. -/
theorem check_of_due (isDue : deadline.due? = some 1) :
    deadline.check = (.error .timedOut, deadline.renew) := by
  obtain ⟨reached, left⟩ := due?_eq_some_iff.mp isDue
  rw [check_of_over (by omega), reached]
  rfl

/-- Any check before brings it closer. -/
theorem check_of_due_later {checks : Nat}
    (isDue : deadline.due? = some (checks + 2)) :
    ∃ later, deadline.check = (.ok (), later) ∧
      later.due? = some (checks + 1) := by
  obtain ⟨reached, left⟩ := due?_eq_some_iff.mp isDue
  have isOn : ¬ deadline.interval ≤ deadline.checks + 1 := by omega
  refine ⟨_, if_neg isOn, due?_eq_some_iff.mpr ⟨reached, ?_⟩⟩
  dsimp only
  omega

end Deadline

namespace Walk

variable {σ : Type} [Cursor σ] {plan : Plan} {span : Span}
  {progress : Progress σ}

/-! ## One visit -/

/-- Go on to a later span, if there is one. -/
def proceed (plan : Plan) :
    Option { later : Span // span < later } →
      Attempt Failure (Progress σ) Bool
  | none => pure false
  | some later => follow plan later.val

/-- What a walk does once it has made a visit. -/
def pursue (plan : Plan) (span : Span) : Attempt Failure (Progress σ) Bool :=
  moving (Cursor.nextBeyond span) >>= proceed plan

/-- A walk that may make no more visits. -/
def Full (plan : Plan) (progress : Progress σ) : Prop :=
  (plan.limit?.any fun limit => limit ≤ progress.visits.size) = true

theorem follow_of_full (full : Full plan progress) :
    follow plan span progress = (.ok true, progress) := by
  change _ = (pure true : Attempt Failure (Progress σ) Bool) progress
  refine Attempt.eq_of_meets_iff fun answered failed => ?_
  rw [follow, Attempt.meets_bind, Attempt.meets_look]
  dsimp only
  rw [if_pos (by exact full)]

/-- Without payloads to show, a walk fails. -/
theorem follow_of_unpaid (room : ¬ Full plan progress) {failure : Failure}
    (unpaid : Cursor.payloads progress.root = .error failure) :
    follow plan span progress = (.error failure, progress) := by
  change _ = (Attempt.fail failure : Attempt Failure (Progress σ) Bool) progress
  refine Attempt.eq_of_meets_iff fun answered failed => ?_
  rw [follow, Attempt.meets_bind, Attempt.meets_look]
  dsimp only
  rw [if_neg (by exact room)]
  simp only [visit, unpaid, Attempt.meets_bind, Attempt.meets_look,
    Attempt.meets_ofExcept_error, Attempt.meets_fail]

/-- Any other walk makes a visit, checks its deadline and goes on. -/
theorem follow_of_paid (room : ¬ Full plan progress) {payloads : List Payload}
    (paid : Cursor.payloads progress.root = .ok payloads) :
    follow plan span progress =
      (checkDeadline >>= fun _ => pursue plan span)
        { progress with visits := progress.visits.push ⟨span, payloads⟩ } := by
  refine Attempt.eq_of_meets_iff fun answered failed => ?_
  rw [follow, Attempt.meets_bind, Attempt.meets_look]
  dsimp only
  rw [if_neg (by exact room)]
  simp only [visit, pursue, paid, Attempt.meets_bind, Attempt.meets_look,
    Attempt.meets_ofExcept_ok, Attempt.meets_update]
  refine iff_of_eq (congrArg (checkDeadline.Meets _ · failed) ?_)
  funext _ reached
  refine congrArg ((moving _).Meets reached · failed) ?_
  funext later? after
  rcases later? with _ | ⟨later, beyond⟩
  · rfl
  · rfl

section

variable {root reached : σ} {visits : Array Visit} {deadline? : Option Deadline}

theorem pursue_of_error {failure : Failure}
    (went : Cursor.nextBeyond span root = (.error failure, reached)) :
    pursue plan span ⟨root, visits, deadline?⟩ =
      (.error failure, ⟨reached, visits, deadline?⟩) := by
  change _ = (Attempt.fail failure : Attempt Failure (Progress σ) Bool) _
  refine Attempt.eq_of_meets_iff fun answered failed => ?_
  rw [pursue, Attempt.meets_bind, moving, Attempt.meets_within,
    Attempt.meets_of_error went, Attempt.meets_fail]

theorem pursue_of_ok {later? : Option { later : Span // span < later }}
    (went : Cursor.nextBeyond span root = (.ok later?, reached)) :
    pursue plan span ⟨root, visits, deadline?⟩ =
      proceed plan later? ⟨reached, visits, deadline?⟩ := by
  refine Attempt.eq_of_meets_iff fun answered failed => ?_
  rw [pursue, Attempt.meets_bind, moving, Attempt.meets_within,
    Attempt.meets_of_ok went]

/-- Where the next span is not the one wanted, the root was moved to it. -/
theorem snd_nextBeyond (span : Span) (root : σ) :
    (Cursor.nextBeyond span root).2 = (Cursor.go .next root).2 := by
  have stays : (Cursor.nextBeyond span).Sustains (fun _ => True)
      ((Cursor.go .next root).2 = ·) root := by
    refine Attempt.Sustains.bind (Attempt.sustains_of_reached rfl) ?_
    intro span? reached stayed
    exact Cursor.sustains_demandBeyond stayed span span?
  exact (stays.reached fun _ => trivial).symm

end

section

variable {root : σ} {visits : Array Visit} {deadline later : Deadline}
  {rest : Unit → Attempt Failure (Progress σ) Bool}

omit [Cursor σ] in
theorem checkDeadline_bind_of_none :
    (checkDeadline >>= rest) ⟨root, visits, none⟩ =
      rest () ⟨root, visits, none⟩ := rfl

omit [Cursor σ] in
theorem checkDeadline_bind_of_ok (checked : deadline.check = (.ok (), later)) :
    (checkDeadline >>= rest) ⟨root, visits, some deadline⟩ =
      rest () ⟨root, visits, some later⟩ := by
  have went : checkDeadline (⟨root, visits, some deadline⟩ : Progress σ) =
      (.ok (), ⟨root, visits, some later⟩) := by
    simp only [checkDeadline, checked]
  refine Attempt.eq_of_meets_iff fun answered failed => ?_
  rw [Attempt.meets_bind, Attempt.meets_of_ok went]

omit [Cursor σ] in
theorem checkDeadline_bind_of_error {failure : Failure}
    (checked : deadline.check = (.error failure, later)) :
    (checkDeadline >>= rest) ⟨root, visits, some deadline⟩ =
      (.error failure, ⟨root, visits, some later⟩) := by
  have went : checkDeadline (⟨root, visits, some deadline⟩ : Progress σ) =
      (.error failure, ⟨root, visits, some later⟩) := by
    simp only [checkDeadline, checked]
  change _ = (Attempt.fail failure : Attempt Failure (Progress σ) Bool) _
  refine Attempt.eq_of_meets_iff fun answered failed => ?_
  rw [Attempt.meets_bind, Attempt.meets_of_error went, Attempt.meets_fail]

end

/-! ## What a walk keeps -/

/-- A walk that has made some visits, and whose root is fit. -/
structure Further (visits : List Visit) (fit : σ → Prop)
    (progress : Progress σ) : Prop where
  made : visits <+: progress.visits.toList
  fit : fit progress.root

omit [Cursor σ] in
/-- To check the deadline neither moves nor visits. -/
theorem sustains_checkDeadline {visits : List Visit} {fit : σ → Prop}
    {spared : Failure → Prop} {progress : Progress σ}
    (further : Further visits fit progress) :
    checkDeadline.Sustains spared (Further visits fit) progress := by
  obtain ⟨root, made, deadline?⟩ := progress
  cases deadline? with
  | none => exact further
  | some deadline =>
      unfold Attempt.Sustains Attempt.Meets Attempt.run checkDeadline
      dsimp only
      cases deadline.check with
      | mk outcome later =>
          cases outcome with
          | ok _ => exact ⟨further.made, further.fit⟩
          | error failure => exact fun _ => ⟨further.made, further.fit⟩

section

variable {visits : List Visit} {fit : σ → Prop} {spared : Failure → Prop}
  (lasting : Lasting spared fit)
include lasting

theorem sustains_pursue {plan : Plan} {span : Span} {progress : Progress σ}
    (further : Further visits fit progress)
    (goesOn : ∀ later, span < later → ∀ reached : Progress σ,
      Further visits fit reached →
        (follow plan later).Sustains spared (Further visits fit) reached) :
    (pursue plan span).Sustains spared (Further visits fit) progress := by
  have moved : (moving (Cursor.nextBeyond span)).Sustains spared
      (Further visits fit) progress :=
    Attempt.sustains_within (lasting.nextBeyond further.fit span)
      fun _ isFit => ⟨further.made, isFit⟩
  apply moved.bind
  rintro (_ | ⟨later, beyond⟩) reached further
  · exact Attempt.sustains_pure further false
  · exact goesOn later beyond reached further

theorem sustains_follow {plan : Plan} {span : Span} {progress : Progress σ}
    (further : Further visits fit progress) :
    (follow plan span).Sustains spared (Further visits fit) progress := by
  by_cases full : Full plan progress
  · exact (Attempt.meets_of_ok (follow_of_full full)).mpr further
  cases paid : Cursor.payloads progress.root with
  | error failure =>
      exact (Attempt.meets_of_error (follow_of_unpaid full paid)).mpr
        fun _ => further
  | ok payloads =>
      have grown : Further visits fit
          { progress with visits := progress.visits.push ⟨span, payloads⟩ } :=
        ⟨further.made.trans (by simp), further.fit⟩
      refine (Attempt.meets_congr (follow_of_paid full paid)).mpr ?_
      refine Attempt.Sustains.bind (sustains_checkDeadline grown) ?_
      intro _ checked further
      refine sustains_pursue lasting further
        fun later beyond reached further => ?_
      have := Span.room_lt_room beyond
      exact sustains_follow further
termination_by span.room

end

/-- The visits made stay the first ones. -/
theorem made_pursue (plan : Plan) (span : Span) (progress : Progress σ) :
    progress.visits.toList <+: (pursue plan span progress).2.visits.toList := by
  have lasting : Lasting (fun _ => True) (fun _ : σ => True) :=
    fun _ _ _ => Attempt.sustains_true _ _
  have grown : (pursue plan span).Sustains (fun _ => True)
      (Further progress.visits.toList fun _ => True) progress :=
    sustains_pursue lasting ⟨List.prefix_rfl, trivial⟩
      fun _ _ _ => sustains_follow lasting
  exact (grown.reached fun _ => trivial).made

/-! ## Clipped walks -/

/--
What a walk comes to under a deadline that is due after so many more visits.
The root is at each place after a number of visits, and what the walk comes to
without a deadline is given.
-/
inductive Clipped (there : Nat → σ) (due? : Option Nat) (made : Nat)
    (free : Except Failure Bool × Progress σ) :
    Except Failure Bool × Progress σ → Prop
  /-- The walk ends before the deadline is noticed. -/
  | before {deadline? : Option Deadline}
      (early : ∀ due ∈ due?, free.2.visits.size < made + due) :
      Clipped there due? made free
        (free.1, { free.2 with deadline? := deadline? })
  /-- The walk ends with the last visit before the deadline is noticed. -/
  | cut {due : Nat} {visits : Array Visit} {deadline? : Option Deadline}
      (isDue : due? = some due) (late : made + due ≤ free.2.visits.size)
      (first : visits.toList = free.2.visits.toList.take (made + due)) :
      Clipped there due? made free
        (.error .timedOut, ⟨there (made + due - 1), visits, deadline?⟩)

omit [Cursor σ] in
/-- A walk that makes no more visits ends before a deadline not yet due. -/
theorem clipped_of_ended {there : Nat → σ} {due? : Option Nat}
    (notDue : due? ≠ some 0) {outcome : Except Failure Bool} {root : σ}
    {visits : Array Visit} {deadline? : Option Deadline} :
    Clipped there due? visits.size (outcome, ⟨root, visits, none⟩)
      (outcome, ⟨root, visits, deadline?⟩) := by
  refine .before fun due isDue => ?_
  have positive : due ≠ 0 := by
    rintro rfl
    exact notDue isDue
  dsimp only
  omega

omit [Cursor σ] in
/-- A visit brings the deadline closer by one. -/
theorem Clipped.step {there : Nat → σ} {due made : Nat}
    {free timed : Except Failure Bool × Progress σ}
    (clipped : Clipped there (some (due + 1)) (made + 1) free timed) :
    Clipped there (some (due + 2)) made free timed := by
  have same : made + 1 + (due + 1) = made + (due + 2) := by omega
  cases clipped with
  | before early =>
      refine .before fun _ isDue => ?_
      cases isDue
      rw [← same]
      exact early _ rfl
  | cut isDue late first =>
      cases isDue
      rw [same] at late first ⊢
      exact .cut rfl late first

omit [Cursor σ] in
/-- Nor does one bring a deadline closer that never comes. -/
theorem Clipped.ahead {there : Nat → σ} {made : Nat}
    {free timed : Except Failure Bool × Progress σ}
    (clipped : Clipped there none (made + 1) free timed) :
    Clipped there none made free timed := by
  cases clipped with
  | before early => exact .before (by rintro _ ⟨⟩)
  | cut isDue late first => cases isDue

section

variable {free timed : Plan} {there : Nat → σ}

/-- What comes after a visit is clipped as what comes after the next is. -/
theorem clipped_pursue {span : Span} {root : σ} {visits : Array Visit}
    {due? : Option Nat} {deadline : Deadline}
    (notDue : due? ≠ some 0)
    (here : there visits.size = (Cursor.go .next root).2)
    (goesOn : ∀ later, span < later → Clipped there due? visits.size
      (follow free later ⟨there visits.size, visits, none⟩)
      (follow timed later ⟨there visits.size, visits, some deadline⟩)) :
    Clipped there due? visits.size (pursue free span ⟨root, visits, none⟩)
      (pursue timed span ⟨root, visits, some deadline⟩) := by
  have arrives := snd_nextBeyond span root
  rw [← here] at arrives
  cases went : Cursor.nextBeyond span root with
  | mk outcome reached =>
      obtain rfl : there visits.size = reached := by
        rw [← arrives, went]
      cases outcome with
      | error failure =>
          rw [pursue_of_error went, pursue_of_error went]
          exact clipped_of_ended notDue
      | ok later? =>
          rw [pursue_of_ok went, pursue_of_ok went]
          rcases later? with _ | ⟨later, beyond⟩
          · exact clipped_of_ended notDue
          · exact goesOn later beyond

/-- To check the deadline after a visit is to end the walk, or to go on. -/
theorem clipped_checked {span : Span} {made : Nat} {visits : Array Visit}
    (visited : visits.size = made + 1) {deadline : Deadline}
    (notDue : deadline.due? ≠ some 0)
    (goesOn : ∀ later : Deadline, later.due? ≠ some 0 →
      Clipped there later.due? visits.size
        (pursue free span ⟨there made, visits, none⟩)
        (pursue timed span ⟨there made, visits, some later⟩)) :
    Clipped there deadline.due? made
      ((checkDeadline >>= fun _ => pursue free span)
        ⟨there made, visits, none⟩)
      ((checkDeadline >>= fun _ => pursue timed span)
        ⟨there made, visits, some deadline⟩) := by
  rw [checkDeadline_bind_of_none]
  rw [visited] at goesOn
  cases isDue : deadline.due? with
  | none =>
      obtain ⟨later, checked, ahead⟩ := Deadline.check_of_ahead isDue
      have clipped := goesOn later (by simp [ahead])
      rw [checkDeadline_bind_of_ok checked]
      rw [ahead] at clipped
      exact clipped.ahead
  | some due =>
      match due with
      | 0 => exact absurd isDue notDue
      | 1 =>
          rw [checkDeadline_bind_of_error (Deadline.check_of_due isDue)]
          have first := made_pursue free span
            (⟨there made, visits, none⟩ : Progress σ)
          have late := first.length_le
          rw [Array.length_toList, Array.length_toList, visited] at late
          refine .cut rfl late ?_
          rw [List.prefix_iff_eq_take.mp first, Array.length_toList, visited]
      | due + 2 =>
          obtain ⟨later, checked, closer⟩ := Deadline.check_of_due_later isDue
          have clipped := goesOn later (by simp [closer])
          rw [checkDeadline_bind_of_ok checked]
          rw [closer] at clipped
          exact clipped.step

/-- From a span on, a walk is clipped as its deadline says. -/
theorem clipped_follow (sameLimit : timed.limit? = free.limit?)
    (onward : ∀ made, there (made + 1) = (Cursor.go .next (there made)).2)
    {span : Span} {visits : Array Visit}
    {deadline : Deadline} (notDue : deadline.due? ≠ some 0) :
    Clipped there deadline.due? visits.size
      (follow free span ⟨there visits.size, visits, none⟩)
      (follow timed span ⟨there visits.size, visits, some deadline⟩) := by
  have sameRoom : Full timed
      (⟨there visits.size, visits, some deadline⟩ : Progress σ) ↔
        Full free (⟨there visits.size, visits, none⟩ : Progress σ) := by
    unfold Full
    rw [sameLimit]
  by_cases full : Full free (⟨there visits.size, visits, none⟩ : Progress σ)
  · rw [follow_of_full full, follow_of_full (sameRoom.mpr full)]
    exact clipped_of_ended notDue
  have notFull := mt sameRoom.mp full
  cases paid : Cursor.payloads (there visits.size) with
  | error failure =>
      rw [follow_of_unpaid full paid, follow_of_unpaid notFull paid]
      exact clipped_of_ended notDue
  | ok payloads =>
      rw [follow_of_paid full paid, follow_of_paid notFull paid]
      have pushed : (visits.push ⟨span, payloads⟩).size = visits.size + 1 :=
        Array.size_push _
      have here : there (visits.push ⟨span, payloads⟩).size =
          (Cursor.go .next (there visits.size)).2 := by
        rw [pushed, onward]
      refine clipped_checked pushed notDue fun later notDue => ?_
      refine clipped_pursue notDue here fun next beyond => ?_
      have := Span.room_lt_room beyond
      exact clipped_follow sameLimit onward notDue
termination_by span.room

end

/-! ## Whole walks -/

section

variable {root reached : σ} {visits : Array Visit} {deadline? : Option Deadline}

theorem begin_of_error {failure : Failure}
    (went : Cursor.enter plan.startDoc? root = (.error failure, reached)) :
    begin plan ⟨root, visits, deadline?⟩ =
      (.error failure, ⟨reached, visits, deadline?⟩) := by
  change _ = (Attempt.fail failure : Attempt Failure (Progress σ) Bool) _
  refine Attempt.eq_of_meets_iff fun answered failed => ?_
  rw [begin, Attempt.meets_bind, moving, Attempt.meets_within,
    Attempt.meets_of_error went, Attempt.meets_fail]

theorem begin_of_none
    (went : Cursor.enter plan.startDoc? root = (.ok none, reached)) :
    begin plan ⟨root, visits, deadline?⟩ =
      (.ok false, ⟨reached, visits, deadline?⟩) := by
  change _ = (pure false : Attempt Failure (Progress σ) Bool) _
  refine Attempt.eq_of_meets_iff fun answered failed => ?_
  rw [begin, Attempt.meets_bind, moving, Attempt.meets_within,
    Attempt.meets_of_ok went]

theorem begin_of_some
    (went : Cursor.enter plan.startDoc? root = (.ok (some span), reached)) :
    begin plan ⟨root, visits, deadline?⟩ =
      follow plan span ⟨reached, visits, deadline?⟩ := by
  refine Attempt.eq_of_meets_iff fun answered failed => ?_
  rw [begin, Attempt.meets_bind, moving, Attempt.meets_within,
    Attempt.meets_of_ok went]

end

/-- A walk is clipped as its deadline says. -/
theorem clipped_begin (free timed : Plan)
    (sameLimit : timed.limit? = free.limit?)
    (sameStart : timed.startDoc? = free.startDoc?) {there : Nat → σ} {root : σ}
    (here : there 0 = (Cursor.enter free.startDoc? root).2)
    (onward : ∀ made, there (made + 1) = (Cursor.go .next (there made)).2)
    {deadline : Deadline} (notDue : deadline.due? ≠ some 0) :
    Clipped there deadline.due? 0 (begin free ⟨root, #[], none⟩)
      (begin timed ⟨root, #[], some deadline⟩) := by
  change Clipped there _ (#[] : Array Visit).size _ _
  cases went : Cursor.enter free.startDoc? root with
  | mk outcome reached =>
      have wentToo : Cursor.enter timed.startDoc? root = (outcome, reached) := by
        rw [sameStart, went]
      obtain rfl : there 0 = reached := by
        rw [here, went]
      cases outcome with
      | error failure =>
          rw [begin_of_error went, begin_of_error wentToo]
          exact clipped_of_ended notDue
      | ok span? =>
          cases span? with
          | none =>
              rw [begin_of_none went, begin_of_none wentToo]
              exact clipped_of_ended notDue
          | some span =>
              rw [begin_of_some went, begin_of_some wentToo]
              exact clipped_follow sameLimit onward notDue

/--
A walk with a time budget makes the visits that come before its deadline is
due, and is otherwise the walk without a budget.
-/
theorem clipped_run (plan : Plan) {seconds : Nat} {due? : Option Nat}
    (dues : (Deadline.ofBudget seconds plan.interval).due? = due?)
    (timely : plan.now.val + seconds < clockSeconds) (root : σ) :
    let free := run { plan with budget? := none } root
    let timed := run { plan with budget? := some seconds } root
    (∀ due ∈ due?, free.visits.length < due) ∧ timed = free ∨
      ∃ due ∈ due?, due ≤ free.visits.length ∧
        timed = ⟨.error .timedOut, free.visits.take due,
          Cursor.close (reply plan.first root (due - 1)).2⟩ := by
  subst dues
  intro free timed
  have notDue : (Deadline.ofBudget seconds plan.interval).due? ≠ some 0 := by
    rw [Deadline.due?_ofBudget]
    split
    · simp
    · simp
  have here : (reply plan.first root 0).2 =
      (Cursor.enter plan.startDoc? root).2 := by
    rw [enter_eq_go, reply]
  have clipped : Clipped (fun made => (reply plan.first root made).2)
      (Deadline.ofBudget seconds plan.interval).due? 0
      (begin { plan with budget? := none } ⟨root, #[], none⟩)
      (begin { plan with budget? := some seconds }
        ⟨root, #[], some (.ofBudget seconds plan.interval)⟩) :=
    clipped_begin { plan with budget? := none }
      { plan with budget? := some seconds } rfl rfl here (fun _ => rfl) notDue
  have timed_eq : timed = .ofEnd (begin { plan with budget? := some seconds }
      ⟨root, #[], some (.ofBudget seconds plan.interval)⟩) :=
    run_of_timely (by rintro _ ⟨rfl⟩; exact timely) root
  have free_eq : free =
      .ofEnd (begin { plan with budget? := none } ⟨root, #[], none⟩) := rfl
  rw [timed_eq, free_eq]
  generalize begin { plan with budget? := none }
    (⟨root, #[], none⟩ : Progress σ) = freeEnd at clipped ⊢
  generalize begin { plan with budget? := some seconds }
    (⟨root, #[], some (.ofBudget seconds plan.interval)⟩ : Progress σ) =
      timedEnd at clipped ⊢
  cases clipped with
  | before early =>
      left
      refine ⟨fun due isDue => ?_, rfl⟩
      simpa [Result.ofEnd] using early due isDue
  | cut isDue late first =>
      right
      rw [Nat.zero_add] at late first
      refine ⟨_, isDue, by simpa [Result.ofEnd] using late, ?_⟩
      simp only [Result.ofEnd, first, Nat.zero_add]
      rfl

/-! ## Walks over logged roots -/

section

variable {τ : Type} [Cursor τ] {wrap : σ → τ}

/-- A walk under way, over what its root carries. -/
def Progress.carry (wrap : σ → τ) (progress : Progress σ) : Progress τ :=
  ⟨wrap progress.root, progress.visits, progress.deadline?⟩

omit [Cursor σ] [Cursor τ] in
theorem along_checkDeadline (progress : Progress σ) :
    Along (Progress.carry wrap) checkDeadline checkDeadline progress := by
  obtain ⟨root, visits, deadline?⟩ := progress
  cases deadline? with
  | none => rfl
  | some deadline =>
      unfold Along checkDeadline Progress.carry
      dsimp only

theorem along_follow (carries : Carries wrap) (plan : Plan) (span : Span)
    (progress : Progress σ) :
    Along (Progress.carry wrap) (follow plan span) (follow plan span)
      progress := by
  have paid_eq : Cursor.payloads (progress.carry wrap).root =
      Cursor.payloads progress.root := carries.payloads_eq progress.root
  unfold Along
  by_cases full : Full plan progress
  · have fullToo : Full plan (progress.carry wrap) := full
    rw [follow_of_full full, follow_of_full fullToo]
  have notFull : ¬ Full plan (progress.carry wrap) := full
  cases paid : Cursor.payloads progress.root with
  | error failure =>
      rw [follow_of_unpaid full paid,
        follow_of_unpaid notFull (paid_eq.trans paid)]
  | ok payloads =>
      rw [follow_of_paid full paid, follow_of_paid notFull (paid_eq.trans paid)]
      change Along (Progress.carry wrap)
        (checkDeadline >>= fun _ => pursue plan span)
        (checkDeadline >>= fun _ => pursue plan span)
        { progress with visits := progress.visits.push ⟨span, payloads⟩ }
      refine along_bind (along_checkDeadline _) fun _ checked _ => ?_
      refine along_bind (along_within rfl (fun _ => rfl)
        (carries.along_nextBeyond span checked.root)) fun later? reached _ => ?_
      rcases later? with _ | ⟨later, beyond⟩
      · exact along_pure false reached
      · have := Span.room_lt_room beyond
        exact along_follow carries plan later reached
termination_by span.room

theorem along_begin (carries : Carries wrap) (plan : Plan) (root : σ)
    (visits : Array Visit) (deadline? : Option Deadline) :
    Along (Progress.carry wrap) (begin plan) (begin plan)
      ⟨root, visits, deadline?⟩ := by
  have entered := carries.along_enter plan.startDoc? root
  unfold Along at entered ⊢
  change begin plan ⟨wrap root, visits, deadline?⟩ = _
  cases went : Cursor.enter plan.startDoc? root with
  | mk outcome reached =>
      rw [went] at entered
      cases outcome with
      | error failure =>
          rw [begin_of_error went, begin_of_error entered]
          rfl
      | ok span? =>
          cases span? with
          | none =>
              rw [begin_of_none went, begin_of_none entered]
              rfl
          | some span =>
              rw [begin_of_some went, begin_of_some entered]
              exact along_follow carries plan span ⟨reached, visits, deadline?⟩

/-- A walk over what its root carries is the walk over the root. -/
theorem runUntil_carried (carries : Carries wrap)
    (closes : ∀ cursor, Cursor.close (wrap cursor) = wrap (Cursor.close cursor))
    (deadline? : Option Deadline) (plan : Plan) (root : σ) :
    runUntil deadline? plan (wrap root) =
      ⟨(runUntil deadline? plan root).outcome,
        (runUntil deadline? plan root).visits,
        wrap (runUntil deadline? plan root).root⟩ := by
  have along := along_begin carries plan root #[] deadline?
  have carried : runUntil deadline? plan (wrap root) = .ofEnd (begin plan
      (Progress.carry wrap ⟨root, #[], deadline?⟩)) := rfl
  rw [carried, along, runUntil, Result.ofEnd, Result.ofEnd]
  simp only [Progress.carry, closes]

end

/-- What lasts for the root holds when a walk stops. -/
theorem fit_begin {fit : σ → Prop} (lasting : Lasting (fun _ => True) fit)
    (plan : Plan) {root : σ} (isFit : fit root) (visits : Array Visit)
    (deadline? : Option Deadline) :
    fit (begin plan ⟨root, visits, deadline?⟩).2.root := by
  have entered := (lasting.enter isFit plan.startDoc?).reached fun _ => trivial
  cases went : Cursor.enter plan.startDoc? root with
  | mk outcome reached =>
      rw [went] at entered
      cases outcome with
      | error failure =>
          rw [begin_of_error went]
          exact entered
      | ok span? =>
          cases span? with
          | none =>
              rw [begin_of_none went]
              exact entered
          | some span =>
              rw [begin_of_some went]
              have further : Further visits.toList fit
                  ⟨reached, visits, deadline?⟩ := ⟨List.prefix_rfl, entered⟩
              exact ((sustains_follow lasting further).reached
                fun _ => trivial).fit

/-- A walk over a logged root moves it, and then closes it once. -/
theorem run_logged {plan : Plan} (timely : plan.Timely) (root : σ) :
    ∃ moves : List Move, run plan (Logged.fresh root) =
      ⟨(run plan root).outcome, (run plan root).visits,
        ⟨(run plan root).root, .close :: moves.map .move⟩⟩ := by
  rw [run_of_timely timely, run_of_timely timely]
  generalize plan.budget?.map _ = deadline?
  have carried := runUntil_carried Logged.carries_cursor (fun _ => rfl)
    deadline? plan (Logged.fresh root)
  obtain ⟨moves, logs⟩ := fit_begin (Logged.lasting_unclosed _) plan
    (Logged.unclosed_fresh root) #[] deadline?
  have closed : (runUntil deadline? plan (Logged.fresh root)).root.calls =
      .close :: moves.map .move := congrArg (Call.close :: ·) logs
  change runUntil deadline? plan root = _ at carried
  refine ⟨moves, ?_⟩
  rw [carried, ← closed]

/-! ## Where budgets cut -/

/--
A budget that lasts changes nothing.  One that is used up changes nothing
either for a walk that makes fewer visits than the interval, and ends any other
with its visits up to the interval and no further move.  Whatever the budget, a
logged root is walked the same way and closed once, after all moves.  All this
supposes that the clock counts to the end of the budget.
-/
theorem budgets_cut (root : σ) (startDoc? : Option DocId)
    (limit? : Option Nat) (interval : Nat) (now : Second) :
    let plan := fun budget? : Option Nat =>
      (⟨startDoc?, limit?, budget?, interval, now⟩ : Plan)
    let free := run (plan none) root
    let checked := max interval 1
    (∀ seconds, now.val + (seconds + 1) < clockSeconds →
      run (plan (some (seconds + 1))) root = free) ∧
    (free.visits.length < checked → run (plan (some 0)) root = free) ∧
    (checked ≤ free.visits.length → run (plan (some 0)) root =
      ⟨.error .timedOut, free.visits.take checked,
        Cursor.close (reply (plan none).first root (checked - 1)).2⟩) ∧
    ∀ budget?, (∀ seconds ∈ budget?, now.val + seconds < clockSeconds) →
      ∃ moves : List Move,
        run (plan budget?) (Logged.fresh root) =
          ⟨(run (plan budget?) root).outcome, (run (plan budget?) root).visits,
            ⟨(run (plan budget?) root).root, .close :: moves.map .move⟩⟩ := by
  intro plan free checked
  have lasts (seconds : Nat) (timely : now.val + (seconds + 1) < clockSeconds) :=
    clipped_run (plan none) (Deadline.due?_ofBudget (seconds + 1) interval)
      timely root
  have expires := clipped_run (plan none)
    (Deadline.due?_ofBudget 0 interval) now.isLt root
  refine ⟨fun seconds timely => ?_, fun early => ?_, fun late => ?_,
    fun budget? timely =>
      run_logged (show (plan budget?).Timely from timely) root⟩
  · obtain ⟨-, same⟩ | ⟨_, isDue, -⟩ := lasts seconds timely
    · exact same
    · cases isDue
  · obtain ⟨-, same⟩ | ⟨_, isDue, late, -⟩ := expires
    · exact same
    · cases isDue
      exact absurd early (Nat.not_lt.mpr late)
  · obtain ⟨early, -⟩ | ⟨_, isDue, -, cut⟩ := expires
    · exact absurd (early _ rfl) (Nat.not_lt.mpr late)
    · cases isDue
      exact cut

/-- A term in three documents. -/
def threeTokens : Query :=
  .term [⟨1, 4, none⟩, ⟨2, 0, some ⟨#[9]⟩⟩, ⟨5, 1, none⟩]

/--
The clock is first read after the third visit, the last one that there is: the
walk times out all the same.  With an interval longer by one it does not, and
with one of zero it makes a single visit.  A budget up to the last second of
the clock lasts.
-/
theorem threeTokens_cut :
    let root := threeTokens.openTree
    let plan := fun (budget? : Option Nat) (interval : Nat) =>
      (⟨none, some 3, budget?, interval, 5⟩ : Plan)
    (run (plan none 3) root).outcome = .ok ⟨3, false⟩ ∧
    (run (plan (some 0) 3) root).outcome = .error .timedOut ∧
    (run (plan (some 0) 3) root).visits = (run (plan none 3) root).visits ∧
    run (plan (some 0) 4) root = run (plan none 4) root ∧
    run (plan (some 9223372036854775802) 3) root = run (plan none 3) root ∧
    (run ⟨some 2, none, some 0, 0, 5⟩ root).visits.map Visit.span =
      [.ofToken 2 0] := by
  intro root plan
  have three : (run ⟨none, some 3, none, 3, 5⟩ root).outcome =
        .ok ⟨3, false⟩ ∧
      (run ⟨none, some 3, none, 3, 5⟩ root).visits.length = 3 ∧
      (run ⟨none, some 3, none, 4, 5⟩ root).visits.length < 4 ∧
      (run ⟨some 2, none, none, 0, 5⟩ root).visits.map Visit.span =
        [.ofToken 2 0, .ofToken 5 1] := by
    refine ⟨?_, ?_, ?_, ?_⟩ <;> cbv
  obtain ⟨finished, made, fewer, later⟩ := three
  obtain ⟨lasts, -, cut, -⟩ := budgets_cut root none (some 3) 3 5
  obtain ⟨-, spared, -⟩ := budgets_cut root none (some 3) 4 5
  obtain ⟨-, -, cutFirst, -⟩ := budgets_cut root (some 2) none 0 5
  have atLeast : 3 ≤ (run ⟨none, some 3, none, 3, 5⟩ root).visits.length :=
    made.ge
  refine ⟨finished, ?_, ?_, spared fewer,
    lasts 9223372036854775801 (by decide), ?_⟩
  · rw [cut atLeast]
  · rw [cut atLeast]
    exact List.take_of_length_le made.le
  · have atLeastOne :
        1 ≤ (run ⟨some 2, none, none, 0, 5⟩ root).visits.length := by
      rw [← List.length_map Visit.span, later]
      decide
    rw [cutFirst atLeastOne]
    change (List.take 1 _).map _ = _
    rw [List.map_take, later]
    rfl

end Walk

end PositionalSearch
