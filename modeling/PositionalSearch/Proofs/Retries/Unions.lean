import PositionalSearch.Proofs.Lasting.Leaves
import PositionalSearch.Proofs.Occurrences
import PositionalSearch.Proofs.Retries.Booking
import PositionalSearch.Proofs.Retries.Reads
import PositionalSearch.Proofs.SetOperations

/-!
# Unions that are read again

A union remembers which of its children were entered, and a child that could
not be moved past the last span is still queued under it.  So a read that
failed is made up for by the next one: whatever fails, the union keeps pace
with the union over the same visits written down, and only takes more reads.
-/

namespace PositionalSearch

open Cursor (Follows)

/-! ## Keeping pace -/

/--
Each read answers as that of an ideal cursor does, which does not fail.  A read
that fails leaves the ideal cursor where it is, and goes on record.
-/
structure KeepsPace {σ τ : Type} [Cursor σ] [Cursor τ]
    (record : σ → List Failure) (paces : σ → τ → Prop) : Prop where
  next : ∀ {cursor : σ} {ideal : τ}, paces cursor ideal →
    (Cursor.next : Attempt Failure σ _).Meets cursor
      (fun span? reached => (record reached).Perm (record cursor) ∧
        ∃ further, Cursor.next ideal = (.ok span?, further) ∧
          paces reached further)
      (fun failure reached =>
        (record reached).Perm (failure :: record cursor) ∧
          paces reached ideal)

/-- A plain cursor that is not closed takes the first of the visits to come. -/
theorem Plain.next_eq_take_of_open {plain : Plain} (isOpen : plain ≠ .closed) :
    Cursor.go .next plain = take plain.left := by
  cases plain with
  | fresh visits => rfl
  | on visit rest => rfl
  | ended => rfl
  | closed => exact absurd rfl isOpen

theorem Plain.left_upon (visits : Visits) :
    (upon visits).left = visits.tail := by
  cases visits <;> rfl

theorem Plain.upon_ne_closed (visits : Visits) : upon visits ≠ .closed := by
  cases visits <;> exact nofun

/-- What follows a plain cursor reads the visits to come. -/
theorem Cursor.Follows.exists_next {τ : Type} [Cursor τ] {ideal : τ}
    {plain : Plain} (follows : Follows ideal plain)
    (isOpen : plain ≠ .closed) :
    ∃ further, Cursor.next ideal =
        (.ok (plain.left.head?.map Visit.span), further) ∧
      Follows further (.upon plain.left) := by
  have met := follows.meets_of_take .next (Plain.next_eq_take_of_open isOpen)
  obtain ⟨_, further, went, rfl, still⟩ := met.exists_ok
  exact ⟨further, went, still⟩

/-- The failure that was reported. -/
def Report.failure? (report : Report) : Option Failure :=
  match report.outcome with
  | .ok _ => none
  | .error failure => some failure

section

variable {σ τ : Type} [Cursor σ] [Cursor τ] {record : σ → List Failure}

/--
So many reads answer all of some visits and then that nothing is left, and what
failed in between went on record.
-/
structure ReadsAll (record : σ → List Failure) (visits : Visits) (count : Nat)
    (cursor : σ) : Prop where
  ended : ∃ last, (Cursor.read count cursor).1.getLast? = some last ∧
    last.Ended
  spans : (Cursor.read count cursor).1.filterMap Report.span? =
    visits.map Visit.span
  failures : (record (Cursor.read count cursor).2).Perm
    ((Cursor.read count cursor).1.filterMap Report.failure? ++ record cursor)

variable {visits : Visits} {count : Nat} {cursor reached : σ}

/-- Nothing was left. -/
theorem readsAll_nil
    (read : Cursor.next cursor = (.ok none, reached))
    (same : (record reached).Perm (record cursor)) :
    ReadsAll record [] 1 cursor := by
  have reads := Cursor.read_succ 0 read
  constructor
  · rw [reads]
    exact ⟨_, rfl, Report.ended_ok.mpr rfl⟩
  · rw [reads]
    rfl
  · rw [reads]
    exact same

/-- After one read the others go on. -/
theorem ReadsAll.ended_succ (all : ReadsAll record visits count reached)
    {outcome : Except Failure (Option Span)}
    (read : Cursor.next cursor = (outcome, reached)) :
    ∃ last, (Cursor.read (count + 1) cursor).1.getLast? = some last ∧
      last.Ended := by
  obtain ⟨last, isLast, ended⟩ := all.ended
  refine ⟨last, ?_, ended⟩
  rw [Cursor.read_succ count read, List.getLast?_cons, isLast,
    Option.getD_some]

theorem ReadsAll.of_answer (all : ReadsAll record visits count reached)
    {visit : Visit} (read : Cursor.next cursor = (.ok (some visit.span), reached))
    (same : (record reached).Perm (record cursor)) :
    ReadsAll record (visit :: visits) (count + 1) cursor := by
  refine ⟨all.ended_succ read, ?_, ?_⟩
  · rw [Cursor.read_succ count read, List.map_cons, ← all.spans]
    rfl
  · rw [Cursor.read_succ count read]
    exact all.failures.trans (same.append_left _)

theorem ReadsAll.of_failure (all : ReadsAll record visits count reached)
    {failure : Failure} (read : Cursor.next cursor = (.error failure, reached))
    (more : (record reached).Perm (failure :: record cursor)) :
    ReadsAll record visits (count + 1) cursor := by
  refine ⟨all.ended_succ read, ?_, ?_⟩
  · rw [Cursor.read_succ count read, ← all.spans]
    rfl
  · rw [Cursor.read_succ count read]
    exact (all.failures.trans (more.append_left _)).trans List.perm_middle

/-- What keeps pace reads all that its ideal has left. -/
theorem KeepsPace.exists_readsAll {paces : σ → τ → Prop} {bound : Nat}
    (pace : KeepsPace record paces)
    (bounded : ∀ {cursor : σ} {ideal : τ}, paces cursor ideal →
      (record cursor).length ≤ bound)
    (budget : Nat) {cursor : σ} {ideal : τ} {plain : Plain}
    (enough : plain.left.length + (bound - (record cursor).length) < budget)
    (paced : paces cursor ideal) (follows : Follows ideal plain)
    (isOpen : plain ≠ .closed) :
    ∃ count ≤ budget, ReadsAll record plain.left count cursor := by
  induction budget generalizing cursor ideal plain with
  | zero => exact absurd enough (Nat.not_lt_zero _)
  | succ budget ih =>
      obtain ⟨further, went, followsOn⟩ := follows.exists_next isOpen
      have met := pace.next paced
      cases read : (Cursor.next : Attempt Failure σ _) cursor with
      | mk outcome reached =>
          cases outcome with
          | error failure =>
              -- One more failure is on record, so fewer are to come.
              obtain ⟨more, still⟩ := met.of_error read
              have longer := more.length_eq
              have notLonger := bounded still
              rw [List.length_cons] at longer
              obtain ⟨count, few, all⟩ :=
                ih (by omega) still follows isOpen
              exact ⟨count + 1, Nat.succ_le_succ few, all.of_failure read more⟩
          | ok span? =>
              obtain ⟨same, _, wentAlso, still⟩ := met.of_ok read
              cases went.symm.trans wentAlso
              have asLong := same.length_eq
              cases isLeft : plain.left with
              | nil =>
                  rw [isLeft] at read
                  exact ⟨1, Nat.le_add_left _ _, readsAll_nil read same⟩
              | cons visit rest =>
                  rw [isLeft] at read followsOn enough
                  rw [List.length_cons] at enough
                  obtain ⟨count, few, all⟩ :=
                    ih (by rw [Plain.left_upon, List.tail_cons]; omega) still
                      followsOn (Plain.upon_ne_closed _)
                  rw [Plain.left_upon, List.tail_cons] at all
                  exact ⟨count + 1, Nat.succ_le_succ few,
                    all.of_answer read same⟩

end

/-! ## One more record among several -/

/-- What one entry of a list adds, the list adds. -/
theorem List.flatMap_set_perm {α β : Type} (record : α → List β)
    {entry : α} {added : List β} :
    ∀ {entries : List α} {place : Nat} (inside : place < entries.length),
      (record entry).Perm (added ++ record entries[place]) →
        ((entries.set place entry).flatMap record).Perm
          (added ++ entries.flatMap record)
  | first :: rest, 0, _, more => by
      simpa using more.append_right (rest.flatMap record)
  | first :: rest, place + 1, inside, more => by
      have further := flatMap_set_perm record (Nat.lt_of_succ_lt_succ inside)
        more
      simp only [List.set_cons_succ, List.flatMap_cons]
      exact (further.append_left (record first)).trans
        (List.perm_append_comm_assoc _ _ _)

/-- At most one head leaves the queue when a child is moved. -/
theorem HeadQueue.size_le_exchange {size : Nat}
    (queue : HeadQueue (Fin size)) (filled : 0 < queue.heads.size)
    (span? : Option Span) :
    queue.size ≤ (queue.exchange filled span?).size + 1 := by
  have heads := (queue.exchange_perm filled span?).length_eq
  simp only [HeadQueue.size, ← Array.length_toList, List.length_append,
    List.length_tail] at heads ⊢
  omega

namespace Union

variable {σ τ : Type} {size : Nat} {record : σ → List Failure}

/-- The failures on record for the children. -/
def recorded (record : σ → List Failure) (node : Union σ size) :
    List Failure :=
  node.children.toList.flatMap record

theorem recorded_keep_perm (node : Union σ size) {child : Fin size}
    {cursor : σ} {added : List Failure}
    (more : (record cursor).Perm (added ++ record node.children[child])) :
    (recorded record (node.keep child cursor)).Perm
      (added ++ recorded record node) := by
  unfold recorded keep
  rw [Vector.toList_set]
  exact List.flatMap_set_perm record (by simp) (by simpa using more)

theorem recorded_keep_same (node : Union σ size) {child : Fin size}
    {cursor : σ} (same : (record cursor).Perm (record node.children[child])) :
    (recorded record (node.keep child cursor)).Perm (recorded record node) :=
  recorded_keep_perm node (show (record cursor).Perm ([] ++ _) from same)

theorem recorded_keep_cons (node : Union σ size) {child : Fin size}
    {cursor : σ} {failure : Failure}
    (more : (record cursor).Perm (failure :: record node.children[child])) :
    (recorded record (node.keep child cursor)).Perm
      (failure :: recorded record node) :=
  recorded_keep_perm node (show (record cursor).Perm ([failure] ++ _) from more)

/-- Two unions are equally far, and their children keep pace. -/
structure InPace (paces : Fin size → σ → τ → Prop) (node : Union σ size)
    (ideal : Union τ size) : Prop where
  queue : node.queue = ideal.queue
  entered : node.entered = ideal.entered
  standing : node.standing = ideal.standing
  children : ∀ child : Fin size,
    paces child node.children[child] ideal.children[child]

variable {paces : Fin size → σ → τ → Prop} {node : Union σ size}
  {ideal : Union τ size}

/-- One child moved, and so did its ideal. -/
theorem InPace.children_keep (inPace : InPace paces node ideal)
    {child : Fin size} {cursor : σ} {further : τ}
    (paced : paces child cursor further) (other : Fin size) :
    paces other (node.keep child cursor).children[other]
      (ideal.keep child further).children[other] := by
  by_cases same : child = other
  · subst same
    simpa [keep] using paced
  · have apart : child.val ≠ other.val := fun equal => same (Fin.ext equal)
    simpa [keep, Vector.getElem_set_ne _ _ apart] using inPace.children other

/-- One child failed to move, so its ideal did not. -/
theorem InPace.keep (inPace : InPace paces node ideal) {child : Fin size}
    {cursor : σ} (paced : paces child cursor ideal.children[child]) :
    InPace paces (node.keep child cursor) ideal := by
  refine ⟨inPace.queue, inPace.entered, inPace.standing, fun other => ?_⟩
  by_cases same : child = other
  · subst same
    simpa [Union.keep] using paced
  · have apart : child.val ≠ other.val := fun equal => same (Fin.ext equal)
    simpa [Union.keep, Vector.getElem_set_ne _ _ apart] using
      inPace.children other

theorem InPace.head (inPace : InPace paces node ideal)
    (filled : 0 < node.queue.heads.size)
    (filledIdeal : 0 < ideal.queue.heads.size) :
    node.queue.heads[0] = ideal.queue.heads[0] := by
  simp only [inPace.queue]

theorem InPace.exchange (inPace : InPace paces node ideal)
    (filled : 0 < node.queue.heads.size)
    (filledIdeal : 0 < ideal.queue.heads.size) (span? : Option Span) :
    node.queue.exchange filled span? =
      ideal.queue.exchange filledIdeal span? := by
  simp only [inPace.queue]

variable [Cursor σ] [Cursor τ]

/-! ### Entering the children -/

/-- What the rest of the children comes to when it is entered. -/
theorem inPace_enterRest (pace : ∀ child, KeepsPace record (paces child))
    {node : Union σ size} {ideal : Union τ size}
    (inPace : InPace paces node ideal) :
    (enterRest none).Meets node
      (fun _ reached => (recorded record reached).Perm (recorded record node) ∧
        ∃ further, enterRest none ideal = (.ok (), further) ∧
          InPace paces reached further)
      (fun failure reached =>
        (recorded record reached).Perm (failure :: recorded record node) ∧
          ∃ middle, InPace paces reached middle ∧
            middle.standing = ideal.standing ∧ middle.entered < size ∧
            enterRest none middle = enterRest none ideal) := by
  by_cases inside : node.entered < size
  · have insideIdeal : ideal.entered < size := inPace.entered ▸ inside
    have samePlace : (⟨node.entered, inside⟩ : Fin size) =
        ⟨ideal.entered, insideIdeal⟩ := Fin.ext inPace.entered
    rw [meets_enterRest_of_lt inside]
    apply ((pace _).next (inPace.children ⟨node.entered, inside⟩)).mono
    · rintro span? cursor ⟨same, further, went, paced⟩
      have wentOn := recorded_keep_same node same
      have entering : enterRest none ideal = enterRest none
          { ideal.keep ⟨node.entered, inside⟩ further with
            queue := ideal.queue.receive ⟨node.entered, inside⟩ span?
            entered := ideal.entered + 1 } := by
        rw [samePlace] at went ⊢
        exact enterRest_of_ok insideIdeal went
      have next : InPace paces
          { node.keep ⟨node.entered, inside⟩ cursor with
            queue := node.queue.receive ⟨node.entered, inside⟩ span?
            entered := node.entered + 1 }
          { ideal.keep ⟨node.entered, inside⟩ further with
            queue := ideal.queue.receive ⟨node.entered, inside⟩ span?
            entered := ideal.entered + 1 } :=
        ⟨by rw [inPace.queue], congrArg (· + 1) inPace.entered, inPace.standing,
          inPace.children_keep paced⟩
      rw [entering]
      refine (inPace_enterRest pace next).mono ?_ ?_
      · rintro _ reached ⟨kept, rest⟩
        exact ⟨kept.trans wentOn, rest⟩
      · rintro failure reached ⟨more, rest⟩
        exact ⟨more.trans (wentOn.cons failure), rest⟩
    · rintro failure cursor ⟨more, paced⟩
      exact ⟨recorded_keep_cons node more, ideal,
        inPace.keep paced, rfl, insideIdeal, rfl⟩
  · have insideIdeal : size ≤ ideal.entered :=
      inPace.entered ▸ Nat.not_lt.mp inside
    rw [meets_enterRest_of_le (Nat.not_lt.mp inside)]
    exact ⟨.refl _, ideal, enterRest_of_le insideIdeal, inPace⟩
termination_by size - node.entered

/-! ### Moving lagging children -/

section

variable {lags : Span → Bool} {step : Attempt Failure τ (Option Span)}

omit [Cursor σ] [Cursor τ]

/-- Moves that are left over change nothing. -/
theorem moveLagging_of_le {moves more : Nat} (enough : moves ≤ more)
    {ideal further : Union τ size}
    (went : moveLagging lags step moves ideal = (.ok (), further)) :
    moveLagging lags step more ideal = (.ok (), further) := by
  induction moves generalizing more ideal with
  | zero =>
      rcases ideal.queue.exists_or_forall_least (lags ·.span) with
        ⟨filled, lagging⟩ | settled
      · rw [moveLagging_zero_of_lagging filled lagging] at went
        cases went
      · rw [moveLagging_of_settled settled] at went ⊢
        exact went
  | succ moves ih =>
      obtain ⟨more, rfl⟩ : ∃ fewer, more = fewer + 1 :=
        Nat.exists_eq_add_one_of_ne_zero (Nat.ne_zero_of_lt enough)
      rcases ideal.queue.exists_or_forall_least (lags ·.span) with
        ⟨filled, lagging⟩ | settled
      · cases moved : step ideal.children[ideal.queue.heads[0].child] with
        | mk outcome cursor =>
            cases outcome with
            | error failure =>
                rw [moveLagging_of_error filled lagging _ moved] at went
                cases went
            | ok span? =>
                rw [moveLagging_of_ok filled lagging _ moved] at went ⊢
                exact ih (Nat.le_of_succ_le_succ enough) went
      · rw [moveLagging_of_settled settled] at went ⊢
        exact went

end

/-- What moving the children that lag comes to. -/
theorem inPace_moveLagging (pace : ∀ child, KeepsPace record (paces child))
    {lags : Span → Bool} (moves : Nat) {node : Union σ size}
    {ideal further : Union τ size} (inPace : InPace paces node ideal)
    (enough : moves ≤ ideal.queue.size)
    (went : moveLagging lags Cursor.next moves ideal = (.ok (), further)) :
    (moveLagging lags Cursor.next moves).Meets node
      (fun _ reached => (recorded record reached).Perm (recorded record node) ∧
        InPace paces reached further)
      (fun failure reached =>
        (recorded record reached).Perm (failure :: recorded record node) ∧
          ∃ middle, InPace paces reached middle ∧
            middle.standing = ideal.standing ∧
            middle.entered = ideal.entered ∧
            moveLagging lags Cursor.next middle.queue.size middle =
              (.ok (), further)) := by
  induction moves generalizing node ideal with
  | zero =>
      rcases ideal.queue.exists_or_forall_least (lags ·.span) with
        ⟨filled, lagging⟩ | settled
      · rw [moveLagging_zero_of_lagging filled lagging] at went
        cases went
      · rw [moveLagging_of_settled settled] at went
        cases went
        rw [← inPace.queue] at settled
        rw [meets_moveLagging_of_settled settled]
        exact ⟨.refl _, inPace⟩
  | succ moves ih =>
      rcases ideal.queue.exists_or_forall_least (lags ·.span) with
        ⟨filled, lagging⟩ | settled
      · have filledNode : 0 < node.queue.heads.size := inPace.queue ▸ filled
        have head := inPace.head filledNode filled
        have laggingNode : lags node.queue.heads[0].span := head ▸ lagging
        rw [meets_moveLagging_succ filledNode laggingNode]
        apply ((pace _).next (inPace.children node.queue.heads[0].child)).mono
        · rintro span? cursor ⟨same, middle, wentIdeal, still⟩
          have wentOn := recorded_keep_same node same
          rw [head] at wentIdeal
          rw [moveLagging_of_ok filled lagging _ wentIdeal] at went
          have next : InPace paces
              { node.keep node.queue.heads[0].child cursor with
                queue := node.queue.exchange filledNode span? }
              { ideal.keep ideal.queue.heads[0].child middle with
                queue := ideal.queue.exchange filled span? } :=
            ⟨inPace.exchange filledNode filled span?, inPace.entered,
              inPace.standing, head ▸ inPace.children_keep still⟩
          have fewer := ideal.queue.size_le_exchange filled span?
          refine (ih next (Nat.le_of_succ_le_succ
            (Nat.le_trans enough fewer)) went).mono ?_ ?_
          · rintro _ reached ⟨kept, inPace⟩
            exact ⟨kept.trans wentOn, inPace⟩
          · rintro failure reached ⟨more, rest⟩
            exact ⟨more.trans (wentOn.cons failure), rest⟩
        · rintro failure cursor ⟨more, still⟩
          exact ⟨recorded_keep_cons node more, ideal,
            inPace.keep still, rfl, rfl, moveLagging_of_le enough went⟩
      · rw [moveLagging_of_settled settled] at went
        cases went
        rw [← inPace.queue] at settled
        rw [meets_moveLagging_of_settled settled]
        exact ⟨.refl _, inPace⟩

/-! ### Moving the union -/

omit [Cursor σ] [Cursor τ] in
/-- Equally far unions settle on the same span. -/
theorem inPace_settle {span? : Option Span} {further : Union τ size}
    (inPace : InPace paces node ideal)
    (went : settle ideal = (.ok span?, further)) :
    settle.Meets node
      (fun answered reached =>
        (recorded record reached).Perm (recorded record node) ∧
          answered = span? ∧ InPace paces reached further)
      (fun _ _ => False) := by
  cases went
  have same : node.queue.least?.map Head.span =
      ideal.queue.least?.map Head.span := by rw [inPace.queue]
  exact ⟨.refl _, same, inPace.queue, inPace.entered,
    congrArg Standing.after same, inPace.children⟩

section

omit [Cursor σ]

/-- A union that may move on does so. -/
theorem next_eq_of_goes (goes : (Cursor.standing ideal).planNext = .ok true) :
    Cursor.next ideal = onward ideal := by
  rw [planned.next_eq]
  refine Attempt.eq_of_meets_iff fun _ _ => ?_
  simp only [Attempt.meets_bind, Attempt.meets_look, goes,
    Attempt.meets_ofExcept_ok]

/-- While children were not entered, a read enters them. -/
theorem next_eq_of_entering
    (goes : (Cursor.standing ideal).planNext = .ok true)
    (entering : ideal.entered < size) :
    Cursor.next ideal = (do
      enterRest none
      settle : Attempt Failure (Union τ size) _) ideal := by
  rw [next_eq_of_goes goes]
  refine Attempt.eq_of_meets_iff fun _ _ => ?_
  simp only [onward, Attempt.meets_bind, Attempt.meets_look, entering,
    ↓reduceIte]

/-- Once they were, it moves those that stand on the span. -/
theorem next_eq_of_entered
    (goes : (Cursor.standing ideal).planNext = .ok true)
    (entered : size ≤ ideal.entered) :
    Cursor.next ideal = (do
      ideal.standing.span?.elim (pure ()) fun span =>
        moveLagging (· == span) Cursor.next ideal.queue.size
      settle : Attempt Failure (Union τ size) _) ideal := by
  rw [next_eq_of_goes goes]
  refine Attempt.eq_of_meets_iff fun _ _ => ?_
  simp only [onward, movePast, Attempt.meets_bind, Attempt.meets_look,
    Nat.not_lt.mpr entered, ↓reduceIte]
  cases ideal.standing.span? with
  | none => rfl
  | some span =>
      simp only [Option.elim_some, Attempt.meets_bind, Attempt.meets_look]

omit [Cursor τ] in
/-- What comes after work that answers. -/
theorem settle_of_bind_ok {work : Attempt Failure (Union τ size) Unit}
    {span? : Option Span} {further : Union τ size}
    (went : (do work; settle : Attempt Failure (Union τ size) _) ideal =
      (.ok span?, further)) :
    ∃ middle, work ideal = (.ok (), middle) ∧
      settle middle = (.ok span?, further) := by
  cases worked : work ideal with
  | mk outcome middle =>
      have bound := Attempt.run_bind work (fun _ => settle) ideal
      rw [show work.run ideal = _ from worked] at bound
      cases outcome with
      | error failure =>
          cases went.symm.trans bound
      | ok value => exact ⟨middle, rfl, bound.symm.trans went⟩

end

/-- The ideal answer was given, and nothing was put on record. -/
structure Obliges (record : σ → List Failure) (paces : Fin size → σ → τ → Prop)
    (node : Union σ size) (span? : Option Span) (further : Union τ size)
    (answered : Option Span) (reached : Union σ size) : Prop where
  kept : (recorded record reached).Perm (recorded record node)
  same : answered = span?
  inPace : InPace paces reached further

/-- The failure was put on record, and the ideal answer is still to come. -/
structure Pauses (record : σ → List Failure) (paces : Fin size → σ → τ → Prop)
    (node : Union σ size) (span? : Option Span) (further : Union τ size)
    (failure : Failure) (reached : Union σ size) : Prop where
  more : (recorded record reached).Perm (failure :: recorded record node)
  inPace : ∃ middle, InPace paces reached middle ∧
    Cursor.next middle = (.ok span?, further)

section

variable {span? : Option Span} {middle further : Union τ size}

omit [Cursor σ] [Cursor τ] in
/-- To settle gives the ideal answer, if nothing was put on record before. -/
theorem obliges_settle {reached : Union σ size}
    (kept : (recorded record reached).Perm (recorded record node))
    (paced : InPace paces reached middle)
    (settled : settle middle = (.ok span?, further))
    (failed : Failure → Union σ size → Prop) :
    settle.Meets reached (Obliges record paces node span? further) failed :=
  (inPace_settle paced settled).mono
    (fun _ _ met => ⟨met.1.trans kept, met.2.1, met.2.2⟩)
    fun _ _ impossible => impossible.elim

/-- While children are left to enter, a read enters them and settles. -/
theorem inPace_entering (pace : ∀ child, KeepsPace record (paces child))
    (inPace : InPace paces node ideal)
    (goes : (Cursor.standing ideal).planNext = .ok true)
    (entering : ideal.entered < size)
    (went : Cursor.next ideal = (.ok span?, further)) :
    (do enterRest none; settle : Attempt Failure (Union σ size) _).Meets node
      (Obliges record paces node span? further)
      (Pauses record paces node span? further) := by
  rw [next_eq_of_entering goes entering] at went
  obtain ⟨middle, entered, settled⟩ := settle_of_bind_ok went
  simp only [Attempt.meets_bind]
  refine (inPace_enterRest pace inPace).mono ?_ ?_
  · rintro _ reached ⟨kept, further, enteredAlso, paced⟩
    cases entered.symm.trans enteredAlso
    exact obliges_settle kept paced settled _
  · rintro failure reached ⟨more, paused, paced, same, still, enters⟩
    refine ⟨more, paused, paced, ?_⟩
    have goesOn : (Cursor.standing paused).planNext = .ok true :=
      (congrArg Standing.planNext same).trans goes
    rw [next_eq_of_entering goesOn still, ← went]
    refine Attempt.eq_of_meets_iff fun _ _ => ?_
    simp only [Attempt.meets_bind]
    exact Attempt.meets_congr enters

/-- Once all are entered, a read moves those on the span and settles. -/
theorem inPace_movePast (pace : ∀ child, KeepsPace record (paces child))
    (inPace : InPace paces node ideal)
    (goes : (Cursor.standing ideal).planNext = .ok true)
    (entered : size ≤ ideal.entered) {span : Span}
    (isOn : ideal.standing.span? = some span)
    (went : Cursor.next ideal = (.ok span?, further)) :
    (do movePast span; settle : Attempt Failure (Union σ size) _).Meets node
      (Obliges record paces node span? further)
      (Pauses record paces node span? further) := by
  rw [next_eq_of_entered goes entered, isOn] at went
  obtain ⟨middle, moved, settled⟩ := settle_of_bind_ok went
  simp only [movePast, Attempt.meets_bind, Attempt.meets_look, inPace.queue]
  refine (inPace_moveLagging pace _ inPace (Nat.le_refl _) moved).mono ?_ ?_
  · rintro _ reached ⟨kept, paced⟩
    exact obliges_settle kept paced settled _
  · rintro failure reached ⟨more, paused, paced, same, still, goesOn⟩
    refine ⟨more, paused, paced, ?_⟩
    rw [next_eq_of_entered ((congrArg Standing.planNext same).trans goes)
      (still ▸ entered), same, isOn, ← settled]
    refine Attempt.eq_of_meets_iff fun _ _ => ?_
    simp only [Option.elim_some, Attempt.meets_bind]
    exact Attempt.meets_of_ok goesOn

/--
Where the ideal union answers, the other one answers alike, or fails and is
then in pace with an ideal one that answers the same.
-/
theorem inPace_next (pace : ∀ child, KeepsPace record (paces child))
    (inPace : InPace paces node ideal)
    (went : Cursor.next ideal = (.ok span?, further)) :
    (Cursor.next : Attempt Failure (Union σ size) _).Meets node
      (Obliges record paces node span? further)
      (Pauses record paces node span? further) := by
  have stands : Cursor.standing node = Cursor.standing ideal := inPace.standing
  apply planned.meets_next
  · intro isClosed
    have refused : (Cursor.next : Attempt Failure (Union τ size) _).Meets ideal
        (fun _ _ => False) (fun _ _ => True) := by
      rw [planned.next_eq]
      simp only [Attempt.meets_bind, Attempt.meets_look, ← stands, isClosed]
      trivial
    exact (refused.of_ok went).elim
  · intro isExhausted
    have ended : (Cursor.next : Attempt Failure (Union τ size) _).Meets ideal
        (fun span? reached => span? = none ∧ reached = ideal)
        (fun _ _ => True) := by
      rw [planned.next_eq]
      simp only [Attempt.meets_bind, Attempt.meets_look, ← stands, isExhausted]
      exact ⟨rfl, rfl⟩
    obtain ⟨rfl, rfl⟩ := ended.of_ok went
    exact ⟨.refl _, rfl, inPace⟩
  · intro goes
    have goesIdeal : (Cursor.standing ideal).planNext = .ok true :=
      stands ▸ goes
    unfold onward
    simp only [Attempt.meets_bind, Attempt.meets_look]
    split
    · rename_i entering
      have met := inPace_entering pace inPace goesIdeal
        (inPace.entered ▸ entering) went
      simpa only [Attempt.meets_bind] using met
    · rename_i all
      have entered : size ≤ ideal.entered :=
        inPace.entered ▸ Nat.not_lt.mp all
      rw [inPace.standing]
      cases isOn : ideal.standing.span? with
      | none =>
          rw [next_eq_of_entered goesIdeal entered, isOn] at went
          obtain ⟨middle, moved, settled⟩ := settle_of_bind_ok went
          cases moved
          exact obliges_settle (.refl _) inPace settled _
      | some span =>
          have met := inPace_movePast pace inPace goesIdeal entered isOn went
          simpa only [Attempt.meets_bind] using met

end

/--
A union keeps pace with an ideal one where that one follows a plain cursor, as
it has come as far, or can be as far without answering anything else.
-/
structure Retraces (paces : Fin size → σ → τ → Prop) (node : Union σ size)
    (ideal : Union τ size) : Prop where
  inPace : ∃ middle, InPace paces node middle ∧
    Cursor.next middle = Cursor.next ideal
  follows : ∃ plain, plain ≠ .closed ∧ Follows ideal plain

theorem keepsPace_retraces (pace : ∀ child, KeepsPace record (paces child)) :
    KeepsPace (recorded record) (Retraces paces) where
  next := by
    rintro node ideal ⟨⟨middle, inPace, same⟩, plain, isOpen, follows⟩
    obtain ⟨further, went, followsOn⟩ := follows.exists_next isOpen
    refine (inPace_next pace inPace (same.trans went)).mono ?_ ?_
    · rintro _ reached ⟨kept, rfl, paced⟩
      exact ⟨kept, further, went, ⟨further, paced, rfl⟩, _,
        Plain.upon_ne_closed _, followsOn⟩
    · rintro failure reached ⟨more, paused, paced, alike⟩
      exact ⟨more, ⟨paused, paced, alike.trans went.symm⟩, plain, isOpen,
        follows⟩

end Union

/-! ## Terms whose reads fail -/

/-- A plain cursor follows itself. -/
theorem Plain.follows_self (plain : Plain) : Follows plain plain := by
  refine ⟨fun cursor plain => cursor = plain, ⟨?_, ?_, ?_⟩, rfl⟩
  · rintro cursor _ rfl
    rfl
  · rintro cursor _ rfl
    rfl
  · rintro cursor _ rfl move
    cases went : Cursor.go move cursor with
    | mk outcome reached =>
        cases outcome with
        | ok span? =>
            exact (Attempt.meets_of_ok went).mpr (by simp [went])
        | error failure =>
            exact (Attempt.meets_of_error went).mpr (by simp [went])

namespace Term

/-- A term has the visits left that a plain cursor has, under its script. -/
structure Paces (original : ScriptedPostings) (term : Term ScriptedPostings)
    (plain : Plain) : Prop where
  isOpen : plain ≠ .closed
  holds : Holds (ScriptedPostings.Stands original.script.faults) plain.left term
  held : Held (ScriptedPostings.Held original)
    (fun term => term.standing = .closed → True) term

theorem keepsPace_paces (original : ScriptedPostings) :
    KeepsPace hits (Paces original) where
  next := by
    rintro term plain ⟨isOpen, holds, held⟩
    have yields := yields_next
      (ScriptedPostings.recites original.script.faults) holds
    have lasts : Attempt.Sustains (fun _ => True) _ Cursor.next term :=
      lasting (steadfast_open True) (ScriptedPostings.constant_held original)
        held .next
    refine ((yields.and (books_next holds)).and lasts).mono ?_ ?_
    · rintro span? reached ⟨⟨⟨rfl, further, _, _⟩, same⟩, heldOn⟩
      refine ⟨same, _, Plain.next_eq_take_of_open isOpen,
        Plain.upon_ne_closed _, ?_, heldOn⟩
      rw [Plain.left_upon]
      exact further
    · rintro failure reached ⟨⟨still, more⟩, heldOn⟩
      exact ⟨more, isOpen, still, heldOn trivial⟩

/-- It meets no more faults than are planned. -/
theorem Paces.length_hits_le {original : ScriptedPostings}
    {term : Term ScriptedPostings} {plain : Plain}
    (paces : Paces original term plain) :
    term.hits.length ≤ original.script.faults.length := by
  rw [hits, List.length_map, ← paces.held.postings.script]
  exact term.postings.length_hits_le

theorem paces_ofPostings {script : Script} (frequencies : script.frequencies = [])
    (occurrences : List Occurrence) :
    Paces (.ofOccurrences script occurrences)
      (ofPostings (.ofOccurrences script occurrences))
      (.fresh (Occurrence.visits occurrences)) :=
  ⟨nofun, ⟨none, 0, _,
    ScriptedPostings.stands_ofOccurrences frequencies occurrences, rfl⟩,
    ⟨rfl, rfl, rfl⟩, fun _ => trivial⟩

end Term

namespace Union

open Proximity (scriptedTerms)

variable {size : Nat}

/-- Each union over terms keeps pace with one over what they yield. -/
theorem retraces_scriptedTerms
    {sources : Vector (Script × List Occurrence) size}
    (plain : ∀ child : Fin size, sources[child].1.frequencies = []) :
    Retraces (fun child => Term.Paces
        (.ofOccurrences sources[child].1 sources[child].2))
      (ofCursors (scriptedTerms sources))
      (ofCursors (sources.map fun source =>
        Plain.fresh (Occurrence.visits source.2))) ∧
    Follows (ofCursors (sources.map fun source =>
        Plain.fresh (Occurrence.visits source.2)))
      (.fresh (Visits.mergeAll (List.ofFn fun child : Fin size =>
        Occurrence.visits sources[child].2))) := by
  have follows : Follows (ofCursors (sources.map fun source =>
        Plain.fresh (Occurrence.visits source.2)))
      (.fresh (Visits.mergeAll (List.ofFn fun child : Fin size =>
        Occurrence.visits sources[child].2))) := by
    apply follows_ofCursors
    intro child
    refine ⟨?_, Occurrence.ordered_visits _⟩
    simp only [getElem_place, Vector.getElem_map]
    exact Plain.follows_self _
  refine ⟨⟨⟨_, ⟨rfl, rfl, rfl, fun child => ?_⟩, rfl⟩, .fresh _, nofun,
    follows⟩, follows⟩
  have opened := Term.paces_ofPostings (plain child) sources[child].2
  simpa [ofCursors, scriptedTerms] using opened

/-- No more faults are on record than are planned. -/
theorem Retraces.length_recorded_le
    {sources : Vector (Script × List Occurrence) size}
    {node : Union (Term ScriptedPostings) size} {ideal : Union Plain size}
    (retraces : Retraces (fun child => Term.Paces
      (.ofOccurrences sources[child].1 sources[child].2)) node ideal) :
    (recorded Term.hits node).length ≤
      (sources.toList.map fun source => source.1.faults.length).sum := by
  obtain ⟨middle, inPace, _⟩ := retraces.inPace
  rw [recorded, List.length_flatMap]
  apply List.Forall₂.sum_le_sum
  refine List.forall₂_iff_get.mpr ⟨by simp, fun place inside _ => ?_⟩
  have paced := inPace.children ⟨place, by simpa using inside⟩
  simpa [ScriptedPostings.ofOccurrences] using paced.length_hits_le

/--
A union of terms that is read until it ends, whatever its terms fail to read,
answers in ascending order, and each of them once, the spans that occur in some
term.  Between them it reports the planned faults that were met, unchanged and
each of them once.
-/
theorem retries_answer_union (sources : Vector (Script × List Occurrence) size)
    (plain : ∀ child : Fin size, sources[child].1.frequencies = [])
    (few : ∀ child : Fin size, Occurrence.Few sources[child].2) :
    ∃ count : Nat,
      let reports := (Cursor.read count (ofCursors (scriptedTerms sources))).1
      let reached := (Cursor.read count (ofCursors (scriptedTerms sources))).2
      let answered := reports.filterMap Report.span?
      (∃ last, reports.getLast? = some last ∧ last.Ended) ∧
      answered.Pairwise (· < ·) ∧
      (∀ span, span ∈ answered ↔
        ∃ child : Fin size, ∃ given ∈ sources[child].2, given.span = span) ∧
      (reports.filterMap Report.failure?).Perm
        (reached.children.toList.flatMap Term.hits) ∧
      count ≤ answered.length +
        (sources.toList.map fun source => source.1.faults.length).sum + 1 := by
  obtain ⟨paced, follows⟩ := retraces_scriptedTerms plain
  have pace : KeepsPace (recorded Term.hits) (Retraces fun child : Fin size =>
      Term.Paces (.ofOccurrences sources[child].1 sources[child].2)) :=
    keepsPace_retraces fun _ => Term.keepsPace_paces _
  have ordered : ∀ visits ∈ List.ofFn fun child : Fin size =>
      Occurrence.visits sources[child].2, visits.Ordered := by
    intro visits member
    obtain ⟨child, rfl⟩ := List.mem_ofFn.mp member
    exact Occurrence.ordered_visits _
  -- Before the first read nothing is on record.
  have unmet : recorded Term.hits (ofCursors (scriptedTerms sources)) = [] := by
    refine List.flatMap_eq_nil_iff.mpr fun term member => ?_
    obtain ⟨source, _, rfl⟩ : ∃ source ∈ sources.toList,
        Term.ofPostings (.ofOccurrences source.1 source.2) = term := by
      simpa [ofCursors, scriptedTerms] using member
    rfl
  obtain ⟨count, fewReads, ended, spans, failures⟩ := pace.exists_readsAll
    (fun retraces => retraces.length_recorded_le)
    _ (Nat.lt_succ_self _) paced follows (by rintro ⟨⟩)
  rw [unmet, List.length_nil, Nat.sub_zero] at fewReads
  rw [unmet, List.append_nil] at failures
  refine ⟨count, ended, ?_, fun span => ?_, failures.symm, ?_⟩
  · rw [spans]
    exact List.pairwise_map.mpr (Visits.ordered_mergeAll ordered)
  · rw [spans, Plain.left, Visits.mem_map_span_mergeAll ordered]
    constructor
    · rintro ⟨_, isList, member⟩
      obtain ⟨child, rfl⟩ := List.mem_ofFn.mp isList
      exact ⟨child, ((few child).mem_map_span_visits).mp member⟩
    · rintro ⟨child, occurs⟩
      exact ⟨_, List.mem_ofFn.mpr ⟨child, rfl⟩,
        ((few child).mem_map_span_visits).mpr occurs⟩
  · rw [spans, List.length_map]
    exact fewReads

/-- Two terms that share a token; calls on both of them fail. -/
def shakyTerms : Vector (Script × List Occurrence) 2 :=
  #v[(⟨[⟨.nextPosition, 2, ⟨.interrupted, "lost"⟩⟩], [], none⟩,
      [⟨1, 0, none⟩, ⟨2, 3, none⟩]),
    (⟨[⟨.nextDocument, 1, ⟨.other, "torn"⟩⟩,
        ⟨.nextDocument, 3, ⟨.other, "gone"⟩⟩,
        ⟨.nextDocument, 9, ⟨.other, "never"⟩⟩], [], none⟩,
      [⟨1, 0, none⟩, ⟨1, 5, none⟩])]

/--
Entering the second term fails once, moving the first past the shared token
does, and so does the end of the second; the last fault is not met.
-/
theorem shakyTerms_answer_union :
    (∀ child : Fin 2, shakyTerms[child].1.frequencies = []) ∧
    (∀ child : Fin 2, Occurrence.Few shakyTerms[child].2) ∧
    (Cursor.read 7 (ofCursors (scriptedTerms shakyTerms))).1.map
        Report.outcome =
      [.error (.unreadable ⟨.other, "torn"⟩),
        .ok (.span (some (.ofToken 1 0))),
        .error (.unreadable ⟨.interrupted, "lost"⟩),
        .ok (.span (some (.ofToken 1 5))),
        .error (.unreadable ⟨.other, "gone"⟩),
        .ok (.span (some (.ofToken 2 3))),
        .ok (.span none)] ∧
    ∃ count : Nat,
      let reports := (Cursor.read count
        (ofCursors (scriptedTerms shakyTerms))).1
      (∃ last, reports.getLast? = some last ∧ last.Ended) ∧
      .ofToken 1 5 ∈ reports.filterMap Report.span? ∧
      .ofToken 2 0 ∉ reports.filterMap Report.span? := by
  have plain : ∀ child : Fin 2, shakyTerms[child].1.frequencies = [] := by
    decide
  have few : ∀ child : Fin 2, Occurrence.Few shakyTerms[child].2 := fun child =>
    Occurrence.few_of_length_le (by revert child; decide)
  have outcomes : (Cursor.read 7
      (ofCursors (scriptedTerms shakyTerms))).1.map Report.outcome =
        [.error (.unreadable ⟨.other, "torn"⟩),
          .ok (.span (some (.ofToken 1 0))),
          .error (.unreadable ⟨.interrupted, "lost"⟩),
          .ok (.span (some (.ofToken 1 5))),
          .error (.unreadable ⟨.other, "gone"⟩),
          .ok (.span (some (.ofToken 2 3))),
          .ok (.span none)] := by
    cbv
  obtain ⟨count, ended, _, occurs, _⟩ :=
    retries_answer_union shakyTerms plain few
  refine ⟨plain, few, outcomes, count, ended, ?_, ?_⟩
  · exact (occurs _).mpr ⟨1, ⟨1, 5, none⟩, by decide, rfl⟩
  · rw [occurs]
    decide

end Union

end PositionalSearch
