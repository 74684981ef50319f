import PositionalSearch.Proofs.HeadQueue
import PositionalSearch.Proofs.Order.Discipline

/-!
# Unions are disciplined

The queue of a union holds the last spans of the children that were entered
and have not ended.  No head precedes the span of the union, also after a move
that failed when some of the children had moved on.
-/

namespace PositionalSearch

open Cursor (Disciplined Orderly Advances)

namespace Union

variable {ι σ : Type} {size : Nat} [Cursor σ] {disturb : ι → σ → σ}
  {last? : Option Span} {node : Union σ size}

/-- Disturb all children. -/
def disturbed (disturb : ι → σ → σ) (event : ι) (node : Union σ size) :
    Union σ size :=
  { node with children := node.children.map (disturb event) }

/-- Each head of the queue is the last span of its child. -/
structure Seats (holds : Option Span → σ → Prop) (node : Union σ size) :
    Prop where
  placed : ∀ head ∈ node.queue.heads.toList,
    holds (some head.span) node.children[head.child]
  apart : (node.queue.heads.toList.map Head.child).Nodup
  within : ∀ head ∈ node.queue.heads.toList, head.child.val < node.entered
  rest : ∀ child : Fin size, node.entered ≤ child.val →
    holds none node.children[child]

/-- The heads of the queue are the last spans of their children. -/
structure Queued (disturb : ι → σ → σ) (node : Union σ size) : Prop where
  heaped : node.queue.Heaped
  placed : ∀ head ∈ node.queue.heads.toList,
    Orderly disturb (some head.span) node.children[head.child]
  apart : (node.queue.heads.toList.map Head.child).Nodup
  within : ∀ head ∈ node.queue.heads.toList, head.child.val < node.entered
  rest : ∀ child : Fin size, node.entered ≤ child.val →
    Orderly disturb none node.children[child]

/-- No head precedes the last span. -/
def NotBehind (last? : Option Span) (node : Union σ size) : Prop :=
  ∀ last ∈ last?, ∀ head ∈ node.queue.heads.toList, last ≤ head.span

/-- Where the union stands, given the span it answered last. -/
def StandsAt (last? : Option Span) (node : Union σ size) : Prop :=
  match node.standing with
  | .unstarted => last? = none
  | .on span => last? = some span ∧ size ≤ node.entered
  | .atDocument _ => False
  | .exhausted => True
  | .closed => True

omit [Cursor σ] in
/-- Before its first span a union stands there however many children it has. -/
theorem StandsAt.of_same {reached : Union σ size}
    (stands : StandsAt none node) (same : reached.standing = node.standing) :
    StandsAt none reached := by
  unfold StandsAt at stands ⊢
  rw [same]
  cases standing : node.standing with
  | on span => simp [standing] at stands
  | atDocument doc => simp [standing] at stands
  | unstarted => rfl
  | exhausted => trivial
  | closed => trivial

omit [Cursor σ] in
/-- Before a seek that goes forward the last span lies before the target. -/
theorem StandsAt.beforeSeek (stands : StandsAt last? node) {target : DocId}
    (goes : node.standing.planSeek target = .ok .forward) :
    (∀ last ∈ last?, last.doc < target) ∧
      (last? = none ∨ size ≤ node.entered) := by
  rcases Standing.planSeek_eq_forward_iff.mp goes with
    standing | ⟨doc, standing, _⟩ | ⟨span, standing, before⟩
  · simp only [StandsAt, standing] at stands
    subst stands
    simp
  · simp [StandsAt, standing] at stands
  · simp only [StandsAt, standing] at stands
    obtain ⟨rfl, entered⟩ := stands
    simp [before, entered]

/-- What a union keeps between moves, failed ones included. -/
structure Keeps (disturb : ι → σ → σ) (last? : Option Span)
    (node : Union σ size) : Prop where
  queued : Queued disturb node
  notBehind : NotBehind last? node
  stands : StandsAt last? node

omit [Cursor σ] in
theorem toList_heads (filled : 0 < node.queue.heads.size) :
    node.queue.heads.toList =
      node.queue.heads[0] :: node.queue.heads.toList.tail := by
  cases heads : node.queue.heads.toList with
  | nil =>
      have empty : node.queue.heads.size = 0 := by
        rw [← Array.length_toList, heads]
        rfl
      omega
  | cons first rest =>
      have same : node.queue.heads[0] = first := by
        rw [← Array.getElem_toList]
        simp [heads]
      rw [same, List.tail_cons]

/-! ## Children with a head -/

section

variable {holds : Option Span → σ → Prop}

omit [Cursor σ] in
/-- The queue does not depend on where the union stands. -/
theorem Seats.standing (seats : Seats holds node) (standing : Standing) :
    Seats holds { node with standing := standing } :=
  ⟨seats.placed, seats.apart, seats.within, seats.rest⟩

omit [Cursor σ] in
/-- The child of the least head moved; its head is another one, or is gone. -/
theorem Seats.moved (seats : Seats holds node)
    (filled : 0 < node.queue.heads.size) {queue : HeadQueue (Fin size)}
    {cursor : σ} {span? : Option Span}
    (heads : queue.heads.toList.Perm
      ((span?.map (Head.mk · node.queue.heads[0].child)).toList ++
        node.queue.heads.toList.tail))
    (held : ∀ span ∈ span?, holds (some span) cursor) :
    Seats holds
      { node.keep node.queue.heads[0].child cursor with queue := queue } := by
  have whole := toList_heads filled
  have apart := seats.apart
  rw [whole, List.map_cons, List.nodup_cons] at apart
  obtain ⟨others, tailApart⟩ := apart
  have member : ∀ head ∈ queue.heads.toList,
      (∃ span ∈ span?, head = ⟨span, node.queue.heads[0].child⟩) ∨
        head ∈ node.queue.heads.toList.tail := by
    intro head isHead
    have found := heads.mem_iff.mp isHead
    simp only [List.mem_append, Option.mem_toList, Option.map_eq_some_iff]
      at found
    rcases found with ⟨span, isSpan, rfl⟩ | older
    · exact .inl ⟨span, isSpan, rfl⟩
    · exact .inr older
  have older : ∀ head ∈ node.queue.heads.toList.tail,
      head ∈ node.queue.heads.toList := by
    intro head isHead
    rw [whole]
    exact List.mem_cons_of_mem _ isHead
  have other : ∀ head ∈ node.queue.heads.toList.tail,
      node.queue.heads[0].child.val ≠ head.child.val := by
    intro head isHead same
    exact others (List.mem_map.mpr ⟨head, isHead, (Fin.ext same).symm⟩)
  have firstHead : node.queue.heads[0] ∈ node.queue.heads.toList := by simp
  refine ⟨?_, ?_, ?_, ?_⟩
  · intro head isHead
    rcases member head isHead with ⟨span, isSpan, rfl⟩ | isOlder
    · simpa [keep] using held span isSpan
    · simpa [keep, Vector.getElem_set_ne _ _ (other head isOlder)] using
        seats.placed head (older head isOlder)
  · refine ((heads.map Head.child).nodup_iff).mpr ?_
    cases span? with
    | none => exact tailApart
    | some span => exact List.nodup_cons.mpr ⟨others, tailApart⟩
  · intro head isHead
    rcases member head isHead with ⟨span, _, rfl⟩ | isOlder
    · exact seats.within node.queue.heads[0] firstHead
    · exact seats.within head (older head isOlder)
  · intro child notEntered
    have apartFrom : node.queue.heads[0].child.val ≠ child.val := by
      have inside := seats.within _ firstHead
      change node.entered ≤ child.val at notEntered
      omega
    simpa [keep, Vector.getElem_set_ne _ _ apartFrom] using
      seats.rest child notEntered

omit [Cursor σ] in
/-- The next child was entered, and answered its first span or none. -/
theorem Seats.entered (seats : Seats holds node)
    (inside : node.entered < size) {queue : HeadQueue (Fin size)}
    {cursor : σ} {span? : Option Span}
    (heads : queue.heads.toList.Perm
      ((span?.map (Head.mk · ⟨node.entered, inside⟩)).toList ++
        node.queue.heads.toList))
    (held : ∀ span ∈ span?, holds (some span) cursor) :
    Seats holds
      { node.keep ⟨node.entered, inside⟩ cursor with
        queue := queue
        entered := node.entered + 1 } := by
  have member : ∀ head ∈ queue.heads.toList,
      (∃ span ∈ span?, head = ⟨span, ⟨node.entered, inside⟩⟩) ∨
        head ∈ node.queue.heads.toList := by
    intro head isHead
    have found := heads.mem_iff.mp isHead
    simp only [List.mem_append, Option.mem_toList, Option.map_eq_some_iff]
      at found
    rcases found with ⟨span, isSpan, rfl⟩ | older
    · exact .inl ⟨span, isSpan, rfl⟩
    · exact .inr older
  refine ⟨?_, ?_, ?_, ?_⟩
  · intro head isHead
    rcases member head isHead with ⟨span, isSpan, rfl⟩ | isOlder
    · simpa [keep] using held span isSpan
    · have other : node.entered ≠ head.child.val :=
        (Nat.ne_of_lt (seats.within head isOlder)).symm
      simpa [keep, Vector.getElem_set_ne _ _ other] using
        seats.placed head isOlder
  · refine ((heads.map Head.child).nodup_iff).mpr ?_
    have fresh : (⟨node.entered, inside⟩ : Fin size) ∉
        node.queue.heads.toList.map Head.child := by
      intro isChild
      obtain ⟨head, isHead, same⟩ := List.mem_map.mp isChild
      have below := seats.within head isHead
      simp [same] at below
    cases span? with
    | none => exact seats.apart
    | some span => exact List.nodup_cons.mpr ⟨fresh, seats.apart⟩
  · intro head isHead
    rcases member head isHead with ⟨span, _, rfl⟩ | isOlder
    · exact Nat.lt_succ_self _
    · exact Nat.lt_succ_of_lt (seats.within head isOlder)
  · intro child notEntered
    have other : node.entered ≠ child.val := Nat.ne_of_lt notEntered
    simpa [keep, Vector.getElem_set_ne _ _ other] using
      seats.rest child (Nat.le_of_succ_le notEntered)

omit [Cursor σ] in
/-- The next child could not be entered. -/
theorem Seats.refused (seats : Seats holds node)
    (inside : node.entered < size) {cursor : σ}
    (held : holds none cursor) :
    Seats holds (node.keep ⟨node.entered, inside⟩ cursor) := by
  refine ⟨?_, seats.apart, seats.within, ?_⟩
  · intro head isHead
    have other : node.entered ≠ head.child.val :=
      (Nat.ne_of_lt (seats.within head isHead)).symm
    simpa [keep, Vector.getElem_set_ne _ _ other] using
      seats.placed head isHead
  · intro child notEntered
    by_cases same : node.entered = child.val
    · simpa [keep, ← same] using held
    · simpa [keep, Vector.getElem_set_ne _ _ same] using
        seats.rest child notEntered

end

theorem Queued.seats (queued : Queued disturb node) :
    Seats (Orderly disturb) node :=
  ⟨queued.placed, queued.apart, queued.within, queued.rest⟩

theorem Seats.queued (seats : Seats (Orderly disturb) node)
    (heaped : node.queue.Heaped) : Queued disturb node :=
  ⟨heaped, seats.placed, seats.apart, seats.within, seats.rest⟩

/-! ## The union keeps its discipline -/

/-- The child of the least head moved on or ended. -/
theorem Keeps.moved (kept : Keeps disturb last? node)
    (filled : 0 < node.queue.heads.size) {queue : HeadQueue (Fin size)}
    {cursor : σ} (span? : Option Span) (heaped : queue.Heaped)
    (heads : queue.heads.toList.Perm
      ((span?.map (Head.mk · node.queue.heads[0].child)).toList ++
        node.queue.heads.toList.tail))
    (orderly : ∀ span ∈ span?, Orderly disturb (some span) cursor)
    (onward : ∀ span ∈ span?, node.queue.heads[0].span ≤ span) :
    Keeps disturb last?
      { node.keep node.queue.heads[0].child cursor with queue := queue } := by
  refine ⟨(kept.queued.seats.moved filled heads orderly).queued heaped, ?_,
    kept.stands⟩
  intro last isLast head isHead
  have found := heads.mem_iff.mp isHead
  simp only [List.mem_append, Option.mem_toList, Option.map_eq_some_iff]
    at found
  rcases found with ⟨span, isSpan, rfl⟩ | isOlder
  · have firstHead : node.queue.heads[0] ∈ node.queue.heads.toList := by simp
    exact le_trans (kept.notBehind last isLast _ firstHead)
      (onward span isSpan)
  · refine kept.notBehind last isLast head ?_
    rw [toList_heads filled]
    exact List.mem_cons_of_mem _ isOlder

/-- The child of the least head failed to move. -/
theorem Keeps.failed (kept : Keeps disturb last? node)
    (filled : 0 < node.queue.heads.size) {cursor : σ}
    (orderly : Orderly disturb (some node.queue.heads[0].span) cursor) :
    Keeps disturb last? (node.keep node.queue.heads[0].child cursor) := by
  refine kept.moved filled (some node.queue.heads[0].span)
    kept.queued.heaped ?_ ?_ ?_
  · exact .of_eq (toList_heads filled)
  · rintro _ ⟨rfl⟩
    exact orderly
  · rintro _ ⟨rfl⟩
    exact le_refl _

section

variable {target : Option DocId} {answered : Unit → Union σ size → Prop}
  {failed : Failure → Union σ size → Prop}

/-- Once all children are entered there is nothing to do. -/
theorem meets_enterRest_of_le (all : size ≤ node.entered) :
    (enterRest target).Meets node answered failed ↔ answered () node := by
  apply Attempt.meets_of_ok
  rw [enterRest]
  simp only [Nat.not_lt.mpr all, ↓reduceDIte]

/-- The next child is entered, and the rest after it. -/
theorem meets_enterRest_of_lt (inside : node.entered < size) :
    (enterRest target).Meets node answered failed ↔
      (Cursor.enter target : Attempt Failure σ _).Meets
        node.children[(⟨node.entered, inside⟩ : Fin size)]
        (fun span? cursor => (enterRest target).Meets
          { node.keep ⟨node.entered, inside⟩ cursor with
            queue := node.queue.receive ⟨node.entered, inside⟩ span?
            entered := node.entered + 1 } answered failed)
        (fun failure cursor =>
          failed failure (node.keep ⟨node.entered, inside⟩ cursor)) := by
  cases outcome : (Cursor.enter target : Attempt Failure σ _)
      node.children[(⟨node.entered, inside⟩ : Fin size)] with
  | mk result cursor =>
      cases result with
      | error failure =>
          rw [Attempt.meets_of_error outcome]
          apply Attempt.meets_of_error
          rw [enterRest]
          simp only [inside, ↓reduceDIte, outcome]
      | ok span? =>
          rw [Attempt.meets_of_ok outcome]
          apply Attempt.meets_congr
          rw [enterRest]
          cases span? with
          | none =>
              simp only [inside, ↓reduceDIte, outcome]
              rfl
          | some span =>
              simp only [inside, ↓reduceDIte, outcome]
              rfl

end

/-- Entering the rest of the children keeps those entered before. -/
theorem meets_enterRest {last? : Option Span} {node : Union σ size}
    (kept : Keeps disturb last? node)
    (fresh : last? = none ∨ size ≤ node.entered) (target : Option DocId) :
    (enterRest target).Meets node
      (fun _ reached => Keeps disturb last? reached ∧ size ≤ reached.entered)
      (fun _ reached => Keeps disturb last? reached) := by
  by_cases inside : node.entered < size
  · obtain rfl : last? = none := by
      rcases fresh with isNone | all
      · exact isNone
      · omega
    rw [meets_enterRest_of_lt inside]
    apply ((kept.queued.rest ⟨node.entered, inside⟩
      (Nat.le_refl _)).meets_enter target).mono
    · intro span? cursor advances
      have seats := kept.queued.seats.entered inside
        (HeadQueue.receive_perm _ _ span?) <| by
          rintro _ ⟨rfl⟩
          exact advances.2.2.2
      apply meets_enterRest _ (.inl rfl)
      constructor
      · exact seats.queued
          (HeadQueue.heaped_receive kept.queued.heaped _ span?)
      · intro _ isLast
        cases isLast
      · exact kept.stands.of_same rfl
    · intro _ cursor orderly
      exact ⟨(kept.queued.seats.refused inside orderly).queued
        kept.queued.heaped, kept.notBehind, kept.stands⟩
  · rw [meets_enterRest_of_le (Nat.not_lt.mp inside)]
    exact ⟨kept, Nat.not_lt.mp inside⟩
termination_by size - node.entered

section

variable {lags : Span → Bool} {step : Attempt Failure σ (Option Span)}
  {answered : Unit → Union σ size → Prop}
  {failed : Failure → Union σ size → Prop}

omit [Cursor σ] in
/-- As the least head does not lag there is nothing to move. -/
theorem meets_moveLagging_of_settled
    (settled : ∀ least ∈ node.queue.least?, lags least.span = false)
    (moves : Nat) :
    (moveLagging lags step moves).Meets node answered failed ↔
      answered () node := by
  apply Attempt.meets_of_ok
  cases moves with
  | zero =>
      have quiet : (node.queue.least?.any fun head => lags head.span) =
          false := by
        cases isLeast : node.queue.least? with
        | none => rfl
        | some least => exact settled least isLeast
      simp only [moveLagging, quiet, Bool.false_eq_true, ↓reduceIte]
  | succ moves =>
      by_cases filled : 0 < node.queue.heads.size
      · have quiet : lags node.queue.heads[0].span = false :=
          settled _ (Array.getElem?_eq_getElem filled)
        simp only [moveLagging, filled, quiet, ↓reduceDIte,
          Bool.false_eq_true, ↓reduceIte]
      · simp only [moveLagging, filled, ↓reduceDIte]

omit [Cursor σ] in
/-- The child of a least head that lags is moved, and so on. -/
theorem meets_moveLagging_succ (filled : 0 < node.queue.heads.size)
    (lagging : lags node.queue.heads[0].span) (moves : Nat) :
    (moveLagging lags step (moves + 1)).Meets node answered failed ↔
      step.Meets node.children[node.queue.heads[0].child]
        (fun span? cursor => (moveLagging lags step moves).Meets
          { node.keep node.queue.heads[0].child cursor with
            queue := node.queue.exchange filled span? } answered failed)
        (fun failure cursor =>
          failed failure (node.keep node.queue.heads[0].child cursor)) := by
  cases outcome : step node.children[node.queue.heads[0].child] with
  | mk result cursor =>
      cases result with
      | error failure =>
          rw [Attempt.meets_of_error outcome]
          apply Attempt.meets_of_error
          simp only [moveLagging, filled, lagging, outcome, ↓reduceDIte,
            ↓reduceIte]
      | ok span? =>
          rw [Attempt.meets_of_ok outcome]
          apply Attempt.meets_congr
          cases span? with
          | none =>
              simp only [moveLagging, filled, lagging, outcome, ↓reduceDIte,
                ↓reduceIte, HeadQueue.exchange]
          | some span =>
              simp only [moveLagging, filled, lagging, outcome, ↓reduceDIte,
                ↓reduceIte, HeadQueue.exchange]

end

/-! ### What single moves come to -/

/-- The next child is entered, and then the rest. -/
theorem enterRest_of_ok {target? : Option DocId}
    (inside : node.entered < size) {span? : Option Span} {cursor : σ}
    (went : Cursor.enter target?
      node.children[(⟨node.entered, inside⟩ : Fin size)] =
        (.ok span?, cursor)) :
    enterRest target? node = enterRest target?
      { node.keep ⟨node.entered, inside⟩ cursor with
        queue := node.queue.receive ⟨node.entered, inside⟩ span?
        entered := node.entered + 1 } :=
  Attempt.eq_of_meets_iff fun _ _ =>
    (meets_enterRest_of_lt inside).trans (Attempt.meets_of_ok went)

theorem enterRest_of_error {target? : Option DocId}
    (inside : node.entered < size) {failure : Failure} {cursor : σ}
    (went : Cursor.enter target?
      node.children[(⟨node.entered, inside⟩ : Fin size)] =
        (.error failure, cursor)) :
    enterRest target? node =
      (.error failure, node.keep ⟨node.entered, inside⟩ cursor) := by
  rw [enterRest]
  simp only [inside, ↓reduceDIte, went]

theorem enterRest_of_le {target? : Option DocId}
    (all : size ≤ node.entered) : enterRest target? node = (.ok (), node) := by
  rw [enterRest, dif_neg (Nat.not_lt.mpr all)]

section

variable {lags : Span → Bool} {step : Attempt Failure σ (Option Span)}

omit [Cursor σ]

/-- The child of a least head that lags is moved, and then the rest. -/
theorem moveLagging_of_ok (filled : 0 < node.queue.heads.size)
    (lagging : lags node.queue.heads[0].span) (moves : Nat)
    {span? : Option Span} {cursor : σ}
    (went : step node.children[node.queue.heads[0].child] =
      (.ok span?, cursor)) :
    moveLagging lags step (moves + 1) node = moveLagging lags step moves
      { node.keep node.queue.heads[0].child cursor with
        queue := node.queue.exchange filled span? } :=
  Attempt.eq_of_meets_iff fun _ _ =>
    (meets_moveLagging_succ filled lagging moves).trans
      (Attempt.meets_of_ok went)

theorem moveLagging_of_error (filled : 0 < node.queue.heads.size)
    (lagging : lags node.queue.heads[0].span) (moves : Nat)
    {failure : Failure} {cursor : σ}
    (went : step node.children[node.queue.heads[0].child] =
      (.error failure, cursor)) :
    moveLagging lags step (moves + 1) node =
      (.error failure, node.keep node.queue.heads[0].child cursor) := by
  simp only [moveLagging, filled, lagging, went, ↓reduceDIte, ↓reduceIte]

theorem moveLagging_of_settled
    (settled : ∀ least ∈ node.queue.least?, lags least.span = false)
    (moves : Nat) : moveLagging lags step moves node = (.ok (), node) :=
  show _ = (pure () : Attempt Failure (Union σ size) Unit) node from
    Attempt.eq_of_meets_iff fun _ _ =>
      meets_moveLagging_of_settled settled moves

/-- A child that lags is never left when moves are. -/
theorem moveLagging_zero_of_lagging (filled : 0 < node.queue.heads.size)
    (lagging : lags node.queue.heads[0].span) :
    moveLagging lags step 0 node = (.error (.breach .backwardMove), node) := by
  have isLeast : node.queue.least? = some node.queue.heads[0] :=
    Array.getElem?_eq_getElem filled
  simp only [moveLagging, isLeast, Option.any_some, lagging, ↓reduceIte]

end

/-! ### What the loops keep -/

/-- Moving the children that lag keeps the others. -/
theorem meets_moveLagging (kept : Keeps disturb last? node)
    (entered : size ≤ node.entered) {lags : Span → Bool}
    {step : Attempt Failure σ (Option Span)}
    (steps : ∀ {span : Span} {cursor : σ},
      Orderly disturb (some span) cursor →
        step.Meets cursor
          (fun later? reached => ∀ later ∈ later?, span < later ∧
            Orderly disturb (some later) reached)
          (fun _ reached => Orderly disturb (some span) reached))
    (moves : Nat) :
    (moveLagging lags step moves).Meets node
      (fun _ reached => Keeps disturb last? reached ∧
        size ≤ reached.entered ∧
          ∀ least ∈ reached.queue.least?, lags least.span = false)
      (fun _ reached => Keeps disturb last? reached) := by
  induction moves generalizing node with
  | zero =>
      rcases node.queue.exists_or_forall_least (lags ·.span) with
        ⟨filled, lagging⟩ | settled
      · have behind : node.queue.least?.any fun head => lags head.span := by
          rw [HeadQueue.least?, Array.getElem?_eq_getElem filled]
          exact lagging
        refine (Attempt.meets_of_error (show moveLagging lags step 0 node =
          (.error (.breach .backwardMove), node) by
            simp only [moveLagging, behind, ↓reduceIte])).mpr ?_
        exact kept
      · rw [meets_moveLagging_of_settled settled]
        exact ⟨kept, entered, settled⟩
  | succ moves ih =>
      rcases node.queue.exists_or_forall_least (lags ·.span) with
        ⟨filled, lagging⟩ | settled
      · rw [meets_moveLagging_succ filled lagging]
        apply (steps (kept.queued.placed node.queue.heads[0] (by simp))).mono
        · intro span? cursor advances
          refine ih (kept.moved filled span?
            (HeadQueue.heaped_exchange kept.queued.heaped filled span?)
            (HeadQueue.exchange_perm _ filled span?) ?_ ?_) entered
          · intro span isSpan
            exact (advances span isSpan).2
          · intro span isSpan
            exact le_of_lt (advances span isSpan).1
        · intro _ cursor orderly
          exact kept.failed filled orderly
      · rw [meets_moveLagging_of_settled settled]
        exact ⟨kept, entered, settled⟩

/-- The union settles on its least head. -/
theorem meets_settle (kept : Keeps disturb last? node)
    (entered : size ≤ node.entered) {floor? : Option DocId}
    (after : ∀ least ∈ node.queue.least?, ∀ last ∈ last?, last < least.span)
    (floor : ∀ least ∈ node.queue.least?, ∀ floor ∈ floor?,
      floor ≤ least.span.doc) :
    settle.Meets node (Advances (Keeps disturb) last? floor?)
      (fun _ reached => Keeps disturb last? reached) := by
  refine (Attempt.meets_of_ok (show settle node =
    (.ok (node.queue.least?.map Head.span),
      { node with
        standing := .after (node.queue.least?.map Head.span) }) from
    rfl)).mpr ?_
  cases first : node.queue.least? with
  | none => exact ⟨rfl, (kept.queued.seats.standing _).queued
      kept.queued.heaped, kept.notBehind, trivial⟩
  | some least =>
      refine ⟨after least first, floor least first, rfl,
        (kept.queued.seats.standing _).queued kept.queued.heaped, ?_, rfl,
        entered⟩
      rintro _ ⟨rfl⟩ head isHead
      exact Head.span_le_of_le
        (kept.queued.heaped.least_le first (Array.mem_toList_iff.mp isHead))

theorem meets_onward (kept : Keeps disturb last? node)
    (goes : node.standing.planNext = .ok true) :
    onward.Meets node (Advances (Keeps disturb) last? none)
      (fun _ reached => Keeps disturb last? reached) := by
  have least : ∀ {reached : Union σ size}, Keeps disturb last? reached →
      ∀ least ∈ reached.queue.least?, ∀ last ∈ last?,
        last ≤ least.span := by
    intro reached keptOn least isLeast last isLast
    refine keptOn.notBehind last isLast least ?_
    obtain ⟨inside, rfl⟩ := Array.getElem?_eq_some_iff.mp isLeast
    simp
  simp only [onward, Attempt.meets_bind, Attempt.meets_look]
  cases standing : node.standing with
  | closed =>
      rw [standing] at goes
      cases goes
  | exhausted =>
      rw [standing] at goes
      cases goes
  | atDocument doc =>
      have stands := kept.stands
      simp [StandsAt, standing] at stands
  | unstarted =>
      have stands := kept.stands
      simp only [StandsAt, standing] at stands
      subst stands
      split
      · simp only [Attempt.meets_bind]
        apply (meets_enterRest kept (.inl rfl) none).imp_answer
        rintro _ reached ⟨keptOn, entered⟩
        exact meets_settle keptOn entered (by simp) (by simp)
      · rename_i all
        exact meets_settle kept (by omega) (by simp) (by simp)
  | on span =>
      have stands := kept.stands
      simp only [StandsAt, standing] at stands
      obtain ⟨rfl, entered⟩ := stands
      have all : ¬ node.entered < size := by omega
      simp only [all, ↓reduceIte, Standing.span?, movePast,
        Attempt.meets_bind, Attempt.meets_look]
      refine (meets_moveLagging kept entered ?_ _).imp_answer ?_
      · intro span cursor orderly
        apply orderly.meets_next.imp_answer
        rintro _ reached advances later rfl
        exact ⟨advances.1 span rfl, advances.2.2.2⟩
      · rintro _ reached ⟨keptOn, enteredOn, past⟩
        refine meets_settle keptOn enteredOn ?_ (by simp)
        rintro first isFirst _ ⟨rfl⟩
        have other := past first isFirst
        exact lt_of_le_of_ne (least keptOn first isFirst span rfl)
          (Ne.symm (by simpa using other))

theorem meets_forward (kept : Keeps disturb last? node) {target : DocId}
    (goes : node.standing.planSeek target = .ok .forward) :
    (forward target).Meets node (Advances (Keeps disturb) last? (some target))
      (fun _ reached => Keeps disturb last? reached) := by
  obtain ⟨before, fresh⟩ := kept.stands.beforeSeek goes
  simp only [forward, seekLagging, Attempt.meets_bind, Attempt.meets_look]
  apply (meets_enterRest kept fresh (some target)).imp_answer
  rintro _ middle ⟨keptOn, entered⟩
  refine (meets_moveLagging keptOn entered ?_ _).imp_answer ?_
  · intro span cursor orderly
    apply (orderly.meets_seek target).imp_answer
    rintro _ reached advances later rfl
    exact ⟨advances.1 span rfl, advances.2.2.2⟩
  · rintro _ reached ⟨keptOn, enteredOn, landed⟩
    have landed : ∀ first ∈ reached.queue.least?,
        target ≤ first.span.doc := fun first isFirst => by
      simpa using landed first isFirst
    refine meets_settle keptOn enteredOn ?_ ?_
    · intro first isFirst last isLast
      exact .inl (UInt64.lt_of_lt_of_le (before last isLast)
        (landed first isFirst))
    · rintro first isFirst _ ⟨rfl⟩
      exact landed first isFirst

theorem disciplined :
    Disciplined (disturbed disturb)
      (Keeps disturb : Option Span → Union σ size → Prop) := by
  refine planned.disciplined ?_ meets_onward
    (fun kept goes => meets_forward kept goes) ?_
  · intro last? node span kept stands
    have standsAt := kept.stands
    change node.standing = .on span at stands
    simp only [StandsAt, stands] at standsAt
    exact standsAt.1
  · intro last? node kept event
    refine ⟨⟨⟨kept.queued.heaped, ?_, kept.queued.apart, kept.queued.within,
      ?_⟩, kept.notBehind, kept.stands⟩, rfl⟩
    · intro head isHead
      simpa [disturbed] using (kept.queued.placed head isHead).disturbed event
    · intro child notEntered
      simpa [disturbed] using
        (kept.queued.rest child notEntered).disturbed event

theorem orderly_ofCursors {cursors : Vector σ size}
    (orderly : ∀ child : Fin size, Orderly disturb none cursors[child]) :
    Orderly (disturbed disturb) none (ofCursors cursors) := by
  refine ⟨Keeps disturb, disciplined, ⟨HeadQueue.heaped_empty, nofun, .nil,
    nofun, fun child _ => orderly child⟩, nofun, rfl⟩

end Union

end PositionalSearch
