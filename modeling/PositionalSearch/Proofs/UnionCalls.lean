import PositionalSearch.Proofs.CarryingLevels
import PositionalSearch.Proofs.Follow.Query
import PositionalSearch.Proofs.Lasting.Basic
import PositionalSearch.Proofs.Logging

/-!
# Which children a union calls

A union on a span has passed just those spans of its children that come before
it.  To read on it calls the children that stand on the span, each of them
once, and to seek a document those that stand before it; the others are left
as they are.
-/

namespace PositionalSearch

open Cursor (Follows Lasting)

namespace Union

variable {σ : Type} [Cursor σ] {size : Nat} {all left : Fin size → Visits}
  {node : Union σ size} {target? : Option DocId} {span : Span}

/-- What is left of some visits from a span on. -/
def remaining (all : Fin size → Visits) (span : Span) : Fin size → Visits :=
  fun child => (all child).filter (span ≤ ·.span)

/-- A union that was only moved, over children that yield some visits each. -/
inductive Tracks (all : Fin size → Visits) (node : Union σ size) : Prop
  | unstarted (stands : node.standing = .unstarted) (isFresh : node.entered = 0)
      (isEmpty : node.queue = .empty)
      (follows : ∀ child : Fin size,
        Follows node.children[child] (.fresh (all child)) ∧
          (all child).Ordered)
  | on {span : Span} (stands : node.standing = .on span)
      (entered : size ≤ node.entered)
      (lists : Lists none (remaining all span) node)
  | ended (stands : node.standing = .exhausted)

/-- Where each child has the visits left that pass an upward closed test. -/
theorem tracks_settle (keeps : Span → Bool) (lists : Lists target? left node)
    (entered : size ≤ node.entered)
    (isLeft : ∀ child, left child =
      (all child).filter fun visit => keeps visit.span)
    (upward : ∀ {span later : Span}, keeps span → span ≤ later → keeps later) :
    settle.Meets node
      (fun _ reached => Tracks all reached ∧ reached.children = node.children)
      (fun _ _ => False) := by
  refine (Attempt.meets_of_ok (show settle node =
    (.ok (node.queue.least?.map Head.span),
      { node with
        standing := .after (node.queue.least?.map Head.span) }) from
    rfl)).mpr ⟨?_, rfl⟩
  cases isLeast : node.queue.least? with
  | none => exact .ended rfl
  | some least =>
      obtain ⟨top, isTop, same⟩ := lists.exists_least isLeast
      have kept : keeps least.span := by
        rw [isLeft] at isTop
        rw [← same]
        exact (List.mem_filter.mp isTop).2
      have left_eq : left = remaining all least.span := by
        funext child
        rw [isLeft, remaining]
        refine List.filter_congr fun visit member => ?_
        rw [Bool.eq_iff_iff, decide_eq_true_iff]
        constructor
        · intro keepsVisit
          have stillLeft : visit ∈ left child := by
            rw [isLeft]
            exact List.mem_filter.mpr ⟨member, keepsVisit⟩
          exact lists.least_le entered isLeast stillLeft
        · exact upward kept
      subst left_eq
      refine .on rfl entered ?_
      exact ⟨lists.heaped, lists.apart, lists.mem_heads, lists.entered,
        fun child notEntered => absurd (Nat.lt_of_lt_of_le child.isLt entered)
          (Nat.not_lt.mpr notEntered), lists.ordered⟩

/-! ## Moves -/

/-- To read on from a span is to call the children that stand on it. -/
theorem stepped_onward (stands : node.standing = .on span)
    (entered : size ≤ node.entered)
    (lists : Lists none (remaining all span) node) :
    onward.Meets node
      (fun _ reached => Tracks all reached ∧
        Stepped (· == span) Cursor.next (remaining all span) node reached)
      (fun _ _ => False) := by
  have notBefore : ∀ child, ∀ visit ∈ remaining all span child,
      span ≤ visit.span := fun child visit member =>
    of_decide_eq_true (List.mem_filter.mp member).2
  unfold onward
  rw [Attempt.meets_bind, Attempt.meets_look,
    if_neg (Nat.not_lt.mpr entered), stands]
  change (movePast span >>= fun _ => settle).Meets _ _ _
  rw [Attempt.meets_bind]
  apply (lists_movePast lists entered notBefore).imp_answer
  rintro _ reached ⟨listsOn, enteredOn, stepped⟩
  have isLeft : ∀ child, passed (· == span) (remaining all span) child =
      (all child).filter fun visit =>
        !(visit.span == span) && decide (span ≤ visit.span) :=
    fun child => List.filter_filter
  refine (tracks_settle (fun later => !(later == span) && decide (span ≤ later))
    listsOn enteredOn isLeft ?_).imp_answer ?_
  · intro later further beyond notAfter
    rw [Bool.and_eq_true, Bool.not_eq_true', beq_eq_false_iff_ne,
      decide_eq_true_iff] at beyond ⊢
    have before : span < further :=
      lt_of_lt_of_le (lt_of_le_of_ne beyond.2 beyond.1.symm) notAfter
    exact ⟨ne_of_gt before, le_of_lt before⟩
  · rintro _ last ⟨tracks, same⟩
    exact ⟨tracks, fun child => by rw [same, stepped child]⟩

/-- To go forward is to call the children that stand before the document. -/
theorem stepped_forward (entered : size ≤ node.entered)
    (lists : Lists none (remaining all span) node) (target : DocId) :
    (forward target).Meets node
      (fun _ reached => Tracks all reached ∧
        Stepped (·.doc < target) (Cursor.seek target) (remaining all span) node
          reached)
      (fun _ _ => False) := by
  unfold forward
  rw [Attempt.meets_bind, meets_enterRest_of_le entered, Attempt.meets_bind]
  apply (lists_seekLagging lists entered target).imp_answer
  rintro _ reached ⟨listsOn, enteredOn, stepped⟩
  have isLeft : ∀ child, (remaining all span child).since target =
      (all child).filter fun visit =>
        decide (target ≤ visit.span.doc) && decide (span ≤ visit.span) :=
    fun child => List.filter_filter
  refine (tracks_settle
    (fun later => decide (target ≤ later.doc) && decide (span ≤ later))
    listsOn enteredOn isLeft ?_).imp_answer ?_
  · intro later further beyond notAfter
    rw [Bool.and_eq_true, decide_eq_true_iff, decide_eq_true_iff] at beyond ⊢
    exact ⟨UInt64.le_trans beyond.1 (Span.doc_le_of_le notAfter),
      le_trans beyond.2 notAfter⟩
  · rintro _ last ⟨tracks, same⟩
    exact ⟨tracks, fun child => by rw [same, stepped child]⟩

/-- Where each child has left what it yields from a document on. -/
theorem tracks_settle_since {target? : Option DocId} (doc? : Option DocId)
    (lists : Lists target? (fun child => (all child).sinceAny doc?) node)
    (entered : size ≤ node.entered) :
    settle.Meets node (fun _ reached => Tracks all reached)
      (fun _ _ => False) := by
  have isLeft : ∀ child, (all child).sinceAny doc? =
      (all child).filter fun visit =>
        doc?.all fun doc => decide (doc ≤ visit.span.doc) := by
    intro child
    cases doc? with
    | none => exact (List.filter_eq_self.mpr fun _ _ => rfl).symm
    | some doc => rfl
  refine (tracks_settle (fun span => doc?.all fun doc => decide (doc ≤ span.doc))
    lists entered isLeft ?_).imp_answer fun _ _ met => met.1
  intro span later kept notAfter
  cases doc? with
  | none => rfl
  | some doc =>
      exact decide_eq_true (UInt64.le_trans (of_decide_eq_true kept)
        (Span.doc_le_of_le notAfter))

section

variable (stands : node.standing = .unstarted) (isFresh : node.entered = 0)
  (isEmpty : node.queue = .empty)
  (follows : ∀ child : Fin size,
    Follows node.children[child] (.fresh (all child)) ∧ (all child).Ordered)
include stands isFresh isEmpty follows

theorem tracks_onward_fresh :
    onward.Meets node (fun _ reached => Tracks all reached)
      (fun _ _ => False) := by
  have lists := lists_of_fresh isFresh isEmpty follows none
  unfold onward
  rw [Attempt.meets_bind, Attempt.meets_look]
  split
  · rw [Attempt.meets_bind]
    apply (lists_enterRest lists).imp_answer
    rintro _ reached ⟨listsOn, enteredOn⟩
    exact tracks_settle_since none listsOn enteredOn
  · rename_i entered
    rw [stands]
    exact tracks_settle_since none lists (Nat.not_lt.mp entered)

omit stands in
theorem tracks_forward_fresh (target : DocId) :
    (forward target).Meets node (fun _ reached => Tracks all reached)
      (fun _ _ => False) := by
  have lists := lists_of_fresh isFresh isEmpty follows (some target)
  unfold forward
  rw [Attempt.meets_bind]
  apply (lists_enterRest lists).imp_answer
  rintro _ reached ⟨listsOn, enteredOn⟩
  rw [Attempt.meets_bind]
  apply (lists_seekLagging listsOn enteredOn target).imp_answer
  rintro _ last ⟨listsLast, enteredLast, _⟩
  have same : (fun child => ((all child).sinceAny (some target)).since target) =
      fun child => (all child).sinceAny (some target) :=
    funext fun child => Visits.since_since
  rw [same] at listsLast
  exact tracks_settle_since (some target) listsLast enteredLast

end

/-- A union that was only moved is still one after another move. -/
theorem lasting_tracks (spared : Failure → Prop) :
    Lasting spared (Tracks all : Union σ size → Prop) := by
  intro node tracks move
  have impossible : ∀ failure (reached : Union σ size), False →
      spared failure → Tracks all reached := fun _ _ failed => failed.elim
  have goesOn : (Cursor.standing node).planNext = .ok true →
      onward.Sustains spared (Tracks all) node := by
    intro goes
    cases tracks with
    | unstarted stands isFresh isEmpty follows =>
        exact (tracks_onward_fresh stands isFresh isEmpty
          follows).imp_failure impossible
    | on stands entered lists =>
        exact (stepped_onward stands entered lists).mono
          (fun _ _ met => met.1) impossible
    | ended stands =>
        rw [show Cursor.standing node = _ from stands] at goes
        cases goes
  cases move with
  | next =>
      exact planned.meets_next (fun _ _ => tracks) (fun _ => tracks) goesOn
  | seek target =>
      refine planned.meets_seek (fun _ _ => tracks) (fun _ => tracks)
        (fun _ _ _ _ => tracks) (fun span stands _ => goesOn ?_) fun goes => ?_
      · rw [stands]
        rfl
      · cases tracks with
        | unstarted stands isFresh isEmpty follows =>
            exact (tracks_forward_fresh isFresh isEmpty follows
              target).imp_failure impossible
        | on stands entered lists =>
            exact (stepped_forward entered lists target).mono
              (fun _ _ met => met.1) impossible
        | ended stands =>
            rw [show Cursor.standing node = _ from stands] at goes
            cases goes

/-! ## Calls -/

/-- On a span each child stands on its first one from there on. -/
theorem standing_child (entered : size ≤ node.entered)
    (lists : Lists none (remaining all span) node) (child : Fin size) :
    Cursor.standing node.children[child] =
      .after (((all child).map Visit.span).find? (span ≤ ·)) := by
  have follows := lists.entered child
    (Nat.lt_of_lt_of_le child.isLt entered)
  rw [follows.standing_eq, Plain.standing_upon, remaining, List.head?_filter,
    List.find?_map]
  rfl

/-- A union without a failure stands on a span only if it tracks its children. -/
theorem Tracks.on_of_standing (tracks : Tracks all node)
    (stands : node.standing = .on span) :
    size ≤ node.entered ∧ Lists none (remaining all span) node := by
  cases tracks with
  | unstarted unstarted => cases unstarted.symm.trans stands
  | on standsToo entered lists =>
      cases standsToo.symm.trans stands
      exact ⟨entered, lists⟩
  | ended exhausted => cases exhausted.symm.trans stands

theorem stepped_next (stands : node.standing = .on span)
    (entered : size ≤ node.entered)
    (lists : Lists none (remaining all span) node) :
    Stepped (· == span) (Cursor.go .next) (remaining all span) node
      (Cursor.next node).2 := by
  have met : (Cursor.next : Attempt Failure (Union σ size) _).Meets node
      (fun _ reached => Tracks all reached ∧
        Stepped (· == span) Cursor.next (remaining all span) node reached)
      (fun _ _ => False) := by
    refine planned.meets_next (fun isClosed => ?_) (fun isExhausted => ?_)
      fun _ => stepped_onward stands entered lists
    · cases stands.symm.trans isClosed
    · cases stands.symm.trans isExhausted
  obtain ⟨span?, reached, went, _, stepped⟩ := met.exists_ok
  rw [went]
  exact stepped

theorem stepped_seek (stands : node.standing = .on span)
    (entered : size ≤ node.entered)
    (lists : Lists none (remaining all span) node) {target : DocId}
    (ahead : span.doc < target) :
    Stepped (·.doc < target) (Cursor.go (.seek target)) (remaining all span)
      node (Cursor.seek target node).2 := by
  have met : (Cursor.seek target : Attempt Failure (Union σ size) _).Meets node
      (fun _ reached => Tracks all reached ∧
        Stepped (·.doc < target) (Cursor.seek target) (remaining all span) node
          reached)
      (fun _ _ => False) := by
    refine planned.meets_seek (fun isClosed => ?_) (fun isExhausted => ?_)
      (fun current isCurrent behind => ?_) (fun current isOn same => ?_)
      fun _ => stepped_forward entered lists target
    · cases stands.symm.trans isClosed
    · cases stands.symm.trans isExhausted
    · rw [show Cursor.standing node = _ from stands] at isCurrent
      cases isCurrent
      exact absurd ahead (UInt64.lt_asymm behind)
    · cases stands.symm.trans isOn
      rw [same] at ahead
      exact absurd ahead (UInt64.lt_irrefl _)
  obtain ⟨span?, reached, went, _, stepped⟩ := met.exists_ok
  rw [went]
  exact stepped

end Union

/-- A cursor was called with one move and no more, or was not called. -/
structure Logged.Called {σ : Type} [Cursor σ] (called : Prop) (move : Move)
    (before after : Logged σ) : Prop where
  once : called → after.calls = .move move :: before.calls ∧
    after.cursor = (Cursor.go move before.cursor).2
  untouched : ¬ called → after = before

/-- The children with a head that lags were called, each of them once. -/
theorem Union.Stepped.called {σ : Type} [Cursor σ] {size : Nat}
    {all : Fin size → Visits} {node reached : Union (Logged σ) size}
    {span : Span} {lags : Span → Bool} {move : Move}
    (stepped : Stepped lags (Cursor.go move) (remaining all span) node reached)
    (child : Fin size) :
    Logged.Called
      (∃ head ∈ ((all child).map Visit.span).find? (span ≤ ·), lags head) move
      node.children[child] reached.children[child] := by
  have asked : ((remaining all span child).head?.any fun visit =>
      lags visit.span) = true ↔
        ∃ head ∈ ((all child).map Visit.span).find? (span ≤ ·), lags head := by
    rw [remaining, List.head?_filter, List.find?_map, Option.any_eq_true]
    simp only [Option.mem_def, Option.map_eq_some_iff, Function.comp_def,
      exists_exists_and_eq_and]
  constructor
  · intro called
    rw [stepped child, if_pos (asked.mpr called), Logged.go_eq]
    exact ⟨rfl, rfl⟩
  · intro notCalled
    rw [stepped child, if_neg (mt asked.mp notCalled)]

namespace Query

/-- A union over opened queries, each of them logged. -/
def openLogged (children : List Query) :
    Union (Logged (Tree (greatestHeight children))) children.length :=
  .ofCursors ((openEach children).map .fresh)

variable {children : List Query}

theorem carry_openLogged (children : List Query) :
    (openLogged children).carry Logged.cursor = .ofCursors (openEach children) := by
  rw [openLogged, ← Union.ofCursors_map Logged.carries_cursor.estimate_eq,
    Vector.map_map]
  exact congrArg Union.ofCursors (Vector.map_id _)

/-- To log the children changes nothing for the union. -/
theorem runs_openLogged (children : List Query) (moves : List Move) :
    Cursor.runs moves (union children).openTree =
      ((Cursor.runs moves (openLogged children)).1,
        (Level.union ((Cursor.runs moves (openLogged children)).2.carry
          Logged.cursor) : Level (Tree (greatestHeight children)))) := by
  have erased := (Union.carries Logged.carries_cursor).runs_eq moves
    (openLogged children)
  rw [carry_openLogged] at erased
  have opened := Level.carries_union.runs_eq moves
    (Union.ofCursors (openEach children))
  rw [erased] at opened
  rw [openTree_union]
  exact opened

theorem tracks_openLogged (faultFree : ∀ child ∈ children, child.FaultFree) :
    Union.Tracks (fun child => (children.get child).visits)
      (openLogged children) := by
  refine .unstarted rfl rfl rfl fun child => ⟨?_, ordered_visits _⟩
  have opened : (openLogged children).children[child] =
      .fresh (openEach children)[child] := by
    simp [openLogged, Union.ofCursors]
  rw [opened]
  apply Logged.carries_cursor.follows_of
  exact (follows_openEach faultFree child).1

/--
A union without faults that stands on a span has each child on the first span
that it yields from there on, or at its end.  To read on it calls each child
that stands on the span once, and to seek a later document each that stands
before that; it calls no others.
-/
theorem union_calls_lagging
    (faultFree : ∀ child ∈ children, child.FaultFree) :
    ∃ yields : Fin children.length → List Span,
      (∀ child, Walk.drain (children.get child).openTree =
        .ok (yields child)) ∧
      ∀ (moves : List Move) (span : Span),
        let node := (Cursor.runs moves (openLogged children)).2
        let head := fun child => (yields child).find? (span ≤ ·)
        Cursor.runs moves (union children).openTree =
          ((Cursor.runs moves (openLogged children)).1,
            (Level.union (node.carry Logged.cursor) :
              Level (Tree (greatestHeight children)))) ∧
        (node.standing = .on span →
          (∀ child : Fin children.length,
            Cursor.standing node.children[child] = .after (head child) ∧
            Logged.Called (head child = some span) .next node.children[child]
              (Cursor.next node).2.children[child]) ∧
          ∀ target, span.doc < target → ∀ child : Fin children.length,
            Logged.Called (∃ ahead ∈ head child, ahead.doc < target)
              (.seek target) node.children[child]
              (Cursor.seek target node).2.children[child]) := by
  refine ⟨fun child => (children.get child).visits.map Visit.span,
    fun child => drain_openTree (faultFree _ (List.get_mem _ _)),
    fun moves span => ?_⟩
  intro node head
  refine ⟨runs_openLogged children moves, fun stands => ?_⟩
  have tracks : Union.Tracks (fun child => (children.get child).visits) node :=
    (Union.lasting_tracks fun _ => True).holds_runs
      (tracks_openLogged faultFree) (fun _ => trivial) moves
  obtain ⟨entered, lists⟩ := tracks.on_of_standing stands
  refine ⟨fun child => ⟨Union.standing_child entered lists child, ?_⟩,
    fun target ahead child => ?_⟩
  · have called := (Union.stepped_next stands entered lists).called child
    simpa only [beq_iff_eq, exists_eq_right, Option.mem_def] using called
  · have called :=
      (Union.stepped_seek stands entered lists ahead).called child
    simpa only [decide_eq_true_eq] using called

/-- Two terms that share a token, two others, and one without tokens. -/
def tiedTerms : List Query :=
  List.map .term [[⟨1, 0, none⟩, ⟨4, 0, none⟩], [], [⟨1, 0, none⟩],
    [⟨2, 6, none⟩], [⟨5, 1, none⟩]]

theorem faultFree_tiedTerms : ∀ child ∈ tiedTerms, child.FaultFree :=
  faultFree_terms _

/--
On the shared token, reading on calls the two terms that have it; to seek the
third document is to call these and the one in the second document.
-/
theorem tiedTerms_calls_lagging :
    let node := (Cursor.runs [.next] (openLogged tiedTerms)).2
    (∀ child ∈ tiedTerms, child.FaultFree) ∧
    node.standing = .on (.ofToken 1 0) ∧
    (Cursor.next node).2.children[2].calls =
      .move .next :: node.children[2].calls ∧
    (Cursor.next node).2.children[3] = node.children[3] ∧
    (Cursor.seek 3 node).2.children[3].calls =
      .move (.seek 3) :: node.children[3].calls ∧
    (Cursor.seek 3 node).2.children[1] = node.children[1] := by
  intro node
  have stands : (Cursor.runs [.next] (openLogged tiedTerms)).2.standing =
      .on (.ofToken 1 0) := by
    cbv
  obtain ⟨yields, drains, calls⟩ := union_calls_lagging faultFree_tiedTerms
  have second := (drains ⟨1, by decide⟩).symm.trans
    (show Walk.drain (tiedTerms.get ⟨1, by decide⟩).openTree = .ok [] by cbv)
  have third := (drains ⟨2, by decide⟩).symm.trans
    (show Walk.drain (tiedTerms.get ⟨2, by decide⟩).openTree = .ok [.ofToken 1 0] by cbv)
  have fourth := (drains ⟨3, by decide⟩).symm.trans
    (show Walk.drain (tiedTerms.get ⟨3, by decide⟩).openTree = .ok [.ofToken 2 6] by cbv)
  rw [Except.ok.injEq] at second third fourth
  obtain ⟨-, calls⟩ := calls [.next] (.ofToken 1 0)
  obtain ⟨read, sought⟩ := calls stands
  refine ⟨faultFree_tiedTerms, stands, ((read ⟨2, by decide⟩).2.once ?_).1,
    (read ⟨3, by decide⟩).2.untouched ?_, ((sought 3 (by decide) ⟨3, by decide⟩).once ?_).1,
    (sought 3 (by decide) ⟨1, by decide⟩).untouched ?_⟩
  · dsimp only
    rw [third]
    decide
  · dsimp only
    rw [fourth]
    decide
  · dsimp only
    rw [fourth]
    decide
  · dsimp only
    rw [second]
    rintro ⟨_, ⟨⟩, _⟩

end Query

end PositionalSearch
