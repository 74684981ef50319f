import PositionalSearch.Proofs.Planned
import PositionalSearch.Proofs.Serving

/-!
# Plain cursors

A plain cursor takes the visits of a list one after the other, and to seek a
document passes those before it.  A cursor follows a plain one if every move,
in every order of moves, answers and ends alike.
-/

namespace PositionalSearch

/-- A cursor over visits that are written down. -/
inductive Plain
  /-- Nothing was read yet. -/
  | fresh (visits : Visits)
  /-- On a visit, with the rest to come. -/
  | on (visit : Visit) (rest : Visits)
  /-- Past the last visit. -/
  | ended
  /-- Closed for good. -/
  | closed

namespace Plain

/-- On the first of the visits, or past the last one. -/
def upon : Visits → Plain
  | [] => .ended
  | visit :: rest => .on visit rest

/-- The visits to come. -/
def left : Plain → Visits
  | .fresh visits => visits
  | .on _ rest => rest
  | .ended => []
  | .closed => []

/-- The visits from the current one on. -/
def held : Plain → Visits
  | .fresh visits => visits
  | .on visit rest => visit :: rest
  | .ended => []
  | .closed => []

/-- Take the first of the visits. -/
def take (visits : Visits) : Except Failure (Option Span) × Plain :=
  (.ok (visits.head?.map Visit.span), upon visits)

/-- The rules of moving over a list. -/
instance : Cursor Plain where
  next
    | .fresh visits => take visits
    | .on _ rest => take rest
    | .ended => (.ok none, .ended)
    | .closed => (.error .closed, .closed)
  seek target
    | .fresh visits => take (visits.dropWhile (·.doc < target))
    | .on visit rest =>
        if target < visit.doc then
          (.error (.behindCurrent visit.doc target), .on visit rest)
        else if target = visit.doc then take rest
        else take (rest.dropWhile (·.doc < target))
    | .ended => (.ok none, .ended)
    | .closed => (.error .closed, .closed)
  standing
    | .fresh _ => .unstarted
    | .on visit _ => .on visit.span
    | .ended => .exhausted
    | .closed => .closed
  payloads
    | .on visit _ => .ok visit.payloads
    | .fresh _ | .ended => .error .notPositioned
    | .closed => .error .closed
  estimate plain := plain.left.length
  close _ := .closed

@[simp] theorem standing_upon (visits : Visits) :
    Cursor.standing (upon visits) = .after (visits.head?.map Visit.span) := by
  cases visits <;> rfl

/-- A plain cursor that has answered stands where the answer says. -/
theorem standing_go {plain : Plain} {move : Move} {span? : Option Span}
    (went : (Cursor.go move plain).1 = .ok span?) :
    Cursor.standing (Cursor.go move plain).2 = .after span? := by
  have taken : ∀ visits : Visits, (take visits).1 = .ok span? →
      Cursor.standing (take visits).2 = .after span? := by
    intro visits isTaken
    rw [take, standing_upon, Except.ok.inj isTaken]
  cases move with
  | next =>
      cases plain with
      | fresh visits => exact taken _ went
      | on visit rest => exact taken _ went
      | ended =>
          cases went
          rfl
      | closed => cases went
  | seek target =>
      cases plain with
      | fresh visits => exact taken _ went
      | on visit rest =>
          simp only [Cursor.go, Cursor.seek] at went ⊢
          split at went
          · cases went
          · rename_i notBehind
            rw [if_neg notBehind]
            split at went
            · rename_i here
              rw [if_pos here]
              exact taken _ went
            · rename_i further
              rw [if_neg further]
              exact taken _ went
      | ended =>
          cases went
          rfl
      | closed => cases went

/-- A plain cursor that may move takes the first of the visits to come. -/
theorem next_eq_take {plain : Plain}
    (goes : (Cursor.standing plain).planNext = .ok true) :
    (Cursor.next : Attempt Failure Plain _) plain = take plain.left := by
  cases plain with
  | fresh visits => rfl
  | on visit rest => rfl
  | ended => cases goes
  | closed => cases goes

/-- On a visit a seek goes forward exactly to a later document. -/
theorem planSeek_on_iff {visit : Visit} (rest : Visits) {target : DocId} :
    (Cursor.standing (on visit rest)).planSeek target = .ok .forward ↔
      visit.doc < target := by
  constructor
  · intro goes
    rcases Standing.planSeek_eq_forward_iff.mp goes with
      stands | ⟨_, stands, _⟩ | ⟨span, stands, ahead⟩
    · cases stands
    · cases stands
    · cases stands
      exact ahead
  · intro ahead
    exact Standing.planSeek_eq_forward_iff.mpr (.inr (.inr ⟨_, rfl, ahead⟩))

/-- The visits to come are in order if all are. -/
theorem ordered_left {plain : Plain} (ordered : plain.held.Ordered) :
    plain.left.Ordered := by
  cases plain with
  | fresh visits => exact ordered
  | on visit rest => exact ordered.tail
  | ended => exact ordered
  | closed => exact ordered

/-- One that goes forward passes the visits before the target. -/
theorem seek_eq_take (plain : Plain) {target : DocId}
    (goes : (Cursor.standing plain).planSeek target = .ok .forward)
    (ordered : plain.held.Ordered) :
    (Cursor.seek target : Attempt Failure Plain _) plain =
      take (plain.left.since target) := by
  cases plain with
  | fresh visits => exact congrArg take (ordered.dropWhile_eq_since target)
  | on visit rest =>
      have ahead := (planSeek_on_iff rest).mp goes
      have notBehind : ¬ target < visit.doc := UInt64.lt_asymm ahead
      have notSame : ¬ target = visit.doc := fun same =>
        absurd (same ▸ ahead) (UInt64.lt_irrefl _)
      simp only [Cursor.seek, notBehind, notSame, ↓reduceIte]
      exact congrArg take (ordered.tail.dropWhile_eq_since target)
  | ended => cases goes
  | closed => cases goes

theorem held_upon (visits : Visits) : (upon visits).held = visits := by
  cases visits <;> rfl

/-- A plain cursor holds nothing that it did not hold before a move. -/
theorem held_go_suffix (plain : Plain) (move : Move) :
    (Cursor.go move plain).2.held <:+ plain.held := by
  have taken : ∀ visits : Visits, visits <:+ plain.held →
      (take visits).2.held <:+ plain.held := by
    intro visits isSuffix
    rw [take, held_upon]
    exact isSuffix
  cases move with
  | next =>
      cases plain with
      | fresh visits => exact taken _ List.suffix_rfl
      | on visit rest => exact taken _ (List.suffix_cons visit rest)
      | ended => exact List.suffix_rfl
      | closed => exact List.suffix_rfl
  | seek target =>
      cases plain with
      | fresh visits => exact taken _ (List.dropWhile_suffix _)
      | on visit rest =>
          simp only [Cursor.go, Cursor.seek]
          split
          · exact List.suffix_rfl
          · split
            · exact taken _ (List.suffix_cons visit rest)
            · exact taken _
                ((List.dropWhile_suffix _).trans (List.suffix_cons visit rest))
      | ended => exact List.suffix_rfl
      | closed => exact List.suffix_rfl

theorem held_runs_suffix (moves : List Move) (plain : Plain) :
    (Cursor.runs moves plain).2.held <:+ plain.held := by
  induction moves generalizing plain with
  | nil => exact List.suffix_rfl
  | cons move rest ih =>
      have went : Cursor.go move plain =
        ((Cursor.go move plain).1, (Cursor.go move plain).2) := rfl
      simp only [Cursor.runs, Cursor.make_of_go went]
      exact (ih _).trans (held_go_suffix plain move)

/--
A seek of a plain cursor ends on the span it answers, which is found exactly if
it lies in the document asked for.
-/
theorem lands_of_mem_runs {moves : List Move} {plain : Plain} {report : Report}
    (member : report ∈ (Cursor.runs moves plain).1) {target : DocId}
    {landing : Landing} (isSeek : report.move = .seek target)
    (landed : report.outcome = .ok (.landing (some landing))) :
    report.standing = .on landing.span ∧
      (landing = .found landing.span ↔ landing.span.doc = target) := by
  induction moves generalizing plain with
  | nil => cases member
  | cons move rest ih =>
      cases went : Cursor.go move plain with
      | mk outcome reached =>
          simp only [Cursor.runs, Cursor.make_of_go went] at member
          rcases List.mem_cons.mp member with rfl | later
          · cases isSeek
            cases outcome with
            | error failure => cases landed
            | ok span? =>
                have stands := standing_go (congrArg Prod.fst went)
                rw [went] at stands
                cases span? with
                | none => cases landed
                | some span =>
                    cases landed
                    rw [Landing.span_of, Landing.of_eq_found_iff]
                    exact ⟨stands, and_iff_right rfl⟩
          · exact ih later

/-! ## Forgetting payloads -/

/-- The same cursor, without payloads. -/
def bare : Plain → Plain
  | .fresh visits => .fresh (visits.map Visit.bare)
  | .on visit rest => .on visit.bare (rest.map Visit.bare)
  | .ended => .ended
  | .closed => .closed

/-- A cursor over spans that carry no payloads. -/
def ofSpans (spans : List Span) : Plain :=
  .fresh (spans.map fun span => ⟨span, []⟩)

@[simp] theorem standing_bare (plain : Plain) :
    Cursor.standing plain.bare = Cursor.standing plain := by
  cases plain <;> rfl

theorem take_bare (visits : Visits) :
    take (visits.map Visit.bare) = ((take visits).1, (take visits).2.bare) := by
  cases visits <;> rfl

theorem dropWhile_bare (visits : Visits) (target : DocId) :
    (visits.map Visit.bare).dropWhile (·.doc < target) =
      (visits.dropWhile (·.doc < target)).map Visit.bare :=
  List.dropWhile_map ..

/-- Payloads have no say in where a move goes. -/
theorem go_bare (plain : Plain) (move : Move) :
    Cursor.go move plain.bare =
      ((Cursor.go move plain).1, (Cursor.go move plain).2.bare) := by
  cases move with
  | next =>
      cases plain with
      | fresh visits => exact take_bare visits
      | on visit rest => exact take_bare rest
      | ended => rfl
      | closed => rfl
  | seek target =>
      cases plain with
      | fresh visits =>
          simp only [Cursor.go, Cursor.seek, bare, dropWhile_bare, take_bare]
      | on visit rest =>
          simp only [Cursor.go, Cursor.seek, bare, Visit.bare, dropWhile_bare,
            take_bare]
          split
          · rfl
          · split <;> rfl
      | ended => rfl
      | closed => rfl

/-- A run over visits is reported as one over their spans. -/
theorem runs_ofSpans (visits : Visits) (moves : List Move) :
    (Cursor.runs moves (ofSpans (visits.map Visit.span))).1 =
      (Cursor.runs moves (fresh visits)).1 := by
  suffices general : ∀ plain : Plain,
      (Cursor.runs moves plain.bare).1 = (Cursor.runs moves plain).1 by
    have same : ofSpans (visits.map Visit.span) = bare (.fresh visits) := by
      rw [ofSpans, List.map_map]
      rfl
    rw [same]
    exact general _
  induction moves with
  | nil => exact fun _ => rfl
  | cons move rest ih =>
      intro plain
      have wentBare := go_bare plain move
      cases went : Cursor.go move plain with
      | mk outcome reached =>
          rw [went] at wentBare
          simp only [Cursor.runs, Cursor.make_of_go went,
            Cursor.make_of_go wentBare, standing_bare, ih]

end Plain

namespace Cursor

variable {σ : Type} [Cursor σ]

/-- The attempt does to the cursor what a move does to the plain one. -/
def Copies (like : σ → Plain → Prop) (move : Move) (plain : Plain)
    (attempt : Attempt Failure σ (Option Span)) (cursor : σ) : Prop :=
  attempt.Meets cursor
    (fun span? reached => (go move plain).1 = .ok span? ∧
      like reached (go move plain).2)
    (fun failure reached => (go move plain).1 = .error failure ∧
      like reached (go move plain).2)

/-- A likeness of cursors to plain ones that moves preserve. -/
structure Mirrors (like : σ → Plain → Prop) : Prop where
  standing_eq : ∀ {cursor plain}, like cursor plain →
    standing cursor = standing plain
  payloads_eq : ∀ {cursor plain}, like cursor plain →
    payloads cursor = payloads plain
  moves : ∀ {cursor plain}, like cursor plain → ∀ move : Move,
    Copies like move plain (go move) cursor

/-- The cursor answers and stands as a plain one, whatever moves it makes. -/
def Follows (cursor : σ) (plain : Plain) : Prop :=
  ∃ like, Mirrors like ∧ like cursor plain

variable {cursor : σ} {plain : Plain}

/-- To follow plain cursors is itself a likeness. -/
theorem Follows.mirrors : Mirrors (Follows : σ → Plain → Prop) where
  standing_eq := by
    rintro cursor plain ⟨like, mirrors, alike⟩
    exact mirrors.standing_eq alike
  payloads_eq := by
    rintro cursor plain ⟨like, mirrors, alike⟩
    exact mirrors.payloads_eq alike
  moves := by
    rintro cursor plain ⟨like, mirrors, alike⟩ move
    refine (mirrors.moves alike move).mono ?_ ?_
    · exact fun _ _ ⟨same, still⟩ => ⟨same, like, mirrors, still⟩
    · exact fun _ _ ⟨same, still⟩ => ⟨same, like, mirrors, still⟩

theorem Follows.standing_eq (follows : Follows cursor plain) :
    standing cursor = standing plain := mirrors.standing_eq follows

theorem Follows.payloads_eq (follows : Follows cursor plain) :
    payloads cursor = payloads plain := mirrors.payloads_eq follows

/-- What reaching the first of some visits comes to. -/
def Takes (like : σ → Plain → Prop) (visits : Visits) (span? : Option Span)
    (reached : σ) : Prop :=
  span? = visits.head?.map Visit.span ∧ like reached (.upon visits)

/-- A move that a plain cursor makes without failing. -/
theorem Follows.meets_of_take (follows : Follows cursor plain) (move : Move)
    {visits : Visits} (taken : go move plain = Plain.take visits) :
    (go move).Meets cursor (Takes Follows visits) (fun _ _ => False) := by
  refine (mirrors.moves follows move).mono ?_ ?_
  · rintro span? reached ⟨same, still⟩
    rw [taken] at same still
    exact ⟨(Except.ok.inj same).symm, still⟩
  · rintro failure reached ⟨same, _⟩
    rw [taken] at same
    cases same

/-- A cursor that may move on takes the first of the visits to come. -/
theorem Follows.meets_next (follows : Follows cursor plain)
    (goes : (standing plain).planNext = .ok true) :
    (next : Attempt Failure σ _).Meets cursor (Takes Follows plain.left)
      (fun _ _ => False) :=
  follows.meets_of_take .next (Plain.next_eq_take goes)

/-- One that goes forward takes the first of them that is not before. -/
theorem Follows.meets_seek (follows : Follows cursor plain) {target : DocId}
    (goes : (standing plain).planSeek target = .ok .forward)
    (ordered : plain.held.Ordered) :
    (seek target : Attempt Failure σ _).Meets cursor
      (Takes Follows (plain.left.since target)) (fun _ _ => False) :=
  follows.meets_of_take (.seek target) (Plain.seek_eq_take plain goes ordered)

/-- The first move of a cursor. -/
theorem Follows.meets_enter {visits : Visits}
    (follows : Follows cursor (.fresh visits)) (ordered : visits.Ordered)
    (target? : Option DocId) :
    (enter target? : Attempt Failure σ _).Meets cursor
      (Takes Follows (visits.sinceAny target?)) (fun _ _ => False) := by
  cases target? with
  | none => exact follows.meets_next rfl
  | some target => exact follows.meets_seek rfl ordered

variable {visit : Visit} {rest : Visits}

/-- A cursor on a visit moves beyond it. -/
theorem Follows.meets_nextBeyond (follows : Follows cursor (.on visit rest))
    (ordered : Visits.Ordered (visit :: rest)) :
    (nextBeyond visit.span : Attempt Failure σ _).Meets cursor
      (fun later? reached => Takes Follows rest (later?.map Subtype.val)
        reached)
      (fun _ _ => False) := by
  simp only [nextBeyond, Attempt.meets_bind]
  apply (follows.meets_next rfl).imp_answer
  rintro span? reached ⟨rfl, follows⟩
  change Follows reached (.upon rest) at follows
  cases rest with
  | nil => exact ⟨rfl, follows⟩
  | cons later others =>
      have after := ordered.head_lt List.mem_cons_self
      simp only [Plain.left, List.head?_cons, Option.map_some, demandBeyond,
        after, ↓reduceDIte]
      exact ⟨rfl, follows⟩

/-- A cursor follows a plain one on the first of some visits. -/
def FollowsUpon (visits : Visits) (cursor : σ) : Prop :=
  Follows cursor (.upon visits)

/-- A cursor that follows a plain one does not fail. -/
theorem serves_followsUpon : Serves False (FollowsUpon : Visits → σ → Prop) where
  next := by
    intro visit rest cursor follows ordered
    refine (Follows.meets_next follows rfl).mono ?_
      fun _ _ failed => failed.elim
    rintro span? reached ⟨same, still⟩
    exact ⟨same, fun _ => still⟩
  seek := by
    intro visit rest cursor follows ordered target ahead
    have goes := (Plain.planSeek_on_iff rest).mpr ahead
    refine (Follows.meets_seek follows goes ordered).mono ?_
      fun _ _ failed => failed.elim
    rintro span? reached ⟨same, still⟩
    exact ⟨same, fun _ => still⟩

/-- A cursor that follows a fresh plain one does not fail. -/
theorem enters_follows (target? : Option DocId) :
    Enters False (fun all (cursor : σ) => Follows cursor (.fresh all))
      FollowsUpon target? := by
  constructor
  intro all cursor follows ordered
  refine (follows.meets_enter ordered target?).mono ?_
    fun _ _ failed => failed.elim
  rintro span? reached ⟨same, still⟩
  exact ⟨same, fun _ => still⟩

theorem seeks_follows : Seeks False
    (fun all (cursor : σ) => Follows cursor (.fresh all)) FollowsUpon := by
  constructor
  intro all cursor follows ordered target
  exact ((enters_follows (some target)).enter follows ordered).imp_failure
    fun _ _ failed => failed.1.elim

/-- A cursor that follows a plain one stands where that one does. -/
theorem settles_followsUpon : Settles (FollowsUpon : Visits → σ → Prop) := by
  constructor
  intro visits cursor follows move
  refine (Follows.mirrors.moves follows move).mono ?_ fun _ _ _ => trivial
  rintro span? reached ⟨same, still⟩
  rw [still.standing_eq, Plain.standing_go same]

/-! ## Cursors that move by a plan -/

section

omit [Cursor σ]

variable {like : σ → Plain → Prop}
  {attempt : Attempt Failure σ (Option Span)}

/-- To take what the plain cursor takes is to copy its move. -/
theorem Copies.of_take {move : Move} (visits : Visits)
    (taken : go move plain = Plain.take visits)
    (met : attempt.Meets cursor (Takes like visits) (fun _ _ => False)) :
    Copies like move plain attempt cursor := by
  unfold Copies
  rw [taken]
  refine met.mono ?_ fun _ _ failed => failed.elim
  rintro span? reached ⟨rfl, still⟩
  exact ⟨rfl, still⟩

/-- To plan a move as a plain cursor stands is to copy it. -/
theorem copies_planNext {onward : Attempt Failure σ (Option Span)}
    (alike : like cursor plain)
    (goes : (standing plain).planNext = .ok true →
      onward.Meets cursor (Takes like plain.left) (fun _ _ => False)) :
    Copies like .next plain (do
      match ← Attempt.ofExcept (standing plain).planNext with
      | false => pure none
      | true => onward) cursor := by
  cases plain with
  | fresh visits => exact .of_take _ rfl (goes rfl)
  | on visit rest => exact .of_take _ rfl (goes rfl)
  | ended => exact ⟨rfl, alike⟩
  | closed => exact ⟨rfl, alike⟩

/-- To plan a seek as a plain cursor stands is to copy it. -/
theorem copies_planSeek {target : DocId}
    (onward forward : Attempt Failure σ (Option Span))
    (alike : like cursor plain) (ordered : plain.held.Ordered)
    (steps : (standing plain).planNext = .ok true →
      onward.Meets cursor (Takes like plain.left) (fun _ _ => False))
    (goes : (standing plain).planSeek target = .ok .forward →
      forward.Meets cursor (Takes like (plain.left.since target))
        (fun _ _ => False)) :
    Copies like (.seek target) plain (do
      match ← Attempt.ofExcept ((standing plain).planSeek target) with
      | .finished => pure none
      | .stepOn => onward
      | .forward => forward) cursor := by
  cases plain with
  | fresh visits =>
      exact .of_take _ (Plain.seek_eq_take (.fresh visits) rfl ordered)
        (goes rfl)
  | ended => exact ⟨rfl, alike⟩
  | closed => exact ⟨rfl, alike⟩
  | on visit rest =>
      have stands : standing (Plain.on visit rest) = .on visit.span := rfl
      by_cases behind : target < visit.doc
      · have plan : (standing (Plain.on visit rest)).planSeek target =
            .error (.behindCurrent visit.doc target) := by
          rw [stands, Standing.planSeek]
          exact if_pos behind
        have went : (go (.seek target) : Attempt Failure Plain _)
            (.on visit rest) =
            (.error (.behindCurrent visit.doc target), .on visit rest) :=
          if_pos behind
        simp only [Copies, plan, went, Attempt.meets_bind,
          Attempt.meets_ofExcept_error]
        exact ⟨trivial, alike⟩
      · by_cases same : target = visit.doc
        · have plan : (standing (Plain.on visit rest)).planSeek target =
              .ok .stepOn :=
            Standing.planSeek_eq_stepOn_iff.mpr ⟨visit.span, rfl, same.symm⟩
          rw [plan]
          refine .of_take rest ?_ (steps rfl)
          exact (if_neg behind).trans (if_pos same)
        · have plan : (standing (Plain.on visit rest)).planSeek target =
              .ok .forward := by
            rw [stands, Standing.planSeek]
            exact (if_neg behind).trans (if_neg same)
          refine .of_take _ (Plain.seek_eq_take _ plan ordered) ?_
          rw [plan]
          exact goes plan

end

/-- A planned cursor mirrors plain ones if both its ways to move do. -/
theorem Planned.mirrors {onward : Attempt Failure σ (Option Span)}
    {forward : DocId → Attempt Failure σ (Option Span)}
    {like : σ → Plain → Prop} (planned : Planned onward forward)
    (standing_eq : ∀ {cursor plain}, like cursor plain →
      standing cursor = standing plain)
    (payloads_eq : ∀ {cursor plain}, like cursor plain →
      payloads cursor = payloads plain)
    (ordered : ∀ {cursor plain}, like cursor plain → plain.held.Ordered)
    (goesOn : ∀ {cursor plain}, like cursor plain →
      (standing plain).planNext = .ok true →
        onward.Meets cursor (Takes like plain.left) (fun _ _ => False))
    (goesForward : ∀ {cursor plain} (target : DocId), like cursor plain →
      (standing plain).planSeek target = .ok .forward →
        (forward target).Meets cursor (Takes like (plain.left.since target))
          (fun _ _ => False)) :
    Mirrors like where
  standing_eq := standing_eq
  payloads_eq := payloads_eq
  moves := by
    intro cursor plain alike move
    have same := standing_eq alike
    cases move with
    | next =>
        have copied := copies_planNext alike (goesOn alike)
        rw [go, planned.next_eq]
        simp only [Copies, Attempt.meets_bind, Attempt.meets_look, same]
          at copied ⊢
        exact copied
    | seek target =>
        have copied := copies_planSeek next (forward target) alike
          (ordered alike) (fun goes => ?_) (goesForward target alike)
        · rw [go, planned.seek_eq]
          simp only [Copies, Attempt.meets_bind, Attempt.meets_look, same]
            at copied ⊢
          exact copied
        · rw [planned.next_eq]
          simp only [Attempt.meets_bind, Attempt.meets_look, same, goes,
            Attempt.meets_ofExcept_ok]
          exact goesOn alike goes

/-- What carries a cursor that follows a plain one follows it as well. -/
theorem Carries.follows {τ : Type} [Cursor τ] {wrap : σ → τ}
    (carries : Carries wrap) (follows : Follows cursor plain) :
    Follows (wrap cursor) plain := by
  refine ⟨fun outer plain => ∃ inner, outer = wrap inner ∧
    Follows inner plain, ?_, cursor, rfl, follows⟩
  constructor
  · rintro _ plain ⟨inner, rfl, follows⟩
    exact (carries.standing_eq inner).trans follows.standing_eq
  · rintro _ plain ⟨inner, rfl, follows⟩
    exact (carries.payloads_eq inner).trans follows.payloads_eq
  · rintro _ plain ⟨inner, rfl, follows⟩ move
    have met := Follows.mirrors.moves follows move
    cases went : go move inner with
    | mk outcome reached =>
        have wentOuter := carries.go_eq inner move
        rw [went] at wentOuter
        cases outcome with
        | error failure =>
            obtain ⟨same, still⟩ := met.of_error went
            exact (Attempt.meets_of_error wentOuter).mpr
              ⟨same, reached, rfl, still⟩
        | ok span? =>
            obtain ⟨same, still⟩ := met.of_ok went
            exact (Attempt.meets_of_ok wentOuter).mpr
              ⟨same, reached, rfl, still⟩

/-- A cursor follows a plain one if what carries it does. -/
theorem Carries.follows_of {τ : Type} [Cursor τ] {wrap : σ → τ}
    (carries : Carries wrap) (follows : Follows (wrap cursor) plain) :
    Follows cursor plain := by
  refine ⟨fun inner plain => Follows (wrap inner) plain, ?_, follows⟩
  constructor
  · intro inner plain follows
    exact (carries.standing_eq inner).symm.trans follows.standing_eq
  · intro inner plain follows
    exact (carries.payloads_eq inner).symm.trans follows.payloads_eq
  · intro inner plain follows move
    exact (carries.meets_go_iff move).mp (Follows.mirrors.moves follows move)

/-- A cursor runs as the plain one it follows, and follows it still. -/
theorem Follows.runs (follows : Follows cursor plain) (moves : List Move) :
    (Cursor.runs moves cursor).1 = (Cursor.runs moves plain).1 ∧
      Follows (Cursor.runs moves cursor).2 (Cursor.runs moves plain).2 := by
  induction moves generalizing cursor plain with
  | nil => exact ⟨rfl, follows⟩
  | cons move rest ih =>
      have met := Follows.mirrors.moves follows move
      cases went : go move cursor with
      | mk outcome reached =>
          cases outcome with
          | error failure =>
              obtain ⟨same, still⟩ := met.of_error went
              have wentPlain : go move plain = (.error failure, _) :=
                Prod.ext same rfl
              simp only [Cursor.runs, make_of_go went, make_of_go wentPlain,
                still.standing_eq, (ih still).1, true_and]
              exact (ih still).2
          | ok span? =>
              obtain ⟨same, still⟩ := met.of_ok went
              have wentPlain : go move plain = (.ok span?, _) :=
                Prod.ext same rfl
              simp only [Cursor.runs, make_of_go went, make_of_go wentPlain,
                still.standing_eq, (ih still).1, true_and]
              exact (ih still).2

/-- Every run of a cursor is reported as that of the plain one it follows. -/
theorem Follows.runs_eq (follows : Follows cursor plain) (moves : List Move) :
    (Cursor.runs moves cursor).1 = (Cursor.runs moves plain).1 :=
  (follows.runs moves).1

end Cursor

end PositionalSearch
