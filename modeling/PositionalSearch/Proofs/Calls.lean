import PositionalSearch.Proofs.CarryingLevels
import PositionalSearch.Proofs.Exact.Tree
import PositionalSearch.Proofs.Follow.Query
import PositionalSearch.Proofs.InStep.Query
import PositionalSearch.Proofs.Listing
import PositionalSearch.Proofs.Sessions

/-!
# How often probes are called

Every cursor below the root of a tree can be heard: what its calls answered is
kept, and the tree moves as before.  A node that is exact calls a child only
to move it on, and never after the child has ended.  So in a run that is not
troubled by failures a probe is called at most once for each of its entries,
and once more at its end.
-/

namespace PositionalSearch

open Cursor (Arrives Carries Guided Happening Reliable Stands)

/-! ## Heard cursors -/

/-- A cursor with what its calls came to, the latest one first. -/
structure Heard (σ : Type) where
  cursor : σ
  outcomes : List (Except Failure (Option Span))

namespace Heard

variable {σ : Type}

/-- A cursor that was not called yet. -/
def fresh (cursor : σ) : Heard σ := ⟨cursor, []⟩

/-- Make a call and keep what it came to. -/
def hearing (step : Attempt Failure σ (Option Span)) :
    Attempt Failure (Heard σ) (Option Span) := fun heard =>
  match step heard.cursor with
  | (outcome, cursor) => (outcome, ⟨cursor, outcome :: heard.outcomes⟩)

variable [Cursor σ]

instance : Cursor (Heard σ) where
  next := hearing Cursor.next
  seek target := hearing (Cursor.seek target)
  standing heard := Cursor.standing heard.cursor
  payloads heard := Cursor.payloads heard.cursor
  estimate heard := Cursor.estimate heard.cursor
  close heard := { heard with cursor := Cursor.close heard.cursor }

theorem go_eq (move : Move) :
    (Cursor.go move : Attempt Failure (Heard σ) _) =
      hearing (Cursor.go move) := by
  cases move <;> rfl

/-- To forget what was heard changes nothing. -/
theorem carries_cursor : Carries (cursor : Heard σ → σ) where
  go_eq heard move := by rw [go_eq, hearing]
  standing_eq _ := rfl
  payloads_eq _ := rfl
  estimate_eq _ := rfl

/-- No call was made after one that answered that nothing is left. -/
structure Sparing (heard : Heard σ) : Prop where
  spared : .ok none ∉ heard.outcomes.tail
  underway : (Cursor.standing heard.cursor).planNext = .ok true →
    .ok none ∉ heard.outcomes

theorem sparing_fresh (cursor : σ) : (fresh cursor).Sparing :=
  ⟨List.not_mem_nil, fun _ => List.not_mem_nil⟩

/-- A call of a cursor that has not ended is one more that was in place. -/
theorem Sparing.arrives {heard : Heard σ} {fit : σ → Prop} {move : Move}
    (sparing : heard.Sparing)
    (goes : (Cursor.standing heard.cursor).planNext = .ok true)
    (arrives : Arrives fit (Cursor.go move) heard.cursor) :
    Arrives (fun later => later.Sparing ∧
        later.outcomes.length = heard.outcomes.length + 1 ∧ fit later.cursor)
      (Cursor.go move) heard := by
  have unended := sparing.underway goes
  rw [Arrives, go_eq]
  cases went : Cursor.go move heard.cursor with
  | mk outcome cursor =>
      have wentOn : hearing (Cursor.go move) heard =
          (outcome, ⟨cursor, outcome :: heard.outcomes⟩) := by
        rw [hearing, went]
      cases outcome with
      | error failure => exact (Attempt.meets_of_error wentOn).mpr trivial
      | ok span? =>
          obtain ⟨isFit, stands⟩ := Attempt.Meets.of_ok arrives went
          refine (Attempt.meets_of_ok wentOn).mpr
            ⟨⟨⟨unended, fun still => ?_⟩, rfl, isFit⟩, stands⟩
          cases span? with
          | none =>
              rw [stands] at still
              cases still
          | some span => simpa using unended

end Heard

/-! ## Thrifty probes -/

/-- Seen on a span, or not moved yet, a cursor goes on. -/
theorem Cursor.Stands.goes {σ : Type} [Cursor σ] {fit : σ → Prop}
    {seen? : Option Span} {cursor : σ} (stands : Stands fit seen? cursor) :
    (Cursor.standing cursor).planNext = .ok true := by
  rw [stands.there]
  cases seen? <;> rfl

namespace Probe

/-- Each call of the probe has passed an entry or was its last. -/
structure Thrifty (calls : Nat) (probe : Probe) : Prop where
  counted : probe.nexts + probe.seeks = calls
  bounded : calls ≤ probe.listing.size + 1
  within : probe.offset ≤ probe.listing.size
  ahead : probe.standing.planNext = .ok true → calls ≤ probe.offset

theorem thrifty_ofListing (name : String) (listing : Listing)
    (fault? : Option ProbeFault) :
    Thrifty 0 (ofListing name listing fault?) :=
  ⟨rfl, Nat.zero_le _, Nat.zero_le _, fun _ => Nat.zero_le _⟩

/-- One more call passes the entry that comes next, or there is none. -/
theorem arrives_stepOn_thrifty {calls : Nat} {probe : Probe}
    (counted : probe.nexts + probe.seeks = calls + 1)
    (within : probe.offset ≤ probe.listing.size)
    (ahead : calls ≤ probe.offset) :
    Arrives (Thrifty (calls + 1)) stepOn probe := by
  have bounded : calls + 1 ≤ probe.listing.size + 1 :=
    Nat.succ_le_succ (Nat.le_trans ahead within)
  cases found : probe.listing.entry? probe.offset with
  | some entry =>
      obtain ⟨inside, _⟩ := Array.getElem?_eq_some_iff.mp found
      exact (Attempt.meets_of_ok (stepOn_of_entry found)).mpr
        ⟨⟨counted, bounded, inside, fun _ => Nat.succ_le_succ ahead⟩, rfl⟩
  | none =>
      cases armed : probe.fault? with
      | none =>
          refine (Attempt.meets_of_ok (stepOn_of_end found armed)).mpr
            ⟨⟨counted, bounded, within, ?_⟩, rfl⟩
          rintro ⟨⟩
      | some fault =>
          exact (Attempt.meets_of_error (stepOn_of_fault found armed)).mpr
            trivial

theorem Thrifty.arrives {calls : Nat} {probe : Probe}
    (thrifty : probe.Thrifty calls)
    (goes : probe.standing.planNext = .ok true) (move : Move) :
    Arrives (Thrifty (calls + 1)) (Cursor.go move) probe := by
  have ahead := thrifty.ahead goes
  cases move with
  | next =>
      simp only [Cursor.go, Cursor.next, Arrives, Attempt.meets_bind,
        Attempt.meets_update, Attempt.meets_look, goes,
        Attempt.meets_ofExcept_ok]
      exact arrives_stepOn_thrifty (by have := thrifty.counted; grind)
        thrifty.within ahead
  | seek target =>
      have counted : probe.nexts + (probe.seeks + 1) = calls + 1 :=
        congrArg (· + 1) thrifty.counted
      simp only [Cursor.go, Cursor.seek, Arrives, Attempt.meets_bind,
        Attempt.meets_update, Attempt.meets_look]
      cases plan : probe.standing.planSeek target with
      | error failure => trivial
      | ok choice =>
          cases choice with
          | finished =>
              rw [Standing.planSeek_eq_finished_iff.mp plan] at goes
              cases goes
          | stepOn => exact arrives_stepOn_thrifty counted thrifty.within ahead
          | forward =>
              simp only [Attempt.meets_ofExcept_ok, Attempt.meets_bind,
                Attempt.meets_update, passBefore_eq]
              exact arrives_stepOn_thrifty counted
                (Bisection.boundary_le _ _ _ _ (Nat.le_refl _) thrifty.within)
                (Nat.le_trans ahead (probe.listing.le_placeFrom _ _))

theorem Thrifty.closed {calls : Nat} {probe : Probe}
    (thrifty : probe.Thrifty calls) : (Cursor.close probe).Thrifty calls :=
  ⟨thrifty.counted, thrifty.bounded, thrifty.within, by rintro ⟨⟩⟩

end Probe

/-! ## Watched trees -/

/-- Trees of at most the given height, in which each child is heard. -/
def Watched : Nat → Type
  | 0 => Empty
  | height + 1 => Level (Heard (Watched height))

namespace Watched

/-- Watched trees are cursors, level by level. -/
instance instCursor : (height : Nat) → Cursor (Watched height)
  | 0 => inferInstanceAs (Cursor Empty)
  | height + 1 =>
      letI := instCursor height
      inferInstanceAs (Cursor (Level (Heard (Watched height))))

/-- Forget what was heard. -/
def erase : {height : Nat} → Watched height → Tree height
  | 0, watched => nomatch watched
  | _ + 1, level => Level.carry (fun heard => erase heard.cursor) level

/-- Begin to watch a tree. -/
def watch : {height : Nat} → Tree height → Watched height
  | 0, tree => nomatch tree
  | _ + 1, level => Level.carry (fun tree => .fresh (watch tree)) level

/-- Close a watched tree. -/
def closing {height : Nat} (_ : Unit) (watched : Watched height) :
    Watched height :=
  Cursor.close watched

/-- A watched tree moves as the tree that is watched. -/
theorem carries_erase :
    (height : Nat) → Carries (erase : Watched height → Tree height)
  | 0 => ⟨nofun, nofun, nofun, nofun⟩
  | height + 1 =>
      Level.carries ((carries_erase height).comp Heard.carries_cursor)

theorem erase_watch : {height : Nat} → (tree : Tree height) →
    erase (watch tree) = tree
  | 0, tree => nomatch tree
  | height + 1, level =>
      @Level.carry_carry (Tree height) (Heard (Watched height))
        (fun tree => .fresh (watch tree)) (fun heard => erase heard.cursor)
        erase_watch level

/-- A watched tree that was not called yet. -/
def listen {height : Nat} (tree : Tree height) : Heard (Watched height) :=
  .fresh (watch tree)

theorem standing_watch {height : Nat} (tree : Tree height) :
    Cursor.standing (watch tree) = Cursor.standing tree := by
  rw [← (carries_erase height).standing_eq, erase_watch]

theorem estimate_listen {height : Nat} (tree : Tree height) :
    Cursor.estimate (listen tree) = Cursor.estimate tree := by
  change Cursor.estimate (watch tree) = _
  rw [← (carries_erase height).estimate_eq, erase_watch]

theorem close_erase : {height : Nat} → (watched : Watched height) →
    Cursor.close (erase watched) = erase (Cursor.close watched)
  | 0, watched => nomatch watched
  | _ + 1, level =>
      Level.close_carry (fun heard => close_erase heard.cursor) level

/-! ### Calls that are in place -/

/-- Each call of a cursor, or of one below it, was in place. -/
def Frugal : {height : Nat} → Heard (Watched height) → Prop
  | 0, _ => True
  | _ + 1, heard => heard.Sparing ∧
      Level.Exact (Probe.Thrifty heard.outcomes.length) Frugal Frugal
        heard.cursor

/-- Called only where it was seen, what is frugal stays so. -/
theorem guided :
    (height : Nat) → Guided (Frugal : Heard (Watched height) → Prop)
  | 0 => fun _ heard _ => nomatch heard.cursor
  | height + 1 => by
      rintro seen? ⟨level, outcomes⟩ stands move onward
      obtain ⟨sparing, exact⟩ := stands.fit
      have arrives : Arrives
          (Level.Exact (Probe.Thrifty (outcomes.length + 1)) Frugal Frugal)
          (Cursor.go move) (level : Level (Heard (Watched height))) := by
        apply Level.arrives (guided height) exact move
        · rintro leaf rfl
          exact Probe.Thrifty.arrives exact stands.goes move
        · rintro node rfl
          exact guided height ⟨exact, stands.there⟩ move onward
      apply (sparing.arrives stands.goes arrives).imp_answer
      rintro span? later ⟨⟨sparing, same, exact⟩, there⟩
      refine ⟨⟨sparing, ?_⟩, there⟩
      rw [same]
      exact exact

theorem standing_close : {height : Nat} → (watched : Watched height) →
    Cursor.standing (Cursor.close watched) = .closed
  | 0, watched => nomatch watched
  | _ + 1, level =>
      Level.standing_close (fun heard => standing_close heard.cursor) level

theorem Frugal.closed : {height : Nat} → {heard : Heard (Watched height)} →
    Frugal heard → Frugal (Cursor.close heard)
  | 0, _, _ => trivial
  | _ + 1, ⟨level, _⟩, ⟨sparing, exact⟩ =>
      have isClosed := standing_close level
      ⟨⟨sparing.spared, fun goes =>
        absurd goes (Standing.not_planNext_of_closed isClosed)⟩,
        Level.Exact.closed exact (fun _ => Probe.Thrifty.closed)
          (fun _ => Frugal.closed) (fun _ => Frugal.closed)⟩

/-- What the root calls is frugal; a meter is the root's in this. -/
def Tended : {height : Nat} → Watched height → Prop
  | 0, _ => True
  | _ + 1, level =>
      Level.Exact (fun _ => True) (fun heard => Tended heard.cursor) Frugal
        level

theorem reliable :
    (height : Nat) → Reliable (Tended : Watched height → Prop)
  | 0 => nofun
  | height + 1 => by
      intro level exact move
      apply Level.arrives (guided height) exact move
      · intro leaf _
        exact Probe.candid.reliable trivial move
      · rintro node rfl
        exact (Heard.carries_cursor.meets_go_iff move).mp
          (reliable height exact move)

theorem Tended.refused : {height : Nat} → {watched : Watched height} →
    Tended watched → {failure : Failure} → {move : Move} →
      (Cursor.standing watched).Refuses failure move →
        Tended (Cursor.go move watched).2
  | 0, watched, _, _, _, _ => nomatch watched
  | _ + 1, level, exact, _, move, refuses =>
      Level.Exact.refused exact refuses fun heard tended refuses => by
        rw [Heard.go_eq]
        exact tended.refused refuses

theorem Tended.closed : {height : Nat} → {watched : Watched height} →
    Tended watched → Tended (Cursor.close watched)
  | 0, _, _ => trivial
  | _ + 1, _, exact =>
      Level.Exact.closed exact (fun _ _ => trivial) (fun _ => Tended.closed)
        (fun _ => Frugal.closed)

end Watched

/-! ## What probes have heard -/

/-- A probe with what its calls came to, the latest one first. -/
structure Hearing where
  probe : Probe
  outcomes : List (Except Failure (Option Span))

/-- The probe was called often enough, and not after it had ended. -/
structure Hearing.InPlace (hearing : Hearing) : Prop where
  counted : hearing.outcomes.length =
    hearing.probe.nexts + hearing.probe.seeks
  bounded : hearing.outcomes.length ≤ hearing.probe.listing.size + 1
  spared : .ok none ∉ hearing.outcomes.tail

namespace Level

variable {σ α : Type}

/-- Gather something of a probe, of what is metered, or of the children. -/
def gather (ofProbe : Probe → List α) (ofMetered ofChild : σ → List α) :
    Level σ → List α
  | .nothing _ => []
  | .listed _ => []
  | .term _ => []
  | .scripted _ _ => []
  | .probe leaf => ofProbe leaf
  | .proximity node => node.children.flatMap ofChild
  | .union node => node.children.toList.flatMap ofChild
  | .without node => ofChild node.included ++ ofChild node.excluded
  | .region node => ofChild node.child
  | .metered node => ofMetered node.child

/-- What is gathered of cursors that were exchanged. -/
theorem gather_carry {τ β : Type} {wrap : σ → τ} {change : α → β}
    {ofProbe : Probe → List α} {ofMetered ofChild : σ → List α}
    {ofProbeThen : Probe → List β} {ofMeteredThen ofChildThen : τ → List β}
    (probes : ∀ leaf, ofProbeThen leaf = (ofProbe leaf).map change)
    (meters : ∀ cursor,
      ofMeteredThen (wrap cursor) = (ofMetered cursor).map change)
    (children : ∀ cursor,
      ofChildThen (wrap cursor) = (ofChild cursor).map change)
    (level : Level σ) :
    (level.carry wrap).gather ofProbeThen ofMeteredThen ofChildThen =
      (level.gather ofProbe ofMetered ofChild).map change := by
  have each : ∀ cursors : List σ, (cursors.map wrap).flatMap ofChildThen =
      (cursors.flatMap ofChild).map change := by
    intro cursors
    rw [List.flatMap_map, List.map_flatMap, funext children]
  cases level with
  | nothing leaf => rfl
  | listed leaf => rfl
  | term leaf => rfl
  | scripted name leaf => rfl
  | probe leaf => exact probes leaf
  | proximity node =>
      change (node.carry wrap).children.flatMap _ = _
      rw [Proximity.children_carry]
      exact each _
  | union node =>
      change (node.children.map wrap).toList.flatMap _ = _
      rw [Vector.toList_map]
      exact each _
  | without node =>
      exact (congrArg₂ (· ++ ·) (children _) (children _)).trans
        List.map_append.symm
  | region node => exact children _
  | metered node => exact meters _

/-- What is gathered of an exact level holds if it does of its parts. -/
theorem Exact.gather [Cursor σ] {level : Level σ} {fitProbe : Probe → Prop}
    {fitMetered fit : σ → Prop} {ofProbe : Probe → List α}
    {ofMetered ofChild : σ → List α} {holds : α → Prop}
    (exact : level.Exact fitProbe fitMetered fit)
    (probes : ∀ leaf, fitProbe leaf → ∀ item ∈ ofProbe leaf, holds item)
    (meters : ∀ cursor, fitMetered cursor →
      ∀ item ∈ ofMetered cursor, holds item)
    (children : ∀ cursor, fit cursor →
      ∀ item ∈ ofChild cursor, holds item) :
    ∀ item ∈ level.gather ofProbe ofMetered ofChild, holds item := by
  have each : ∀ cursors : List σ, (∀ cursor ∈ cursors, fit cursor) →
      ∀ item ∈ cursors.flatMap ofChild, holds item := by
    intro cursors isFit item member
    obtain ⟨cursor, isChild, inChild⟩ := List.mem_flatMap.mp member
    exact children cursor (isFit cursor isChild) item inChild
  cases level with
  | nothing leaf => exact List.forall_mem_nil _
  | listed leaf => exact List.forall_mem_nil _
  | term leaf => exact List.forall_mem_nil _
  | scripted name leaf => exact List.forall_mem_nil _
  | probe leaf => exact probes leaf exact
  | proximity node => exact each _ (Alignment.Exact.each exact).forall_mem
  | union node => exact each _ (Union.Exact.each exact).forall_mem
  | without node =>
      exact List.forall_mem_append.mpr
        ⟨children _ (Without.Exact.included exact),
          children _ (Without.Exact.excluded exact)⟩
  | region node => exact children _ (Region.Exact.child exact)
  | metered node => exact meters _ exact

end Level

namespace Tree

/-- The probes of a tree, in the order of the query. -/
def probes : {height : Nat} → Tree height → List Probe
  | 0, _ => []
  | _ + 1, level => Level.gather (fun leaf => [leaf]) probes probes level

/-- The probes that have a node above them that combines its children. -/
def sheltered : {height : Nat} → Tree height → List Probe
  | 0, _ => []
  | _ + 1, level => Level.gather (fun _ => []) sheltered probes level

end Tree

namespace Watched

/-- What the probes of a heard cursor have heard, in the order of the query. -/
def hearings : {height : Nat} → Heard (Watched height) → List Hearing
  | 0, _ => []
  | _ + 1, heard =>
      Level.gather (fun leaf => [⟨leaf, heard.outcomes⟩]) hearings hearings
        heard.cursor

/-- What the probes that have a combining node above them have heard. -/
def sheltered : {height : Nat} → Watched height → List Hearing
  | 0, _ => []
  | _ + 1, level =>
      Level.gather (fun _ => []) (fun heard => sheltered heard.cursor)
        hearings level

theorem probes_erase : {height : Nat} → (heard : Heard (Watched height)) →
    heard.cursor.erase.probes = (hearings heard).map Hearing.probe
  | 0, ⟨watched, _⟩ => nomatch watched
  | _ + 1, ⟨level, outcomes⟩ =>
      have own : ∀ leaf : Probe,
          [leaf] = [(⟨leaf, outcomes⟩ : Hearing)].map Hearing.probe :=
        fun _ => rfl
      Level.gather_carry own probes_erase probes_erase level

/-- Each of the sheltered probes is heard. -/
theorem sheltered_erase : {height : Nat} → (watched : Watched height) →
    watched.erase.sheltered = watched.sheltered.map Hearing.probe
  | 0, watched => nomatch watched
  | height + 1, level =>
      have metered := fun heard : Heard (Watched height) =>
        sheltered_erase heard.cursor
      Level.gather_carry (fun _ => List.map_nil.symm) metered probes_erase
        level

theorem Frugal.hearings : {height : Nat} → {heard : Heard (Watched height)} →
    Frugal heard → ∀ hearing ∈ Watched.hearings heard, hearing.InPlace
  | 0, _, _ => List.forall_mem_nil _
  | _ + 1, ⟨_, _⟩, ⟨sparing, exact⟩ =>
      Level.Exact.gather exact
        (fun _ thrifty => List.forall_mem_singleton.mpr
          ⟨thrifty.counted.symm, thrifty.bounded, sparing.spared⟩)
        (fun _ => Frugal.hearings) (fun _ => Frugal.hearings)

theorem Tended.sheltered : {height : Nat} → {watched : Watched height} →
    Tended watched → ∀ hearing ∈ Watched.sheltered watched, hearing.InPlace
  | 0, _, _ => List.forall_mem_nil _
  | _ + 1, _, exact =>
      Level.Exact.gather exact (fun _ _ => List.forall_mem_nil _)
        (fun _ => Tended.sheltered) (fun _ => Frugal.hearings)

end Watched

/-! ## Runs that are not troubled -/

/-- All that failed was to seek back, or to move what was closed. -/
def Untroubled (reports : List Report) : Prop :=
  ∀ report ∈ reports, ∀ failure, report.outcome = .error failure →
    failure.isRefusal ∨ report.standing = .closed

/-- A plain cursor only fails where it refuses. -/
theorem Plain.isRefusal_or_closed {plain : Plain} {move : Move}
    {failure : Failure} (failed : (Cursor.go move plain).1 = .error failure) :
    failure.isRefusal ∨ Cursor.standing (Cursor.go move plain).2 = .closed := by
  cases plain with
  | closed => cases move <;> exact .inr rfl
  | fresh visits => cases move <;> cases failed
  | ended => cases move <;> cases failed
  | on visit rest =>
      cases move with
      | next => cases failed
      | seek target =>
          simp only [Cursor.go, Cursor.seek] at failed
          split at failed
          · cases failed
            exact .inl rfl
          · split at failed <;> cases failed

namespace Tree

variable {height : Nat} {tree : Tree height}

theorem untroubled {plain : Plain} (follows : Cursor.Follows tree plain)
    (happenings : List (Happening Unit)) :
    Untroubled (Cursor.reports closing happenings tree) := by
  induction happenings generalizing tree plain with
  | nil => exact List.forall_mem_nil _
  | cons happening rest ih =>
      cases happening with
      | disturb event => exact ih (follows_closed (standing_close tree))
      | move move =>
          obtain ⟨same, still⟩ := follows.go_eq move
          cases went : Cursor.go move tree with
          | mk outcome reached =>
              rw [went] at same still
              simp only [Cursor.reports, Cursor.make_of_go went]
              refine List.forall_mem_cons.mpr ⟨fun failure failed => ?_,
                ih still⟩
              cases outcome with
              | ok span? => cases failed
              | error error =>
                  cases failed
                  rw [still.standing_eq]
                  exact Plain.isRefusal_or_closed same.symm

/-- The tree is in step with its children, and open or closed as a whole. -/
structure Attended (tree : Tree height) : Prop where
  inStep : tree.InStep
  whole : tree.IsOpen ∨ Cursor.standing tree = .closed

theorem Attended.closed (tree : Tree height) : (Cursor.close tree).Attended :=
  have isClosed := standing_close tree
  ⟨(candid height).closed isClosed, .inr isClosed⟩

/-- An attended tree only fails where it refuses, if it is not troubled. -/
theorem Attended.go (attended : tree.Attended) {move : Move}
    {outcome : Except Failure (Option Span)} {reached : Tree height}
    (went : Cursor.go move tree = (outcome, reached))
    (untroubled : ∀ failure, outcome = .error failure →
      failure.isRefusal ∨ Cursor.standing reached = .closed) :
    reached.Attended ∧ ∀ failure, outcome = .error failure →
      (Cursor.standing tree).Refuses failure move := by
  rcases attended.whole with isOpen | isClosed
  · have stillOpen : reached.IsOpen := by
      have lasts := tree.lasts_go move
      rw [went] at lasts
      exact lasts.isOpen isOpen
    have met := (candid height).moves attended.inStep move
    cases outcome with
    | ok span? =>
        exact ⟨⟨(met.of_ok went).1, .inl stillOpen⟩, nofun⟩
    | error failure =>
        rcases untroubled failure rfl with isRefusal | isClosed
        · obtain ⟨current, target, rfl⟩ :=
            Failure.exists_of_isRefusal isRefusal
          obtain ⟨inStep, rfl, isCurrent, before⟩ :=
            met.of_error went current target rfl
          refine ⟨⟨inStep, .inl stillOpen⟩, ?_⟩
          rintro _ ⟨rfl⟩
          exact Standing.planSeek_eq_behindCurrent_iff.mpr
            ⟨isCurrent, before⟩
        · exact absurd isClosed stillOpen.standing_ne
  · have refused := (shut tree isClosed).moves move
    cases outcome with
    | ok span? => exact (refused.of_ok went).elim
    | error failure =>
        obtain ⟨rfl, stillClosed⟩ := refused.of_error went
        refine ⟨⟨(candid height).closed stillClosed, .inr stillClosed⟩, ?_⟩
        rintro _ ⟨rfl⟩
        exact Standing.refuses_of_closed isClosed move

end Tree

/-! ## Watching queries -/

namespace Query

/-- A query is opened exact also if its children are exchanged. -/
theorem exact_carry_openAt {σ : Type} [Cursor σ] {levels : Nat}
    {wrap : Tree levels → σ} {ofProbe : Probe → Prop}
    {ofMetered fit : σ → Prop}
    (estimates : ∀ tree, Cursor.estimate (wrap tree) = Cursor.estimate tree)
    (probes : ∀ name listing fault?,
      ofProbe (Probe.ofListing name listing fault?))
    (meters : ∀ query fits, ofMetered (wrap (openAt levels query fits)))
    (below : ∀ query fits,
      Stands fit none (wrap (openAt levels query fits)))
    (query : Query) (fits : query.height ≤ levels + 1) :
    Level.Exact ofProbe ofMetered fit
      (Level.carry wrap (openAt (levels + 1) query fits)) := by
  have opened : ∀ {children : List Query}
      (fitting : ∀ child ∈ children, child.height ≤ levels)
      (place : Fin (children.pmap (openAt levels) fitting).toArray.size),
      Stands fit none ((⟨(children.pmap (openAt levels) fitting).toArray,
        rfl⟩ : Vector (Tree levels) _).map wrap)[place] := by
    intro children fitting place
    have mapped : ((⟨(children.pmap (openAt levels) fitting).toArray,
        rfl⟩ : Vector (Tree levels) _).map wrap)[place] =
        wrap (⟨(children.pmap (openAt levels) fitting).toArray,
          rfl⟩ : Vector (Tree levels) _)[place] := by
      simp
    rw [mapped, getElem_pmap_openAt]
    exact below _ _
  cases query with
  | nothing => exact trivial
  | listed listing => exact nofun
  | term occurrences => exact trivial
  | scripted name script occurrences => exact trivial
  | probe name listing fault? => exact probes name listing fault?
  | proximity arrangement slop collects children =>
      change Proximity.Exact fit ((Proximity.ofCursors ..).carry wrap)
      rw [← Proximity.ofCursors_map estimates]
      exact Proximity.exact_ofCursors arrangement slop collects (opened _)
  | union children =>
      change Union.Exact fit ((Union.ofCursors _).carry wrap)
      rw [← Union.ofCursors_map estimates]
      exact Union.exact_ofCursors (opened _)
  | without clash included excluded =>
      exact Without.exact_ofCursors (below included _) (below excluded _)
  | region low high anchor child =>
      exact Region.exact_ofCursor (below child _)
  | metered name child => exact meters child _

/-- An opened query was not called yet, and none of its children was. -/
theorem stands_listen_openAt : (levels : Nat) → (query : Query) →
    (fits : query.height ≤ levels) →
      Stands Watched.Frugal none (Watched.listen (openAt levels query fits))
  | 0, query, fits => absurd query.height_pos (Nat.not_lt.mpr fits)
  | levels + 1, query, fits =>
      have exact := exact_carry_openAt Watched.estimate_listen
        Probe.thrifty_ofListing
        (fun query fits => (stands_listen_openAt levels query fits).fit)
        (stands_listen_openAt levels) query fits
      ⟨⟨Heard.sparing_fresh _, exact⟩,
        (Watched.standing_watch _).trans (stands_openAt _ query fits).there⟩

theorem tended_watch_openAt : (levels : Nat) → (query : Query) →
    (fits : query.height ≤ levels) →
      (Watched.watch (openAt levels query fits)).Tended
  | 0, query, fits => absurd query.height_pos (Nat.not_lt.mpr fits)
  | levels + 1, query, fits =>
      exact_carry_openAt Watched.estimate_listen (fun _ _ _ => trivial)
        (tended_watch_openAt levels) (stands_listen_openAt levels) query fits

end Query

/-- In a run that is not troubled each call below the root is in place. -/
theorem Watched.tended_undergo {height : Nat} {watched : Watched height}
    (tended : watched.Tended) (attended : watched.erase.Attended)
    {happenings : List (Happening Unit)}
    (untroubled : Untroubled
      (Cursor.reports Tree.closing happenings watched.erase)) :
    (Cursor.undergo closing happenings watched).Tended := by
  induction happenings generalizing watched with
  | nil => exact tended
  | cons happening rest ih =>
      cases happening with
      | disturb event =>
          apply ih tended.closed
          · rw [← close_erase]
            exact .closed _
          · rw [← close_erase]
            exact untroubled
      | move move =>
          have arrives := reliable height tended move
          have wentErased := (carries_erase height).go_eq watched move
          cases went : Cursor.go move watched with
          | mk outcome reached =>
              rw [went] at wentErased
              simp only [Cursor.reports, Cursor.make_of_go wentErased]
                at untroubled
              obtain ⟨untroubledFirst, untroubledRest⟩ :=
                List.forall_mem_cons.mp untroubled
              obtain ⟨stillAttended, refuses⟩ := attended.go wentErased <| by
                rintro failure rfl
                exact untroubledFirst failure rfl
              simp only [Cursor.undergo, Cursor.make_of_go went]
              refine ih ?_ stillAttended untroubledRest
              cases outcome with
              | ok span? => exact (Attempt.Meets.of_ok arrives went).1
              | error failure =>
                  have still := tended.refused <| by
                    rw [← (carries_erase height).standing_eq]
                    exact refuses failure rfl
                  rw [went] at still
                  exact still

namespace Query

/--
To watch a query changes nothing of what a run comes to.  If the query is free
of faults, or nothing failed in the run but what was refused, each probe below
a node that combines its children was called at most once for each of its
entries and once more, and never after it had answered that nothing is left.
-/
theorem calls_bounded (query : Query) (happenings : List (Happening Unit))
    (spared : query.FaultFree ∨
      Untroubled (Cursor.reports Tree.closing happenings query.openTree)) :
    let watched := Cursor.undergo Watched.closing happenings
      (Watched.watch query.openTree)
    let tree := Cursor.undergo Tree.closing happenings query.openTree
    watched.erase = tree ∧
      Cursor.reports Watched.closing happenings
          (Watched.watch query.openTree) =
        Cursor.reports Tree.closing happenings query.openTree ∧
      tree.sheltered = watched.sheltered.map Hearing.probe ∧
      ∀ hearing ∈ watched.sheltered,
        hearing.outcomes.length =
            hearing.probe.nexts + hearing.probe.seeks ∧
          hearing.outcomes.length ≤ hearing.probe.listing.size + 1 ∧
          .ok none ∉ hearing.outcomes.tail := by
  intro watched tree
  have erases := Watched.carries_erase query.height
  have closes : ∀ (event : Unit) (watched : Watched query.height),
      Tree.closing event watched.erase = (Watched.closing event watched).erase :=
    fun _ watched => watched.close_erase
  have untroubled : Untroubled
      (Cursor.reports Tree.closing happenings query.openTree) :=
    spared.elim (fun faultFree =>
      Tree.untroubled (follows_openAt faultFree _ _) happenings) id
  have attended : query.openTree.Attended :=
    ⟨(seen_openAt _ query (Nat.le_refl _)).fit,
      .inl (isOpen_openAt _ query (Nat.le_refl _))⟩
  have tended : watched.Tended := by
    apply Watched.tended_undergo (tended_watch_openAt _ query (Nat.le_refl _))
    · exact (Watched.erase_watch query.openTree).symm ▸ attended
    · exact (Watched.erase_watch query.openTree).symm ▸ untroubled
  have opened := Watched.erase_watch query.openTree
  have erased : watched.erase = tree := by
    rw [← erases.undergo_eq closes, opened]
  refine ⟨erased, ?_, ?_, fun hearing member => ?_⟩
  · rw [← erases.reports_eq closes, opened]
  · rw [← erased, watched.sheltered_erase]
  · have inPlace := tended.sheltered hearing member
    exact ⟨inPlace.counted, inPlace.bounded, inPlace.spared⟩

/-- A probe of three documents without what another one has a span in. -/
def pairedProbes : Query :=
  .without .inDocument
    (.probe "included" ⟨#[⟨.ofToken 1 0, none⟩, ⟨.ofToken 2 0, none⟩,
      ⟨.ofToken 3 0, none⟩], by decide⟩ none)
    (.probe "excluded" ⟨#[⟨.ofToken 2 5, none⟩], by decide⟩ none)

/--
However long it is asked after its end, the node calls each probe once for
each of its entries, and once more.
-/
theorem paired_probes_called :
    let happenings := [.move .next, .move .next, .move .next,
      .move (.seek 9), .disturb (), .move .next]
    let watched := Cursor.undergo Watched.closing happenings
      (Watched.watch pairedProbes.openTree)
    pairedProbes.FaultFree ∧
      watched.sheltered.map (fun hearing => hearing.outcomes.length) =
        [4, 2] ∧
      ∀ hearing ∈ watched.sheltered,
        hearing.outcomes.length ≤ hearing.probe.listing.size + 1 ∧
          .ok none ∉ hearing.outcomes.tail := by
  intro happenings watched
  have faultFree : pairedProbes.FaultFree :=
    .without _ (.probe _ _) (.probe _ _)
  have called : (Cursor.undergo Watched.closing [.move .next, .move .next,
      .move .next, .move (.seek 9), .disturb (), .move .next]
      (Watched.watch pairedProbes.openTree)).sheltered.map
        (fun hearing => hearing.outcomes.length) = [4, 2] := by
    cbv
  obtain ⟨_, _, _, bounded⟩ :=
    calls_bounded pairedProbes happenings (.inl faultFree)
  exact ⟨faultFree, called, fun hearing member =>
    (bounded hearing member).2⟩

end Query

end PositionalSearch
