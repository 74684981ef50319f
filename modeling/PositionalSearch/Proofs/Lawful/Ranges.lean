import PositionalSearch.Proofs.Lasting.Query
import PositionalSearch.Proofs.Lawful.Leaves

/-!
# Places and counts stay in range

A cursor keeps places in arrays and counts what it took.  Moves, failing ones
included, arming and closing leave each place in its array and each count below
its bound, so that none of them is ever looked up or counted beyond it.
-/

namespace PositionalSearch

open Attempt (Sustains)
open Cursor (Lasting)

/-! ## Postings -/

namespace StoredPostings

/--
The postings stand in one of their documents or past the last one, and no more
positions were taken than the document has.
-/
structure InRange (postings : StoredPostings) : Prop where
  place : ∀ place ∈ postings.place, place ≤ postings.documents.size
  taken : ∀ posted ∈ postings.current?,
    postings.taken ≤ posted.positions.size

variable {postings : StoredPostings}

theorem inRange_moveTo (place : Nat) (postings : StoredPostings) :
    (postings.moveTo place).InRange where
  place := by
    rintro _ ⟨rfl⟩
    exact Nat.min_le_right _ _
  taken _ _ := Nat.zero_le _

theorem inRange_close (postings : StoredPostings) :
    postings.close.InRange where
  place := by
    rintro _ ⟨rfl⟩
    exact Nat.zero_le _
  taken _ _ := Nat.zero_le _

theorem inRange_ofOccurrences (occurrences : List Occurrence) :
    (ofOccurrences occurrences).InRange where
  place _ isPlace := by cases isPlace
  taken _ _ := Nat.zero_le _

theorem sustains_nextPosition (inRange : postings.InRange) :
    nextPosition.Sustains (fun _ => True) InRange postings := by
  cases found : postings.current?.bind fun posted =>
      posted.positions[postings.taken]? with
  | none =>
      refine (Attempt.meets_of_error (show nextPosition postings =
        (.error noPositionLeft, postings) by
          simp only [nextPosition, found])).mpr fun _ => inRange
  | some entry =>
      refine (Attempt.meets_of_ok (show nextPosition postings =
        (.ok entry.1, { postings with taken := postings.taken + 1 }) by
          simp only [nextPosition, found])).mpr ⟨inRange.place, ?_⟩
      intro posted isCurrent
      have isCurrent : postings.current? = some posted := isCurrent
      rw [isCurrent] at found
      obtain ⟨inside, _⟩ := Array.getElem?_eq_some_iff.mp found
      exact inside

theorem constant_inRange : Postings.Constant InRange where
  nextDocument {postings} _ := inRange_moveTo postings.nextPlace postings
  seekDocument {postings} _ target :=
    inRange_moveTo (postings.placeFrom target) postings
  nextPosition := sustains_nextPosition

/-- A frequency is announced as a number of 32 bits. -/
theorem frequency_lt (postings : StoredPostings) :
    Postings.frequency postings < UInt32.size := by
  change postings.frequency < UInt32.size
  unfold frequency
  cases postings.current? with
  | none => exact (by decide : 0 < UInt32.size)
  | some posted =>
      exact lt_of_le_of_lt (Nat.min_le_right _ _)
        (by decide : frequencyLimit < UInt32.size)

end StoredPostings

namespace ScriptedPostings

/-- The postings under the script are in range. -/
def InRange (postings : ScriptedPostings) : Prop := postings.stored.InRange

variable {postings : ScriptedPostings}

theorem sustains_perform_inRange {α : Type} {call : PostingsCall}
    {plain : Attempt ReadFault StoredPostings α} (inRange : postings.InRange)
    (sustains : plain.Sustains (fun _ => True) StoredPostings.InRange
      postings.stored) :
    (perform call plain).Sustains (fun _ => True) InRange postings := by
  simp only [Sustains, Attempt.Meets, Attempt.run, perform] at sustains ⊢
  cases postings.script.fault? call
      ((postings.calls.add call).count call) with
  | some fault => exact fun _ => inRange
  | none =>
      dsimp only
      cases outcome : plain postings.stored with
      | mk result stored =>
          rw [outcome] at sustains
          cases result with
          | ok value => exact sustains
          | error fault => exact sustains

theorem sustains_performMove_inRange {call : PostingsCall}
    {plain : Attempt ReadFault StoredPostings (Option DocId)}
    (inRange : postings.InRange)
    (sustains : plain.Sustains (fun _ => True) StoredPostings.InRange
      postings.stored) :
    (performMove call plain).Sustains (fun _ => True) InRange postings :=
  (sustains_perform_inRange inRange sustains).bind fun _ _ stays => stays

theorem constant_inRange : Postings.Constant InRange where
  nextDocument inRange := sustains_performMove_inRange inRange
    (StoredPostings.constant_inRange.nextDocument inRange)
  seekDocument inRange target := sustains_performMove_inRange inRange
    (StoredPostings.constant_inRange.seekDocument inRange target)
  nextPosition inRange := sustains_perform_inRange inRange
    (StoredPostings.constant_inRange.nextPosition inRange)

theorem frequency_lt (postings : ScriptedPostings) :
    Postings.frequency postings < UInt32.size := by
  change postings.frequency < UInt32.size
  unfold frequency
  split
  · rename_i announced _
    exact announced.toNat_lt
  · exact postings.stored.frequency_lt

end ScriptedPostings

/-! ## Terms -/

namespace Term

variable {π : Type} [Postings π] {reads : π → Prop}

/-- No more positions were taken than announced, in 32 bits. -/
structure Counted (term : Term π) : Prop where
  taken : term.taken ≤ term.frequency
  frequency : term.frequency < UInt32.size

theorem steadfast_counted
    (announces : ∀ postings : π, Postings.frequency postings < UInt32.size) :
    Steadfast reads (Counted : Term π → Prop) where
  exchange counted _ := ⟨counted.taken, counted.frequency⟩
  finish counted := ⟨counted.taken, counted.frequency⟩
  standAt _ _ _ := ⟨Nat.zero_le _, announces _⟩
  take counted left _ _ := ⟨left, counted.frequency⟩

/-- The postings are in range, and so are the counts of the term. -/
abbrev InRange (reads : π → Prop) : Term π → Prop := Held reads Counted

omit [Postings π] in
theorem inRange_ofPostings {postings : π} (held : reads postings) :
    InRange reads (ofPostings postings) :=
  ⟨held, Nat.le_refl 0, (by decide : 0 < UInt32.size)⟩

theorem InRange.close {term : Term π} (inRange : InRange reads term)
    (closes : ∀ postings : π, reads postings →
      reads (Postings.close postings)) :
    InRange reads (Cursor.close term) := by
  change InRange reads (if term.standing = .closed then term else _)
  split
  · exact inRange
  · exact ⟨closes _ inRange.postings, inRange.stays.taken,
      inRange.stays.frequency⟩

end Term

/-! ## Unions -/

namespace Union

variable {σ : Type} {size : Nat} [Cursor σ] {node : Union σ size}

/-- No more children were entered than there are. -/
def Counted (node : Union σ size) : Prop := node.entered ≤ size

theorem counted_enterRest {node : Union σ size} (counted : node.Counted)
    (target? : Option DocId) :
    (enterRest target?).Sustains (fun _ => True) Counted node := by
  unfold Sustains
  by_cases inside : node.entered < size
  · have anyhow : (Cursor.enter target?).Sustains (fun _ => True)
        (fun _ => True) node.children[(⟨node.entered, inside⟩ : Fin size)] :=
      Attempt.sustains_true _ _
    rw [meets_enterRest_of_lt inside]
    refine anyhow.mono ?_ fun _ _ _ _ => counted
    intro span? cursor _
    have countedOn : Counted { node.keep ⟨node.entered, inside⟩ cursor with
        queue := node.queue.receive ⟨node.entered, inside⟩ span?
        entered := node.entered + 1 } := inside
    exact counted_enterRest countedOn target?
  · exact (meets_enterRest_of_le (Nat.not_lt.mp inside)).mpr counted
termination_by size - node.entered

omit [Cursor σ] in
theorem counted_moveLagging {lags : Span → Bool}
    {step : Attempt Failure σ (Option Span)} (counted : node.Counted)
    (moves : Nat) :
    (moveLagging lags step moves).Sustains (fun _ => True) Counted node := by
  unfold Sustains
  induction moves generalizing node with
  | zero =>
      simp only [Attempt.Meets, Attempt.run, moveLagging]
      split
      · rename_i outcome
        split at outcome <;> cases outcome
        exact counted
      · rename_i outcome
        split at outcome <;> cases outcome
        exact fun _ => counted
  | succ moves ih =>
      rcases node.queue.exists_or_forall_least (lags ·.span) with
        ⟨filled, lagging⟩ | settled
      · have anyhow : step.Sustains (fun _ => True) (fun _ => True)
            node.children[node.queue.heads[0].child] :=
          Attempt.sustains_true _ _
        rw [meets_moveLagging_succ filled lagging]
        exact anyhow.mono (fun _ _ _ => ih counted) fun _ _ _ _ => counted
      · exact (meets_moveLagging_of_settled settled _).mpr counted

theorem counted_go (counted : node.Counted) (move : Move) :
    (Cursor.go move).Sustains (fun _ => True) Counted node := by
  have settles : ∀ {node : Union σ size}, node.Counted →
      settle.Sustains (fun _ => True) Counted node := fun counted => counted
  have onward : onward.Sustains (fun _ => True) Counted node := by
    apply Attempt.sustains_look_bind
    split
    · exact (counted_enterRest counted none).bind fun _ _ => settles
    · cases node.standing.span? with
      | none => exact settles counted
      | some span =>
          exact (counted_moveLagging counted _).bind fun _ _ => settles
  cases move with
  | next =>
      exact planned.meets_next (fun _ _ => counted) (fun _ => counted)
        fun _ => onward
  | seek target =>
      refine planned.meets_seek (fun _ _ => counted) (fun _ => counted)
        (fun _ _ _ _ => counted) (fun _ _ _ => onward) fun _ => ?_
      refine (counted_enterRest counted (some target)).bind fun _ _ entered => ?_
      exact Attempt.Sustains.bind (counted_moveLagging entered _)
        fun _ _ => settles

end Union

/-! ## Levels -/

namespace Level

variable {σ : Type} {below : σ → Prop}

/-- Each place and each count of the level is in range. -/
def InRange (below : σ → Prop) : Level σ → Prop
  | .nothing _ => True
  | .listed leaf => leaf.InRange
  | .term leaf => leaf.InRange StoredPostings.InRange
  | .scripted _ leaf => leaf.InRange ScriptedPostings.InRange
  | .probe leaf => leaf.InRange
  | .proximity node => Each (fun _ => below) node.alignment.cursors
  | .union node => node.Counted ∧ Each (fun _ => below) node.children
  | .without node => below node.included ∧ below node.excluded
  | .region node => below node.child
  | .metered node => below node.child

variable [Cursor σ]

/-- Moves leave a level in range if they leave its children so. -/
theorem lasting_inRange (lasts : Lasting (fun _ => True) below) :
    Lasting (fun _ => True) (InRange below) := by
  intro level inRange move
  cases level with
  | nothing leaf =>
      exact carries_nothing.sustains (Attempt.sustains_true _ _)
  | listed leaf =>
      exact carries_listed.sustains
        ((Listed.abides_go inRange move).imp_failure fun _ _ failed _ =>
          failed.2)
  | term leaf =>
      exact carries_term.sustains (Term.lasting
        (Term.steadfast_counted StoredPostings.frequency_lt)
        StoredPostings.constant_inRange inRange move)
  | scripted name leaf =>
      exact (carries_scripted name).sustains (Term.lasting
        (Term.steadfast_counted ScriptedPostings.frequency_lt)
        ScriptedPostings.constant_inRange inRange move)
  | probe leaf =>
      exact carries_probe.sustains
        ((Probe.abides_go inRange move).imp_failure fun _ _ failed _ =>
          failed.2)
  | proximity node =>
      exact carries_proximity.sustains ((Proximity.concludes_go
        (fun _ => lasts) ⟨inRange, rfl, rfl⟩ move).sustains
          fun _ _ _ concluded => concluded.children)
  | union node =>
      refine carries_union.sustains (Attempt.Meets.mono (Attempt.Meets.and
        (Union.counted_go inRange.1 move) ((Union.concludes_go
          (fun _ => lasts) ⟨inRange.2, rfl, rfl⟩ move).sustains
            fun _ _ _ concluded => concluded.children)) ?_ ?_)
      · exact fun _ _ both => both
      · exact fun _ _ both isSpared => ⟨both.1 isSpared, both.2 isSpared⟩
  | without node =>
      exact carries_without.sustains ((Without.concludes_go lasts lasts
        ⟨inRange.1, inRange.2, rfl⟩ move).sustains fun _ _ _ concluded =>
          ⟨concluded.included, concluded.excluded⟩)
  | region node =>
      exact carries_region.sustains ((Region.concludes_go lasts inRange
        move).sustains fun _ _ _ concluded => concluded.child)
  | metered node =>
      exact carries_metered.sustains (Metered.lasting lasts inRange move)

/-- To close a level leaves it in range if that leaves its children so. -/
theorem inRange_close
    (closes : ∀ cursor : σ, below cursor → below (Cursor.close cursor))
    {level : Level σ} (inRange : level.InRange below) :
    InRange below (Cursor.close level) := by
  have unlessClosed : ∀ {τ : Type} (standing : Standing) {node closed : τ}
      (holds : τ → Prop), holds node → holds closed →
        holds (if standing = .closed then node else closed) := by
    intro τ standing node closed holds before after
    split
    · exact before
    · exact after
  cases level with
  | nothing leaf => trivial
  | listed leaf => exact ⟨inRange.within, nofun⟩
  | probe leaf => exact ⟨inRange.within, nofun⟩
  | term leaf =>
      exact Term.InRange.close inRange
        fun _ _ => StoredPostings.inRange_close _
  | scripted name leaf =>
      exact Term.InRange.close inRange
        fun _ _ => StoredPostings.inRange_close _
  | proximity node =>
      exact unlessClosed _ (fun node : Proximity σ _ =>
        Each (fun _ => below) node.alignment.cursors) inRange
          (Each.map inRange closes)
  | union node =>
      exact unlessClosed _ (fun node : Union σ _ =>
        node.Counted ∧ Each (fun _ => below) node.children) inRange
          ⟨inRange.1, inRange.2.map closes⟩
  | without node =>
      exact unlessClosed _ (fun node : Without σ =>
        below node.included ∧ below node.excluded) inRange
          ⟨closes _ inRange.1, closes _ inRange.2⟩
  | region node =>
      exact unlessClosed _ (fun node : Region σ => below node.child) inRange
        (closes _ inRange)
  | metered node => exact closes _ inRange

omit [Cursor σ] in
/-- To arm probes moves nothing. -/
theorem inRange_arm {name : String} {fault? : Option ProbeFault} {arms : σ → σ}
    (armed : ∀ cursor : σ, below cursor → below (arms cursor))
    {level : Level σ} (inRange : level.InRange below) :
    (level.arm name fault? arms).InRange below := by
  cases level with
  | nothing leaf => trivial
  | listed leaf => exact inRange
  | term leaf => exact inRange
  | scripted name leaf => exact inRange
  | probe leaf => exact Probe.InRange.arm inRange name fault?
  | proximity node =>
      change Each (fun _ => below) (node.alignment.mapCursors arms).cursors
      rw [Alignment.cursors_mapCursors]
      exact Each.map inRange armed
  | union node => exact ⟨inRange.1, inRange.2.map armed⟩
  | without node => exact ⟨armed _ inRange.1, armed _ inRange.2⟩
  | region node => exact armed _ inRange
  | metered node => exact armed _ inRange

end Level

/-! ## Trees -/

namespace Tree

/-- Each place and each count in the tree is in range. -/
def InRange : {height : Nat} → Tree height → Prop
  | 0, tree => nomatch tree
  | _ + 1, level => Level.InRange InRange level

theorem lasting_inRange : {height : Nat} →
    Lasting (fun _ => True) (InRange : Tree height → Prop)
  | 0, tree => nomatch tree
  | _ + 1, _ => fun inRange move =>
      Level.lasting_inRange lasting_inRange inRange move

theorem InRange.close : {height : Nat} → {tree : Tree height} →
    tree.InRange → InRange (Cursor.close tree)
  | 0, tree, _ => nomatch tree
  | _ + 1, _, inRange =>
      Level.inRange_close (fun _ held => InRange.close held) inRange

theorem InRange.arm (name : String) (fault? : Option ProbeFault) :
    {height : Nat} → {tree : Tree height} → tree.InRange →
      (tree.arm name fault?).InRange
  | 0, tree, _ => nomatch tree
  | _ + 1, _, inRange =>
      Level.inRange_arm (fun _ held => InRange.arm name fault? held) inRange

end Tree

/-- In a query that is opened each place and each count is in range. -/
theorem Query.inRange_openAt (levels : Nat) (query : Query)
    (fits : query.height ≤ levels) : (openAt levels query fits).InRange := by
  induction levels generalizing query with
  | zero => exact absurd query.height_pos (Nat.not_lt.mpr fits)
  | succ levels ih =>
      cases query with
      | nothing => trivial
      | listed listing => exact ⟨Nat.zero_le _, nofun⟩
      | term occurrences =>
          exact Term.inRange_ofPostings
            (StoredPostings.inRange_ofOccurrences occurrences)
      | scripted name script occurrences =>
          have inRange : (ScriptedPostings.ofOccurrences script
              occurrences).InRange :=
            StoredPostings.inRange_ofOccurrences occurrences
          exact Term.inRange_ofPostings inRange
      | probe name listing fault? =>
          exact Probe.inRange_ofListing name listing fault?
      | proximity arrangement slop collects children =>
          exact fun place => getElem_pmap_openAt _ place ▸ ih _ _
      | union children =>
          exact ⟨Nat.zero_le _,
            fun place => getElem_pmap_openAt _ place ▸ ih _ _⟩
      | without clash included excluded =>
          exact ⟨ih included _, ih excluded _⟩
      | region low high anchor child => exact ih child _
      | metered name child => exact ih child _

end PositionalSearch
