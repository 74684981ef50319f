import PositionalSearch.Proofs.Closed
import PositionalSearch.Proofs.InStep.Filters
import PositionalSearch.Proofs.InStep.Leaves
import PositionalSearch.Proofs.InStep.Proximity
import PositionalSearch.Proofs.InStep.Union
import PositionalSearch.Proofs.Levels
import PositionalSearch.Proofs.Order.Discipline

/-!
# What a refusal says about its caller

A tree refuses each seek that asks it to go back.  As long as its nodes are in
step with their children it refuses nothing else, and they stay in step as
long as no move fails otherwise.  A read that fails can leave a child behind
in a later document than its node has seen it in; then the node may refuse on
behalf of the child what its caller was free to ask.
-/

namespace PositionalSearch

open Cursor (Candid Seen)

namespace Cursor

variable {ι σ : Type} [Cursor σ] {fit : σ → Prop} {disturb : ι → σ → σ}

/-- A candid cursor stays fit until it fails, a refusal apart, while open. -/
theorem Candid.fit_undergo (candid : Candid fit)
    (disturbs : ∀ {cursor : σ}, fit cursor → ∀ event : ι,
      fit (disturb event cursor))
    {cursor : σ} (isFit : fit cursor) {happenings : List (Happening ι)}
    (spared : ∀ report ∈ reports disturb happenings cursor, ∀ failure,
      report.outcome = .error failure →
        failure.isRefusal ∨ report.standing = .closed) :
    fit (undergo disturb happenings cursor) := by
  induction happenings generalizing cursor with
  | nil => exact isFit
  | cons happening rest ih =>
      cases happening with
      | disturb event => exact ih (disturbs isFit event) spared
      | move move =>
          have met := candid.moves isFit move
          cases went : go move cursor with
          | mk outcome reached =>
              simp only [reports, undergo, make_of_go went] at spared ⊢
              have later := fun report member =>
                spared report (List.mem_cons_of_mem _ member)
              cases outcome with
              | ok span? => exact ih (met.of_ok went).1 later
              | error failure =>
                  apply ih _ later
                  rcases spared _ List.mem_cons_self failure rfl with
                    isRefusal | isClosed
                  · obtain ⟨current, target, rfl⟩ :=
                      Failure.exists_of_isRefusal isRefusal
                    exact (met.of_error went current target rfl).1
                  · exact candid.closed isClosed

end Cursor

/-! ## Levels -/

namespace Level

variable {σ : Type} [Cursor σ] {fit : σ → Prop}

/-- The level is a leaf, or a node in step with its children. -/
def InStep (fit : σ → Prop) : Level σ → Prop
  | .nothing _ => True
  | .listed _ => True
  | .term _ => True
  | .scripted _ _ => True
  | .probe _ => True
  | .proximity node => node.InStep fit
  | .union node => node.InStep fit
  | .without node => node.InStep fit
  | .region node => node.InStep fit
  | .metered node => node.InStep fit

theorem candid (below : Candid fit) : Candid (InStep fit) := by
  refine .of_carried fun level => ?_
  cases level with
  | nothing leaf =>
      exact .intro carries_nothing Nothing.candid (fun _ => Iff.rfl) leaf
  | listed leaf =>
      exact .intro carries_listed Listed.candid (fun _ => Iff.rfl) leaf
  | term leaf =>
      exact .intro carries_term Term.candid (fun _ => Iff.rfl) leaf
  | scripted name leaf =>
      exact .intro (carries_scripted name) Term.candid (fun _ => Iff.rfl) leaf
  | probe leaf =>
      exact .intro carries_probe Probe.candid (fun _ => Iff.rfl) leaf
  | proximity node =>
      exact .intro carries_proximity (Proximity.candid below)
        (fun _ => Iff.rfl) node
  | union node =>
      exact .intro carries_union (Union.candid below) (fun _ => Iff.rfl) node
  | without node =>
      exact .intro carries_without (Without.candid below)
        (fun _ => Iff.rfl) node
  | region node =>
      exact .intro carries_region (Region.candid below) (fun _ => Iff.rfl) node
  | metered node =>
      exact .intro carries_metered (Metered.candid below)
        (fun _ => Iff.rfl) node

end Level

/-! ## Trees -/

namespace Tree

/-- Each node of the tree is in step with its children. -/
def InStep : {height : Nat} → Tree height → Prop
  | 0, _ => True
  | height + 1, level => Level.InStep (@InStep height) level

theorem candid : (height : Nat) → Candid (InStep : Tree height → Prop)
  | 0 => ⟨nofun, nofun, nofun, nofun⟩
  | height + 1 => Level.candid (candid height)

/-- Close a tree. -/
def closing {height : Nat} (_ : Unit) (tree : Tree height) : Tree height :=
  Cursor.close tree

end Tree

/-! ## Queries -/

namespace Query

/-- A query is opened in step, and in no document yet. -/
theorem seen_openAt (levels : Nat) (query : Query)
    (fits : query.height ≤ levels) :
    Seen Tree.InStep none (openAt levels query fits) := by
  induction levels generalizing query with
  | zero => exact absurd query.height_pos (Nat.not_lt.mpr fits)
  | succ levels ih =>
      cases query with
      | nothing => exact ⟨trivial, nofun⟩
      | listed listing => exact ⟨trivial, nofun⟩
      | term occurrences => exact ⟨trivial, nofun⟩
      | scripted name script occurrences => exact ⟨trivial, nofun⟩
      | probe name listing fault? => exact ⟨trivial, nofun⟩
      | proximity arrangement slop collects children =>
          refine ⟨Proximity.inStep_ofCursors fun place => ?_, nofun⟩
          rw [getElem_pmap_openAt]
          exact ih _ _
      | union children =>
          refine ⟨Union.inStep_ofCursors fun place => ?_, nofun⟩
          rw [getElem_pmap_openAt]
          exact ih _ _
      | without clash included excluded =>
          exact ⟨Without.inStep_ofCursors (ih included _) (ih excluded _),
            nofun⟩
      | region low high anchor child =>
          exact ⟨Region.inStep_ofCursor (ih child _), nofun⟩
      | metered name child =>
          exact ⟨(ih child _).fit, (ih child _).notAhead⟩

/--
Whatever happened to an opened query, a seek that asks it to go back is
refused.  As long as its nodes are in step with their children no other move
is, and they are in step as long as no move failed but one that was refused or
found the tree closed.
-/
theorem refusals_report_misuse (query : Query)
    (happenings : List (Cursor.Happening Unit)) :
    let reports := Cursor.reports Tree.closing happenings query.openTree
    let tree := Cursor.undergo Tree.closing happenings query.openTree
    (∀ current target, Cursor.doc tree = .ok current → target < current →
      (Cursor.seek target tree).1 =
        .error (.behindCurrent current target)) ∧
    (tree.InStep → ∀ move current target,
      (Cursor.go move tree).1 = .error (.behindCurrent current target) →
        move = .seek target ∧ Cursor.doc tree = .ok current ∧
          target < current) ∧
    ((∀ report ∈ reports, ∀ failure, report.outcome = .error failure →
      failure.isRefusal ∨ report.standing = .closed) → tree.InStep) := by
  intro reports tree
  have candid := Tree.candid query.height
  refine ⟨fun _ _ => candid.refuses,
    fun inStep move current target failed => ?_, fun spared => ?_⟩
  · exact ((candid.moves inStep move).of_error (Prod.ext failed rfl) current
      target rfl).2
  · refine candid.fit_undergo ?_
      (seen_openAt query.height query (Nat.le_refl _)).fit spared
    exact fun {cursor} _ _ => candid.closed (Tree.standing_close cursor)

/-- A term in three documents without another one in documents further on. -/
def threeWithout (faults : List PlannedFault) : Query :=
  .without .inDocument
    (.scripted "a" ⟨[], [], none⟩ [⟨1, 0, none⟩, ⟨2, 0, none⟩, ⟨3, 0, none⟩])
    (.scripted "b" ⟨faults, [], none⟩ [⟨5, 0, none⟩])

/-- After a seek that was refused a read is not. -/
theorem refused_seek_keeps_step :
    let reached := Cursor.undergo Tree.closing
      [.move .next, .move (.seek 0)] (threeWithout []).openTree
    reached.InStep ∧
    (Cursor.seek 0 reached).1 = .error (.behindCurrent 1 0) ∧
    ∀ current target, (Cursor.go .next reached).1 ≠
      .error (.behindCurrent current target) := by
  obtain ⟨refuses, misused, spared⟩ := refusals_report_misuse
    (threeWithout []) [.move .next, .move (.seek 0)]
  have outcomes : (Cursor.reports Tree.closing
      [.move .next, .move (.seek 0)] (threeWithout []).openTree).map
        Report.outcome =
      [.ok (.span (some (.ofToken 1 0))), .error (.behindCurrent 1 0)] := by
    cbv
  have stands : Cursor.doc (Cursor.undergo Tree.closing
      [.move .next, .move (.seek 0)] (threeWithout []).openTree) = .ok 1 := by
    cbv
  intro reached
  have inStep : reached.InStep := by
    apply spared
    intro report member failure failed
    have isOutcome := List.mem_map_of_mem (f := Report.outcome) member
    rw [outcomes, failed] at isOutcome
    simp only [List.mem_cons, reduceCtorEq, Except.error.injEq,
      List.not_mem_nil, or_false, false_or] at isOutcome
    rw [isOutcome]
    exact .inl rfl
  refine ⟨inStep, refuses 1 0 stands (by decide), ?_⟩
  intro current target failed
  cases (misused inStep .next current target failed).1

/--
The first read leaves the excluded term in a document of which it could not
read a position, so the second read is refused although nothing asked it to go
back.
-/
theorem read_refused_after_fault :
    let faults := [⟨.nextPosition, 1, ⟨.interrupted, "transient"⟩⟩]
    let reached := (Cursor.next (threeWithout faults).openTree).2
    Cursor.standing reached = .unstarted ∧
      (Cursor.go .next reached).1 = .error (.behindCurrent 5 2) ∧
        ¬ reached.InStep := by
  intro faults reached
  have unstarted : Cursor.standing reached = .unstarted := by
    cbv
  have refused : (Cursor.go .next reached).1 =
      .error (.behindCurrent 5 2) := by
    cbv
  refine ⟨unstarted, refused, fun inStep => ?_⟩
  have misuse := ((Tree.candid _).moves inStep .next).of_error
    (Prod.ext refused rfl) 5 2 rfl
  cases misuse.2.1

end Query

end PositionalSearch
