import PositionalSearch.Proofs.InStep.Candor
import PositionalSearch.Proofs.Order.Proximity
import PositionalSearch.Proofs.Search

/-!
# Proximity nodes are candid

A proximity node asks a child only for documents that the head of the child
does not lie behind.  So as long as no child is in a later document than its
head, no child is asked to go back, wherever the other children are.
-/

namespace PositionalSearch

open Attempt (Upholds upholds_look_bind upholds_within)
open Cursor (Admits Candid Seen)

variable {σ : Type} [Cursor σ] {fit : σ → Prop} {size : Nat}

namespace Lineup

variable {lineup : Lineup σ size}

/-- A child that is not asked to go back does not refuse. -/
theorem governed_kept (below : Candid fit) :
    Governed (Kept (Seen fit) : Lineup σ size → Prop)
      (fun failure _ => failure.isRefusal = false) := by
  intro lineup child move kept onward
  have went := below.meets_go (kept child) move <| by
    rintro target isTarget _ ⟨rfl⟩
    exact onward target isTarget
  refine meets_move_iff.mpr (went.imp_answer fun span? cursor answered => ?_)
  cases span? with
  | none => exact (onward_keep kept (Seen.of_none answered.1)).kept
  | some span => exact kept.place answered.1

theorem upholds_align (below : Candid fit) (kept : Kept (Seen fit) lineup) :
    Lineup.align.Upholds (Kept (Seen fit)) lineup :=
  (governed_kept below).meets_align kept

theorem upholds_seek (below : Candid fit) (kept : Kept (Seen fit) lineup)
    (target : DocId) :
    (Lineup.seek target).Upholds (Kept (Seen fit)) lineup :=
  (governed_kept below).meets_seek kept target

theorem upholds_resume (below : Candid fit) (kept : Kept (Seen fit) lineup)
    (pivot : Fin size) (doc : DocId) :
    (Lineup.resume pivot doc).Upholds (Kept (Seen fit)) lineup :=
  (governed_kept below).meets_resume kept pivot doc

theorem upholds_search (below : Candid fit) (kept : Kept (Seen fit) lineup)
    (arrangement : Arrangement) (slop : Nat) (last : Option Span)
    (doc : DocId) :
    (Lineup.search arrangement slop last doc).Upholds (Kept (Seen fit))
      lineup :=
  (governed_kept below).meets_search ⟨fun _ _ => rfl, fun _ _ => rfl⟩ kept
    arrangement slop last doc

end Lineup

/-! ## Children on their way -/

namespace Gathering

variable {gathering : Gathering σ size}

theorem upholds_enter (below : Candid fit) (kept : gathering.Kept (Seen fit))
    (target? : Option DocId) {child : Fin size}
    (waits : gathering.found[child] = none) :
    (enter target? child).Upholds (Kept (Seen fit)) gathering := by
  have seen := kept.placed child
  rw [waits] at seen
  have entered := below.meets_enter seen target?
  simp only [Upholds, Attempt.Meets, Attempt.run, enter] at entered ⊢
  cases outcome : (Cursor.enter target? : Attempt Failure σ _)
      gathering.cursors[child] with
  | mk result cursor =>
      rw [outcome] at entered
      cases result with
      | error failure => exact entered
      | ok span? =>
          cases span? with
          | none => exact kept.refused entered.of_none
          | some span => exact kept.entered entered

theorem upholds_placeAll (below : Candid fit)
    (kept : gathering.Kept (Seen fit)) (target? : Option DocId)
    (children : List (Fin size)) :
    (placeAll target? children).Upholds (Kept (Seen fit)) gathering := by
  induction children generalizing gathering with
  | nil => exact kept
  | cons child rest ih =>
      apply upholds_look_bind
      cases waits : gathering.found[child] with
      | some span => exact ih kept
      | none =>
          apply (upholds_enter below kept target? waits).bind
          intro span? reached keptOn
          cases span? with
          | none => exact keptOn
          | some span => exact ih keptOn

omit [Cursor σ] in
/-- Children that are a lineup have their first spans as their heads. -/
theorem Kept.of_lineup? {keeps : Option Span → σ → Prop}
    (kept : gathering.Kept keeps) {lineup : Lineup σ size}
    (isLineup : gathering.lineup? = some lineup) : lineup.Kept keeps := by
  unfold lineup? at isLineup
  split at isLineup
  · cases isLineup
    intro child
    simpa using kept.placed child
  · cases isLineup

end Gathering

namespace Alignment

variable {alignment : Alignment σ size}

/-- No child is in a later document than it was seen in, until one ends. -/
def InStep (fit : σ → Prop) : Alignment σ size → Prop
  | .starting gathering => gathering.Kept (Seen fit)
  | .running lineup => lineup.Kept (Seen fit)
  | .ended _ => True

theorem upholds_onLineup {α : Type}
    {work : Attempt Failure (Lineup σ size) (Option α)}
    (upholds : ∀ {lineup : Lineup σ size}, lineup.Kept (Seen fit) →
      work.Upholds (Lineup.Kept (Seen fit)) lineup)
    (inStep : alignment.InStep fit) :
    (onLineup work).Upholds (InStep fit) alignment := by
  cases alignment with
  | starting gathering => rfl
  | ended cursors => trivial
  | running lineup =>
      apply (meets_onLineup (upholds inStep)).mono
      · rintro value? _ (⟨_, further, rfl, _⟩ | ⟨_, further, _, rfl, kept⟩)
        · trivial
        · exact kept
      · rintro failure _ ⟨_, _, notRefused⟩
        exact notRefused

theorem upholds_start (below : Candid fit) (inStep : alignment.InStep fit)
    (target? : Option DocId) :
    (start target?).Upholds (InStep fit) alignment := by
  have aligns : ∀ {alignment : Alignment σ size}, alignment.InStep fit →
      (onLineup Lineup.align).Upholds (InStep fit) alignment :=
    upholds_onLineup (Lineup.upholds_align below)
  cases alignment with
  | running lineup => exact aligns inStep
  | ended cursors => exact aligns inStep
  | starting gathering =>
      apply meets_starting
      apply (Gathering.upholds_placeAll below inStep target? _).mono
      · intro all placed kept
        exact ⟨fun _ => trivial, fun _ _ => rfl, fun _ lineup isLineup =>
          @aligns (.running lineup) (kept.of_lineup? isLineup)⟩
      · exact fun _ _ notRefused => notRefused

end Alignment

/-! ## The node -/

namespace Proximity

variable {node : Proximity σ size}

/-- The children keep pace with their heads. -/
def Paced (fit : σ → Prop) (node : Proximity σ size) : Prop :=
  node.alignment.InStep fit

/-- The children keep pace with their heads, if the node goes on. -/
def InStep (fit : σ → Prop) (node : Proximity σ size) : Prop :=
  node.standing.planNext = .ok true → Paced fit node

theorem upholds_aligning {α : Type}
    {work : Attempt Failure (Alignment σ size) α}
    (upholds : work.Upholds (Alignment.InStep fit) node.alignment) :
    (aligning work).Upholds (Paced fit) node :=
  upholds_within upholds fun _ inStep => inStep

theorem upholds_resume (below : Candid fit) (paced : Paced fit node) :
    resume.Upholds (Paced fit) node := by
  apply upholds_look_bind
  split
  · exact upholds_aligning (Alignment.upholds_start below paced none)
  · simp only [Upholds, Attempt.meets_bind, Attempt.meets_ofExcept,
      Attempt.meets_ofOption]
    refine ⟨fun doc _ => ⟨fun pivot _ => ?_, fun _ => rfl⟩,
      fun failure failed => Standing.isRefusal_doc failed⟩
    exact upholds_aligning (Alignment.upholds_onLineup
      (fun kept => Lineup.upholds_resume below kept pivot doc) paced)

theorem upholds_resumeAt (below : Candid fit) (paced : Paced fit node)
    (target : DocId) : (resumeAt target).Upholds (Paced fit) node := by
  apply upholds_look_bind
  split
  · exact upholds_aligning (Alignment.upholds_start below paced (some target))
  · exact upholds_aligning (Alignment.upholds_onLineup
      (fun kept => Lineup.upholds_seek below kept target) paced)

/-- To collect payloads is not to seek. -/
theorem upholds_collectFrom (below : Candid fit) (cursors : List σ)
    (stored : List Payload) :
    (collectFrom cursors).Upholds (fun _ => True) stored := by
  induction cursors generalizing stored with
  | nil => trivial
  | cons cursor rest ih =>
      simp only [Upholds, collectFrom, Attempt.meets_bind,
        Attempt.meets_ofExcept, Attempt.meets_update]
      exact ⟨fun found _ => ih _, fun failure failed => below.payloads failed⟩

theorem upholds_collect (below : Candid fit) (paced : Paced fit node) :
    collect.Upholds (Paced fit) node := by
  simp only [Upholds, collect, Attempt.meets_bind, Attempt.meets_update,
    Attempt.meets_look]
  split
  · exact upholds_within (upholds_collectFrom below node.children [])
      fun _ _ => paced
  · exact paced

theorem admits_settle (below : Candid fit) (paced : Paced fit node)
    (doc? : Option DocId) : Admits (InStep fit) (settle doc?) node := by
  have finished : ∀ node : Proximity σ size, Admits (InStep fit) finish node :=
    fun node => ⟨nofun, rfl⟩
  cases doc? with
  | none => exact finished node
  | some doc =>
      have searching : (aligning (Alignment.onLineup (Lineup.search
          node.arrangement node.slop node.standing.span? doc))).Upholds
            (Paced fit) node :=
        upholds_aligning (Alignment.upholds_onLineup
          (fun kept => Lineup.upholds_search below kept _ _ _ doc) paced)
      simp only [Admits, settle, searchFrom, Attempt.meets_bind,
        Attempt.meets_look]
      apply searching.imp_answer
      intro found? reached pacedOn
      cases found? with
      | none => exact finished reached
      | some found =>
          simp only [Attempt.meets_bind, Attempt.meets_update,
            Attempt.meets_pure]
          have collecting : collect.Upholds (Paced fit) { reached with
              pivot? := some found.pivot } := upholds_collect below pacedOn
          exact collecting.imp_answer
            fun _ _ pacedLast => ⟨fun _ => pacedLast, rfl⟩

theorem candid (below : Candid fit) :
    Candid (InStep fit : Proximity σ size → Prop) := by
  apply planned.candid
  · intro node inStep goes
    rw [Admits, Attempt.meets_bind]
    exact (upholds_resume below (inStep goes)).imp_answer
      fun doc? _ paced => admits_settle below paced doc?
  · intro node target inStep goes
    rw [Admits, Attempt.meets_bind]
    exact (upholds_resumeAt below
      (inStep (Standing.planNext_of_planSeek goes)) target).imp_answer
        fun doc? _ paced => admits_settle below paced doc?
  · exact fun failed => Standing.isRefusal_requireSpan failed nofun
  · exact fun isClosed goes =>
      absurd goes (Standing.not_planNext_of_closed isClosed)

theorem inStep_ofCursors {arrangement : Arrangement} {slop : Nat}
    {collects : Bool} {cursors : Vector σ size}
    (seen : ∀ child : Fin size, Seen fit none cursors[child]) :
    InStep fit (ofCursors arrangement slop collects cursors) := fun _ =>
  have kept : Keeps (Seen fit) arrangement slop none
      (ofCursors arrangement slop collects cursors) := keeps_ofCursors seen
  kept.alignment.1

end Proximity

end PositionalSearch
