import PositionalSearch.Proofs.Sessions

/-!
# Closing is done once and for all

A node that is closed for the first time closes each leaf below it once, and
the postings of the terms there are emptied.  From then on it refuses what it
is asked without reaching its children, so nothing below it is counted any
more, and its estimate is that of the query.
-/

namespace PositionalSearch

/-! ## Nodes -/

namespace Level

variable {σ : Type}

/-- The level is a node that keeps a standing of its own. -/
def IsNode : Level σ → Prop
  | .proximity _ => True
  | .union _ => True
  | .without _ => True
  | .region _ => True
  | .nothing _ => False
  | .listed _ => False
  | .term _ => False
  | .scripted _ _ => False
  | .probe _ => False
  | .metered _ => False

variable [Cursor σ]

/-- A node is still a node after a move. -/
theorem isNode_go {level : Level σ} (isNode : level.IsNode) (move : Move) :
    IsNode (Cursor.go move level).2 := by
  cases level with
  | proximity node =>
      rw [carries_proximity.go_eq]
      trivial
  | union node =>
      rw [carries_union.go_eq]
      trivial
  | without node =>
      rw [carries_without.go_eq]
      trivial
  | region node =>
      rw [carries_region.go_eq]
      trivial
  | nothing leaf => exact isNode.elim
  | listed leaf => exact isNode.elim
  | term leaf => exact isNode.elim
  | scripted name leaf => exact isNode.elim
  | probe leaf => exact isNode.elim
  | metered node => exact isNode.elim

/-- A closed node refuses a move and stays as it is, children included. -/
theorem go_closed {level : Level σ} (isNode : level.IsNode)
    (isClosed : Cursor.standing level = .closed) (move : Move) :
    Cursor.go move level = (.error .closed, level) := by
  cases level with
  | proximity node =>
      exact carries_proximity.go_refused
        (Proximity.planned.go_closed isClosed move)
  | union node =>
      exact carries_union.go_refused (Union.planned.go_closed isClosed move)
  | without node =>
      exact carries_without.go_refused (Without.planned.go_closed isClosed move)
  | region node =>
      exact carries_region.go_refused (Region.planned.go_closed isClosed move)
  | nothing leaf => exact isNode.elim
  | listed leaf => exact isNode.elim
  | term leaf => exact isNode.elim
  | scripted name leaf => exact isNode.elim
  | probe leaf => exact isNode.elim
  | metered node => exact isNode.elim

/-- A closed node is not closed again. -/
theorem close_closed {level : Level σ} (isNode : level.IsNode)
    (isClosed : Cursor.standing level = .closed) :
    Cursor.close level = level := by
  cases level with
  | proximity node => exact congrArg Level.proximity (if_pos isClosed)
  | union node => exact congrArg Level.union (if_pos isClosed)
  | without node => exact congrArg Level.without (if_pos isClosed)
  | region node => exact congrArg Level.region (if_pos isClosed)
  | nothing leaf => exact isNode.elim
  | listed leaf => exact isNode.elim
  | term leaf => exact isNode.elim
  | scripted name leaf => exact isNode.elim
  | probe leaf => exact isNode.elim
  | metered node => exact isNode.elim

omit [Cursor σ] in
theorem isNode_arm {level : Level σ} (isNode : level.IsNode) (name : String)
    (fault? : Option ProbeFault) (arms : σ → σ) :
    (level.arm name fault? arms).IsNode := by
  cases level <;> first | exact isNode.elim | trivial

theorem isNode_close {level : Level σ} (isNode : level.IsNode) :
    IsNode (Cursor.close level) := by
  cases level <;> first | exact isNode.elim | trivial

end Level

namespace Tree

variable {height : Nat}

/-- The root of the tree is a node that keeps a standing of its own. -/
def IsNode : {height : Nat} → Tree height → Prop
  | 0, tree => nomatch tree
  | _ + 1, level => Level.IsNode level

theorem isNode_go {tree : Tree height} (isNode : tree.IsNode) (move : Move) :
    IsNode (Cursor.go move tree).2 :=
  match height, tree with
  | _ + 1, _ => Level.isNode_go isNode move

theorem go_closed {tree : Tree height} (isNode : tree.IsNode)
    (isClosed : Cursor.standing tree = .closed) (move : Move) :
    Cursor.go move tree = (.error .closed, tree) :=
  match height, tree with
  | _ + 1, _ => Level.go_closed isNode isClosed move

theorem close_closed {tree : Tree height} (isNode : tree.IsNode)
    (isClosed : Cursor.standing tree = .closed) : Cursor.close tree = tree :=
  match height, tree with
  | _ + 1, _ => Level.close_closed isNode isClosed

theorem isNode_arm {tree : Tree height} (isNode : tree.IsNode) (name : String)
    (fault? : Option ProbeFault) : (tree.arm name fault?).IsNode :=
  match height, tree with
  | _ + 1, _ => Level.isNode_arm isNode name fault? _

theorem isNode_close {tree : Tree height} (isNode : tree.IsNode) :
    IsNode (Cursor.close tree) :=
  match height, tree with
  | _ + 1, _ => Level.isNode_close isNode

end Tree

/-- Taking spans moves the cursor as so many single moves do. -/
theorem Cursor.holds_take {σ : Type} [Cursor σ] {holds : σ → Prop}
    (moves : ∀ cursor : σ, holds cursor → holds (go .next cursor).2)
    (limit : Nat) {cursor : σ} (held : holds cursor) :
    holds (take limit cursor).2 := by
  induction limit generalizing cursor with
  | zero => exact held
  | succ limit ih =>
      have moved := moves cursor held
      simp only [go] at moved
      simp only [take]
      cases went : (next : Attempt Failure σ _) cursor with
      | mk outcome reached =>
          rw [went] at moved
          cases outcome with
          | error failure => exact moved
          | ok span? =>
              cases span? with
              | none => exact moved
              | some span =>
                  dsimp only
                  cases payloads reached with
                  | error failure => exact moved
                  | ok stored => exact ih moved

namespace Session

/-- The session after some steps, whatever they answer. -/
def after (session : Session) (steps : List Step) : Session :=
  steps.foldl (fun reached step => (reached.perform step).2) session

variable {height : Nat} {root : Tree height} {detached : List MeterTally}

/-- A node has no meter to be taken off. -/
theorem unwrap_eq (isNode : root.IsNode) :
    (unwrap ⟨root, detached⟩).2 = ⟨root, detached⟩ := by
  match height, root with
  | _ + 1, .metered node => exact isNode.elim
  | _ + 1, .proximity node => rfl
  | _ + 1, .union node => rfl
  | _ + 1, .without node => rfl
  | _ + 1, .region node => rfl

/-- What moves and arming preserve of a node every other step preserves. -/
theorem exists_perform {holds : Tree height → Prop}
    (isNode : ∀ tree, holds tree → tree.IsNode)
    (moves : ∀ tree, holds tree → ∀ move, holds (Cursor.go move tree).2)
    (arms : ∀ tree, holds tree → ∀ name fault?, holds (tree.arm name fault?))
    (held : holds root) (step : Step)
    (closes : step = .close → holds (Cursor.close root)) :
    ∃ reached, (perform ⟨root, detached⟩ step).2 = ⟨reached, detached⟩ ∧
      holds reached := by
  cases step with
  | next => exact ⟨_, rfl, moves root held .next⟩
  | seek target =>
      refine ⟨_, ?_, moves root held (.seek target)⟩
      simp only [perform, moving, Cursor.land_eq]
  | take limit =>
      exact ⟨_, rfl, Cursor.holds_take (fun tree held => moves tree held .next)
        limit held⟩
  | payloads => exact ⟨root, rfl, held⟩
  | hasPayload => exact ⟨root, rfl, held⟩
  | current => exact ⟨root, rfl, held⟩
  | doc => exact ⟨root, rfl, held⟩
  | start => exact ⟨root, rfl, held⟩
  | stop => exact ⟨root, rfl, held⟩
  | atEnd => exact ⟨root, rfl, held⟩
  | estimate => exact ⟨root, rfl, held⟩
  | describe => exact ⟨root, rfl, held⟩
  | tally => exact ⟨root, rfl, held⟩
  | arm name fault? => exact ⟨_, rfl, arms root held name fault?⟩
  | close => exact ⟨_, rfl, closes rfl⟩
  | unwrap => exact ⟨root, unwrap_eq (isNode root held), held⟩

/-- So do all steps but closing, one after the other. -/
theorem exists_after {holds : Tree height → Prop}
    (isNode : ∀ tree, holds tree → tree.IsNode)
    (moves : ∀ tree, holds tree → ∀ move, holds (Cursor.go move tree).2)
    (arms : ∀ tree, holds tree → ∀ name fault?, holds (tree.arm name fault?))
    {steps : List Step}
    (closes : .close ∈ steps → ∀ tree, holds tree → holds (Cursor.close tree))
    (held : holds root) :
    ∃ reached, after ⟨root, detached⟩ steps = ⟨reached, detached⟩ ∧
      holds reached := by
  induction steps generalizing root with
  | nil => exact ⟨root, rfl, held⟩
  | cons step rest ih =>
      obtain ⟨middle, performed, still⟩ : ∃ middle,
          (perform ⟨root, detached⟩ step).2 = ⟨middle, detached⟩ ∧
            holds middle :=
        exists_perform isNode moves arms held step fun isClose =>
          closes (isClose ▸ List.mem_cons_self) root held
      obtain ⟨reached, all, last⟩ := ih (fun member =>
        closes (List.mem_cons_of_mem _ member)) still
      refine ⟨reached, ?_, last⟩
      rw [← all]
      exact congrArg (fun session : Session => session.after rest) performed

end Session

/-! ## Before closing -/

namespace Tally

/-- Something holds of all that is counted. -/
structure All (ofProbe : ProbeTally → Prop) (ofMeter : MeterTally → Prop)
    (ofPostings : PostingsTally → Prop) (tally : Tally) : Prop where
  probes : ∀ probe ∈ tally.probes, ofProbe probe
  meters : ∀ meter ∈ tally.meters, ofMeter meter
  postings : ∀ postings ∈ tally.postings, ofPostings postings

section

variable {ofProbe : ProbeTally → Prop} {ofMeter : MeterTally → Prop}
  {ofPostings : PostingsTally → Prop}

theorem all_empty : empty.All ofProbe ofMeter ofPostings :=
  ⟨nofun, nofun, nofun⟩

theorem All.append {first second : Tally}
    (ofFirst : first.All ofProbe ofMeter ofPostings)
    (ofSecond : second.All ofProbe ofMeter ofPostings) :
    (first ++ second).All ofProbe ofMeter ofPostings where
  probes probe member := (List.mem_append.mp member).elim
    (ofFirst.probes probe) (ofSecond.probes probe)
  meters meter member := (List.mem_append.mp member).elim
    (ofFirst.meters meter) (ofSecond.meters meter)
  postings postings member := (List.mem_append.mp member).elim
    (ofFirst.postings postings) (ofSecond.postings postings)

theorem all_concat {tallies : List Tally}
    (each : ∀ tally ∈ tallies, tally.All ofProbe ofMeter ofPostings) :
    (concat tallies).All ofProbe ofMeter ofPostings := by
  induction tallies with
  | nil => exact all_empty
  | cons first rest ih =>
      obtain ⟨ofFirst, ofRest⟩ := List.forall_mem_cons.mp each
      exact ofFirst.append (ih ofRest)

end

/-- Nothing was closed. -/
def Unclosed (tally : Tally) : Prop :=
  tally.All (·.closes = 0) (fun _ => True) (·.calls.close = 0)

/-- Closed once, what was never closed has been closed once. -/
theorem closes_eq_one {before after : Tally} (unclosed : before.Unclosed)
    (once : after.closings = before.closings.next) :
    (∀ probe ∈ after.probes, probe.closes = 1) ∧
      ∀ postings ∈ after.postings, postings.calls.close = 1 := by
  obtain ⟨probes, postings⟩ := Closings.mk.inj once
  constructor
  · intro probe member
    have counted := List.mem_map_of_mem
      (f := fun probe : ProbeTally => (probe.name, probe.closes)) member
    rw [probes] at counted
    simp only [closings, List.map_map, List.mem_map] at counted
    obtain ⟨other, isOther, same⟩ := counted
    have closes := congrArg Prod.snd same
    simp only [Function.comp_apply, unclosed.probes other isOther] at closes
    exact closes.symm
  · intro reading member
    have counted := List.mem_map_of_mem (f := fun postings : PostingsTally =>
      (postings.name, postings.calls.close)) member
    rw [postings] at counted
    simp only [closings, List.map_map, List.mem_map] at counted
    obtain ⟨other, isOther, same⟩ := counted
    have closes := congrArg Prod.snd same
    simp only [Function.comp_apply, unclosed.postings other isOther] at closes
    exact closes.symm

/-- To close leaves does not change which ones there are. -/
theorem names_eq {before after : Tally}
    (once : after.closings = before.closings.next) :
    after.probes.map ProbeTally.name = before.probes.map ProbeTally.name ∧
      after.postings.map PostingsTally.name =
        before.postings.map PostingsTally.name := by
  obtain ⟨probes, postings⟩ := Closings.mk.inj once
  constructor
  · have names := congrArg (List.map Prod.fst) probes
    simpa [closings, Function.comp_def] using names
  · have names := congrArg (List.map Prod.fst) postings
    simpa [closings, Function.comp_def] using names

end Tally

namespace Query

/-- The query is a proximity, a union, an exclusion or a region. -/
def isNode : Query → Bool
  | .proximity _ _ _ _ => true
  | .union _ => true
  | .without _ _ _ => true
  | .region _ _ _ _ => true
  | .nothing => false
  | .listed _ => false
  | .term _ => false
  | .scripted _ _ _ => false
  | .probe _ _ _ => false
  | .metered _ _ => false

theorem isNode_openAt {query : Query} (isNode : query.isNode) (levels : Nat)
    (fits : query.height ≤ levels) : (openAt levels query fits).IsNode := by
  cases levels with
  | zero => exact absurd query.height_pos (Nat.not_lt.mpr fits)
  | succ levels =>
      cases query with
      | proximity arrangement slop collects children => trivial
      | union children => trivial
      | without clash included excluded => trivial
      | region low high anchor child => trivial
      | nothing => cases isNode
      | listed listing => cases isNode
      | term occurrences => cases isNode
      | scripted name script occurrences => cases isNode
      | probe name listing fault? => cases isNode
      | metered name child => cases isNode

/-- In an opened query nothing was closed yet. -/
theorem unclosed_openAt (levels : Nat) (query : Query)
    (fits : query.height ≤ levels) :
    (openAt levels query fits).tally.Unclosed := by
  induction levels generalizing query with
  | zero => exact absurd query.height_pos (Nat.not_lt.mpr fits)
  | succ levels ih =>
      cases query with
      | nothing => exact Tally.all_empty
      | listed listing => exact Tally.all_empty
      | term occurrences => exact Tally.all_empty
      | scripted name script occurrences =>
          refine ⟨nofun, nofun, fun postings member => ?_⟩
          rw [List.mem_singleton.mp member]
          rfl
      | probe name listing fault? =>
          refine ⟨fun probe member => ?_, nofun, nofun⟩
          rw [List.mem_singleton.mp member]
          rfl
      | proximity arrangement slop collects children =>
          refine Tally.all_concat fun tally member => ?_
          obtain ⟨tree, isTree, rfl⟩ := List.mem_map.mp member
          obtain ⟨child, isChild, rfl⟩ := List.mem_pmap.mp isTree
          exact ih _ _
      | union children =>
          refine Tally.all_concat fun tally member => ?_
          obtain ⟨tree, isTree, rfl⟩ := List.mem_map.mp member
          obtain ⟨child, isChild, rfl⟩ := List.mem_pmap.mp isTree
          exact ih _ _
      | without clash included excluded =>
          exact (ih included _).append (ih excluded _)
      | region low high anchor child => exact ih child _
      | metered name child =>
          exact Tally.All.append ⟨nofun, fun _ _ => trivial, nofun⟩ (ih child _)

end Query

/-! ## What closing leaves -/

namespace Level

variable {σ : Type} {opened emptied : σ → Prop}

/-- The level is closed, the postings of a term are emptied, and so below. -/
def Sealed (below : σ → Prop) : Level σ → Prop
  | .nothing leaf => leaf.standing = .closed
  | .listed leaf => leaf.standing = .closed
  | .term leaf => leaf.standing = .closed ∧ leaf.postings.documents = #[]
  | .scripted _ leaf =>
      leaf.standing = .closed ∧ leaf.postings.stored.documents = #[]
  | .probe leaf => leaf.standing = .closed
  | .proximity node =>
      node.standing = .closed ∧ Each (fun _ => below) node.alignment.cursors
  | .union node => node.standing = .closed ∧ Each (fun _ => below) node.children
  | .without node =>
      node.standing = .closed ∧ below node.included ∧ below node.excluded
  | .region node => node.standing = .closed ∧ below node.child
  | .metered node => below node.child

/-- To close a level that is open seals it. -/
theorem sealed_close [Cursor σ]
    (below : ∀ cursor : σ, opened cursor → emptied (Cursor.close cursor))
    {level : Level σ} (isOpen : level.IsOpen opened) :
    Sealed emptied (Cursor.close level) := by
  have unlessClosed : ∀ {τ : Type} {standing : Standing} {node closed : τ}
      (holds : τ → Prop), standing ≠ .closed → holds closed →
        holds (if standing = .closed then node else closed) := by
    intro τ standing node closed holds isOpen closes
    rwa [if_neg isOpen]
  have each : ∀ {size : Nat} {cursors : Vector σ size},
      Each (fun _ => opened) cursors →
        Each (fun _ => emptied) (cursors.map Cursor.close) := by
    intro size cursors isOpen child
    simpa using below _ (isOpen child)
  cases level with
  | nothing leaf => rfl
  | listed leaf => rfl
  | probe leaf => rfl
  | term leaf =>
      exact unlessClosed (fun leaf : Term StoredPostings =>
        leaf.standing = .closed ∧ leaf.postings.documents = #[])
        isOpen ⟨rfl, rfl⟩
  | scripted name leaf =>
      exact unlessClosed (fun leaf : Term ScriptedPostings =>
        leaf.standing = .closed ∧ leaf.postings.stored.documents = #[])
        isOpen ⟨rfl, rfl⟩
  | proximity node =>
      exact unlessClosed (fun node : Proximity σ _ => node.standing = .closed ∧
        Each (fun _ => emptied) node.alignment.cursors)
        isOpen.1 ⟨rfl, each isOpen.2⟩
  | union node =>
      exact unlessClosed (fun node : Union σ _ => node.standing = .closed ∧
        Each (fun _ => emptied) node.children)
        isOpen.1 ⟨rfl, each isOpen.2⟩
  | without node =>
      exact unlessClosed (fun node : Without σ => node.standing = .closed ∧
        emptied node.included ∧ emptied node.excluded)
        isOpen.1 ⟨rfl, below _ isOpen.2.1, below _ isOpen.2.2⟩
  | region node =>
      exact unlessClosed (fun node : Region σ =>
        node.standing = .closed ∧ emptied node.child)
        isOpen.1 ⟨rfl, below _ isOpen.2⟩
  | metered node => exact below _ isOpen

/-- To arm probes opens nothing. -/
theorem sealed_arm {name : String} {fault? : Option ProbeFault}
    {arms : σ → σ}
    (below : ∀ cursor : σ, emptied cursor → emptied (arms cursor))
    {level : Level σ} (isSealed : level.Sealed emptied) :
    (level.arm name fault? arms).Sealed emptied := by
  cases level with
  | nothing leaf => exact isSealed
  | listed leaf => exact isSealed
  | term leaf => exact isSealed
  | scripted name leaf => exact isSealed
  | probe leaf =>
      rw [arm, Probe.arm]
      split
      · exact isSealed
      · exact isSealed
  | proximity node =>
      refine ⟨isSealed.1, ?_⟩
      rw [Alignment.cursors_mapCursors]
      exact isSealed.2.map below
  | union node => exact ⟨isSealed.1, isSealed.2.map below⟩
  | without node =>
      exact ⟨isSealed.1, below _ isSealed.2.1, below _ isSealed.2.2⟩
  | region node => exact ⟨isSealed.1, below _ isSealed.2⟩
  | metered node => exact below _ isSealed

end Level

namespace Tree

/-- All of the tree is closed, and the postings of its terms are emptied. -/
def Sealed : {height : Nat} → Tree height → Prop
  | 0, tree => nomatch tree
  | _ + 1, level => Level.Sealed Sealed level

theorem sealed_close : {height : Nat} → {tree : Tree height} → tree.IsOpen →
    Sealed (Cursor.close tree)
  | 0, tree, _ => nomatch tree
  | _ + 1, _, isOpen =>
      Level.sealed_close (fun _ isOpen => sealed_close isOpen) isOpen

theorem sealed_arm (name : String) (fault? : Option ProbeFault) :
    {height : Nat} → {tree : Tree height} → tree.Sealed →
      (tree.arm name fault?).Sealed
  | 0, tree, _ => nomatch tree
  | _ + 1, _, isSealed =>
      Level.sealed_arm (fun _ isSealed => sealed_arm name fault? isSealed)
        isSealed

end Tree

/-! ## After closing -/

/-- The step is refused where there is nothing open to take it. -/
def Step.needsOpen : Step → Bool
  | .next => true
  | .seek _ => true
  | .payloads => true
  | .hasPayload => true
  | .current => true
  | .doc => true
  | .start => true
  | .stop => true
  | .take _ => false
  | .atEnd => false
  | .estimate => false
  | .describe => false
  | .tally => false
  | .arm _ _ => false
  | .close => false
  | .unwrap => false

namespace Session

variable {height : Nat} {root : Tree height} {detached : List MeterTally}

/-- A session whose root is closed refuses each step that needs it open. -/
theorem perform_closed (isClosed : Cursor.standing root = .closed)
    {step : Step} (needsOpen : step.needsOpen) :
    (perform ⟨root, detached⟩ step).1 = .error .closed := by
  have shut := root.shut isClosed
  have refused : ∀ move, (Cursor.go move root).1 = .error .closed := by
    intro move
    have met := shut.moves move
    cases went : Cursor.go move root with
    | mk outcome reached =>
        cases outcome with
        | ok span? => exact (met.of_ok went).elim
        | error failure => rw [(met.of_error went).1]
  have current : Cursor.current root = .error .closed := by
    rw [Cursor.current, isClosed]
    rfl
  cases step with
  | next => exact congrArg (Except.map Reply.span) (refused .next)
  | seek target =>
      simp only [perform, moving, Cursor.land_eq, refused, Except.map]
  | payloads => simp only [perform, shut.payloads, Except.map]
  | hasPayload =>
      simp only [perform, Cursor.hasPayload, shut.payloads, Except.map]
  | current => simp only [perform, current, Except.map]
  | doc =>
      simp only [perform, Cursor.doc, isClosed, Standing.doc, Except.map]
  | start => simp only [perform, Cursor.start, current, Except.map]
  | stop => simp only [perform, Cursor.stop, current, Except.map]
  | take limit => cases needsOpen
  | atEnd => cases needsOpen
  | estimate => cases needsOpen
  | describe => cases needsOpen
  | tally => cases needsOpen
  | arm name fault? => cases needsOpen
  | close => cases needsOpen
  | unwrap => cases needsOpen

end Session

namespace Tree

variable {height : Nat} {tree reached : Tree height}

/-- What holds of a node until it is closed. -/
structure InUse (tree reached : Tree height) : Prop where
  isNode : reached.IsNode
  lasts : tree.Lasts reached

theorem InUse.go (inUse : tree.InUse reached) (move : Move) :
    tree.InUse (Cursor.go move reached).2 :=
  ⟨isNode_go inUse.isNode move, inUse.lasts.trans (lasts_go reached move)⟩

theorem InUse.arm (inUse : tree.InUse reached) (name : String)
    (fault? : Option ProbeFault) : tree.InUse (reached.arm name fault?) :=
  ⟨isNode_arm inUse.isNode name fault?,
    inUse.lasts.trans (lasts_arm reached name fault?)⟩

/-- What holds of a node from its first closing on. -/
structure Final (closed reached : Tree height) : Prop where
  isNode : reached.IsNode
  isSealed : reached.Sealed
  standing : Cursor.standing reached = .closed
  tally : reached.tally = closed.tally
  estimate : Cursor.estimate reached = Cursor.estimate closed

theorem final_close (isNode : tree.IsNode) (isOpen : tree.IsOpen) :
    (Cursor.close tree).Final (Cursor.close tree) :=
  ⟨isNode_close isNode, sealed_close isOpen, standing_close tree, rfl, rfl⟩

theorem Final.go (final : tree.Final reached) (move : Move) :
    tree.Final (Cursor.go move reached).2 := by
  rw [go_closed final.isNode final.standing]
  exact final

theorem Final.close (final : tree.Final reached) :
    tree.Final (Cursor.close reached) := by
  rw [close_closed final.isNode final.standing]
  exact final

theorem Final.arm (final : tree.Final reached) (name : String)
    (fault? : Option ProbeFault) : tree.Final (reached.arm name fault?) :=
  have armed := armed_arm name fault? reached
  ⟨isNode_arm final.isNode name fault?,
    sealed_arm name fault? final.isSealed, armed.standing.trans final.standing,
    armed.tally.trans final.tally, armed.estimate.trans final.estimate⟩

end Tree

namespace Session

variable {height : Nat} {tree root : Tree height} {detached : List MeterTally}

theorem after_append (session : Session) (steps later : List Step) :
    session.after (steps ++ later) = (session.after steps).after later :=
  List.foldl_append

/-- Steps other than closing leave a node in use. -/
theorem exists_after_inUse {steps : List Step} (open_ : .close ∉ steps)
    (inUse : tree.InUse root) :
    ∃ reached, after ⟨root, detached⟩ steps = ⟨reached, detached⟩ ∧
      tree.InUse reached :=
  exists_after (fun _ inUse => inUse.isNode) (fun _ inUse => inUse.go)
    (fun _ inUse => inUse.arm) (fun closes => absurd closes open_) inUse

/-- No step changes a closed node so that it could be seen. -/
theorem exists_after_final (steps : List Step) (final : tree.Final root) :
    ∃ reached, after ⟨root, detached⟩ steps = ⟨reached, detached⟩ ∧
      tree.Final reached :=
  exists_after (fun _ final => final.isNode) (fun _ final => final.go)
    (fun _ final => final.arm) (fun _ _ final => final.close) final

/-- Only arming probes changes anything of a closed node. -/
theorem perform_final (final : tree.Final root) {step : Step}
    (arms : ∀ name fault?, step ≠ .arm name fault?) :
    (perform ⟨root, detached⟩ step).2 = ⟨root, detached⟩ := by
  have stays := Tree.go_closed final.isNode final.standing
  cases step with
  | next =>
      simpa [perform, moving, Cursor.go] using congrArg Prod.snd (stays .next)
  | seek target => simp only [perform, moving, Cursor.land_eq, stays]
  | take limit =>
      have kept : (Cursor.take limit root).2 = root :=
        @Cursor.holds_take _ _ (· = root)
          (fun _ same => same ▸ congrArg Prod.snd (stays .next)) limit root rfl
      simp only [perform, kept]
  | payloads => rfl
  | hasPayload => rfl
  | current => rfl
  | doc => rfl
  | start => rfl
  | stop => rfl
  | atEnd => rfl
  | estimate => rfl
  | describe => rfl
  | tally => rfl
  | arm name fault? => exact absurd rfl (arms name fault?)
  | close =>
      simp only [perform, Tree.close_closed final.isNode final.standing]
  | unwrap => exact unwrap_eq final.isNode

end Session

namespace Query

/--
However a node was used before it is closed, with whatever faults: to close it
closes each probe and all scripted postings below it once.  All that is below
it is closed then and the postings of each term are emptied.  Afterwards
nothing that is done with it reaches what is below it, closing it again
included, but for arming probes; it stands closed, refuses what needs it open,
and its estimate is that of the query.
-/
theorem closes_once {query : Query} (isNode : query.isNode)
    {before : List Step} (open_ : .close ∉ before) (later : List Step) :
    let opened := Session.ofQuery query
    let closed := opened.after (before ++ [.close])
    let reached := closed.after later
    (∀ probe ∈ reached.tally.probes, probe.closes = 1) ∧
    (∀ postings ∈ reached.tally.postings, postings.calls.close = 1) ∧
    reached.root.Sealed ∧
    reached.tally.probes.map ProbeTally.name =
      opened.tally.probes.map ProbeTally.name ∧
    reached.tally.postings.map PostingsTally.name =
      opened.tally.postings.map PostingsTally.name ∧
    reached.tally = closed.tally ∧
    (∀ step : Step, (∀ name fault?, step ≠ .arm name fault?) →
      (reached.perform step).2 = reached) ∧
    reached.standing = .closed ∧
    (∀ step : Step, step.needsOpen →
      (reached.perform step).1 = .error .closed) ∧
    reached.estimate = opened.estimate := by
  intro opened closed reached
  have isOpen : query.openTree.IsOpen :=
    isOpen_openAt query.height query (Nat.le_refl _)
  have unclosed : query.openTree.tally.Unclosed :=
    unclosed_openAt query.height query (Nat.le_refl _)
  have started : query.openTree.InUse query.openTree :=
    ⟨isNode_openAt isNode _ _, Cursor.Lasts.refl _⟩
  -- Until it is closed the tree is open and nothing in it is closed.
  obtain ⟨last, isLast, inUse⟩ : ∃ last,
      opened.after before = ⟨last, []⟩ ∧ query.openTree.InUse last :=
    Session.exists_after_inUse open_ started
  have isClosed : closed = ⟨Cursor.close last, []⟩ := by
    rw [show closed = _ from Session.after_append .., isLast]
    rfl
  have once := Tree.closings_close (inUse.lasts.isOpen isOpen)
  rw [inUse.lasts.closings] at once
  -- From then on the tree is the closed one as far as it can be seen.
  obtain ⟨root, isRoot, final⟩ : ∃ root,
      reached = ⟨root, []⟩ ∧ (Cursor.close last).Final root := by
    rw [show reached = closed.after later from rfl, isClosed]
    exact Session.exists_after_final later
      (Tree.final_close inUse.isNode (inUse.lasts.isOpen isOpen))
  rw [isRoot, isClosed]
  have tally_eq : ∀ {height : Nat} (tree : Tree height),
      Session.tally ⟨tree, []⟩ = tree.tally := fun tree => rfl
  have refuses : ∀ step : Step, step.needsOpen →
      (Session.perform ⟨root, []⟩ step).1 = .error .closed :=
    fun _ => Session.perform_closed final.standing
  have stays : ∀ step : Step, (∀ name fault?, step ≠ .arm name fault?) →
      (Session.perform ⟨root, []⟩ step).2 = ⟨root, []⟩ :=
    fun _ => Session.perform_final final
  rw [tally_eq, tally_eq, final.tally]
  obtain ⟨ofProbes, ofPostings⟩ := Tally.closes_eq_one unclosed once
  obtain ⟨probes, postings⟩ := Tally.names_eq once
  exact ⟨ofProbes, ofPostings, final.isSealed, probes, postings, rfl, stays,
    final.standing, refuses,
    final.estimate.trans (last.estimate_close.trans inUse.lasts.estimate)⟩

/-- A probe beside a term whose second document cannot be read at first. -/
def interrupted : Query :=
  .union [
    .probe "probe" ⟨#[⟨.ofToken 4 1, none⟩], trivial⟩ none,
    .metered "meter" (.scripted "postings"
      ⟨[⟨.nextDocument, 2, ⟨.other, "torn page"⟩⟩], [], none⟩
      [⟨2, 0, none⟩, ⟨5, 0, none⟩])]

/-- Closed twice after a fault, the leaves have been closed once. -/
theorem interrupted_closes_once :
    interrupted.isNode ∧ .close ∉ [Step.next, .next, .next] ∧
      ((Session.ofQuery interrupted).performAll [.next, .next]).1.map
          Answer.outcome =
        [.ok (.span (some (.ofToken 2 0))),
          .error (.unreadable ⟨.other, "torn page"⟩)] ∧
      ∃ reached : Session,
        reached = ((Session.ofQuery interrupted).after
          ([.next, .next, .next] ++ [.close])).after [.next, .close] ∧
        reached.tally.probes.map ProbeTally.name = ["probe"] ∧
        (∀ probe ∈ reached.tally.probes, probe.closes = 1) ∧
        reached.tally.postings.map PostingsTally.name = ["postings"] ∧
        (∀ postings ∈ reached.tally.postings, postings.calls.close = 1) ∧
        reached.root.Sealed ∧
        (reached.perform .next).1 = .error .closed ∧
        reached.estimate = (Session.ofQuery interrupted).estimate := by
  have open_ : .close ∉ [Step.next, .next, .next] := by simp
  have failed : ((Session.ofQuery interrupted).performAll [.next, .next]).1.map
      Answer.outcome =
        [.ok (.span (some (.ofToken 2 0))),
          .error (.unreadable ⟨.other, "torn page"⟩)] := by
    cbv
  have isNode : interrupted.isNode := rfl
  obtain ⟨ofProbes, ofPostings, isSealed, probes, postings, _, _, _, refuses,
    estimate⟩ := closes_once isNode open_ [.next, .close]
  exact ⟨isNode, open_, failed, _, rfl, probes, ofProbes, postings, ofPostings,
    isSealed, refuses .next rfl, estimate⟩

end Query

end PositionalSearch
