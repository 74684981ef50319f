import PositionalSearch.Inspection
import PositionalSearch.Proofs.Order.Lineup

/-!
# Proximity nodes are disciplined

Only a match beyond the last one is answered, so the order of matches needs
nothing of the children but that they go on in order themselves.  A match is
read off heads that are together in its document, unless the node stood in
that document with a child that an earlier failure had taken out of it.
-/

namespace PositionalSearch

open Cursor (Disciplined Orderly Advances)

variable {ι σ : Type} {size : Nat} {keeps : Option Span → σ → Prop}

/-! ## Children before their first spans -/

namespace Gathering

variable {gathering : Gathering σ size}

/-- The spans found are the last ones of their children. -/
structure Kept (keeps : Option Span → σ → Prop)
    (gathering : Gathering σ size) : Prop where
  placed : ∀ child : Fin size,
    keeps gathering.found[child] gathering.cursors[child]
  all : ∀ child, child ∈ gathering.order

/-- Some child has not answered its first span, if there is a child. -/
def Unfinished (gathering : Gathering σ size) : Prop :=
  0 < size → ∃ child : Fin size, gathering.found[child] = none

/-- Children were placed from a document on; those placed before stay. -/
structure Placed (target? : Option DocId) (children : List (Fin size))
    (gathering reached : Gathering σ size) : Prop where
  found : ∀ child ∈ children, ∃ span,
    reached.found[child] = some span ∧
      (gathering.found[child] = none →
        ∀ target ∈ target?, target ≤ span.doc)
  stays : ∀ (child : Fin size) (span : Span), gathering.found[child] = some span →
    reached.found[child] = some span

theorem Kept.entered (kept : Kept keeps gathering) {child : Fin size}
    {cursor : σ} {span : Span} (placed : keeps (some span) cursor) :
    Kept keeps { gathering with
      cursors := gathering.cursors.set child cursor child.isLt
      found := gathering.found.set child (some span) child.isLt } := by
  refine ⟨fun other => ?_, kept.all⟩
  simp only [Lineup.getElem_set_fin]
  split
  · exact placed
  · exact kept.placed other

theorem Kept.refused (kept : Kept keeps gathering) {child : Fin size}
    {cursor : σ} (placed : keeps gathering.found[child] cursor) :
    Kept keeps { gathering with
      cursors := gathering.cursors.set child cursor child.isLt } := by
  refine ⟨fun other => ?_, kept.all⟩
  simp only [Lineup.getElem_set_fin]
  split
  · rename_i same
    exact same ▸ placed
  · exact kept.placed other

variable [Cursor σ] {disturb : ι → σ → σ}

theorem meets_enter (below : Disciplined disturb keeps)
    (kept : Kept keeps gathering) (target? : Option DocId) {child : Fin size}
    (waits : gathering.found[child] = none) :
    (enter target? child).Meets gathering
      (fun span? reached => ∀ span ∈ span?, Kept keeps reached ∧
        reached.found = gathering.found.set child (some span) child.isLt ∧
          ∀ target ∈ target?, target ≤ span.doc)
      (fun _ reached => Kept keeps reached ∧
        reached.found = gathering.found) := by
  have last := kept.placed child
  rw [waits] at last
  have entered : (Cursor.enter target? : Attempt Failure σ _).Meets
      gathering.cursors[child] (Advances keeps none target?)
      (fun _ reached => keeps none reached) := by
    cases target? with
    | none => exact below.moves last .next
    | some target => exact below.moves last (.seek target)
  simp only [Attempt.Meets, Attempt.run, enter] at entered ⊢
  cases outcome : Cursor.enter target? gathering.cursors[child] with
  | mk result cursor =>
      rw [outcome] at entered
      cases result with
      | error failure => exact ⟨kept.refused (waits ▸ entered), rfl⟩
      | ok span? =>
          cases span? with
          | none => simp
          | some span =>
              obtain ⟨_, floor, _, placed⟩ := entered
              rintro _ ⟨rfl⟩
              exact ⟨kept.entered placed, rfl, floor⟩

theorem meets_placeAll (below : Disciplined disturb keeps)
    (kept : Kept keeps gathering) (target? : Option DocId)
    (children : List (Fin size)) :
    (placeAll target? children).Meets gathering
      (fun all reached => all = true → Kept keeps reached ∧
        Placed target? children gathering reached)
      (fun _ reached => Kept keeps reached ∧ Unfinished reached) := by
  induction children generalizing gathering with
  | nil =>
      exact fun _ => ⟨kept, fun _ member => absurd member List.not_mem_nil,
        fun _ _ found => found⟩
  | cons child rest ih =>
      simp only [placeAll, Attempt.meets_bind, Attempt.meets_look]
      cases placed : gathering.found[child] with
      | some span =>
          apply (ih kept).imp_answer
          intro all reached answered isAll
          obtain ⟨keptOn, placedAll⟩ := answered isAll
          refine ⟨keptOn, fun other member => ?_, placedAll.stays⟩
          rcases List.mem_cons.mp member with rfl | later
          · refine ⟨span, placedAll.stays other span placed, fun waits => ?_⟩
            rw [placed] at waits
            cases waits
          · exact placedAll.found other later
      | none =>
          simp only [Attempt.meets_bind]
          refine (meets_enter below kept target? placed).mono ?_ ?_
          · intro span? middle entered
            cases span? with
            | none => simp
            | some span =>
                obtain ⟨keptOn, found, floor⟩ := entered span rfl
                have foundAt : ∀ other, middle.found[other] =
                    if child = other then some span
                    else gathering.found[other] := fun other => by
                  rw [found, Lineup.getElem_set_fin]
                apply (ih keptOn).imp_answer
                intro all reached answered isAll
                obtain ⟨keptLast, placedAll⟩ := answered isAll
                refine ⟨keptLast, fun other member => ?_,
                  fun other earlier was => ?_⟩
                · by_cases same : child = other
                  · subst same
                    refine ⟨span, placedAll.stays child span ?_,
                      fun _ => floor⟩
                    rw [foundAt, if_pos rfl]
                  · obtain ⟨later, isLater, floored⟩ := placedAll.found other
                      ((List.mem_cons.mp member).resolve_left (Ne.symm same))
                    refine ⟨later, isLater, fun waits => floored ?_⟩
                    rw [foundAt, if_neg same, waits]
                · refine placedAll.stays other earlier ?_
                  rw [foundAt, if_neg ?_, was]
                  rintro rfl
                  rw [placed] at was
                  cases was
          · rintro _ reached ⟨keptOn, found⟩
            exact ⟨keptOn, fun _ => ⟨child, by rw [found, placed]⟩⟩

omit [Cursor σ] in
/-- Once each child has its first span, the children are a lineup. -/
theorem lineup?_eq_some
    (found : ∀ child : Fin size, ∃ span, gathering.found[child] = some span) :
    ∃ lineup, gathering.lineup? = some lineup ∧
      lineup.cursors = gathering.cursors ∧ lineup.order = gathering.order ∧
        ∀ child : Fin size,
          gathering.found[child] = some lineup.heads[child] := by
  have placed : ∀ child : Fin size, gathering.found[child].isSome :=
    fun child => by
      obtain ⟨span, isSpan⟩ := found child
      rw [isSpan]
      rfl
  refine ⟨_, by rw [lineup?, dif_pos placed], rfl, rfl, fun child => ?_⟩
  simp

end Gathering

/-! ## Children on the way -/

namespace Alignment

/-- The children are kept, unless one of them has no more spans. -/
def Kept (keeps : Option Span → σ → Prop) : Alignment σ size → Prop
  | .starting gathering => gathering.Kept keeps ∧ gathering.Unfinished
  | .running lineup => lineup.Kept keeps ∧ ∀ child, child ∈ lineup.order
  | .ended _ => True

/-- No head is in an earlier document. -/
def Since (doc : DocId) : Alignment σ size → Prop
  | .starting _ => False
  | .running lineup => lineup.Since doc
  | .ended _ => True

/-- Work on a lineup goes on with it, or ends it. -/
theorem meets_onLineup {α : Type} {lineup : Lineup σ size}
    {work : Attempt Failure (Lineup σ size) (Option α)}
    {answered : Option α → Lineup σ size → Prop}
    {failed : Failure → Lineup σ size → Prop}
    (meets : work.Meets lineup answered failed) :
    (onLineup work).Meets (.running lineup)
      (fun value? reached =>
        (value? = none ∧ ∃ further, reached = .ended further.cursors ∧
          answered none further) ∨
          ∃ value further, value? = some value ∧
            reached = .running further ∧ answered (some value) further)
      (fun failure reached => ∃ further, reached = .running further ∧
        failed failure further) := by
  simp only [Attempt.Meets, Attempt.run, onLineup] at meets ⊢
  cases outcome : work lineup with
  | mk result further =>
      rw [outcome] at meets
      cases result with
      | error failure => exact ⟨further, rfl, meets⟩
      | ok value? =>
          cases value? with
          | none => exact .inl ⟨rfl, further, rfl, meets⟩
          | some value => exact .inr ⟨value, further, rfl, rfl, meets⟩

variable [Cursor σ] {disturb : ι → σ → σ}

theorem meets_start (below : Disciplined disturb keeps)
    {gathering : Gathering σ size} (kept : gathering.Kept keeps)
    (unfinished : gathering.Unfinished) (target? : Option DocId) :
    (Alignment.start target?).Meets (.starting gathering)
      (fun doc? reached => Kept keeps reached ∧
        ∀ doc ∈ doc?, ∃ lineup, reached = .running lineup ∧
          lineup.Together doc ∧
            (0 < size → ∀ target ∈ target?, target ≤ doc))
      (fun _ reached => Kept keeps reached) := by
  have placing := Gathering.meets_placeAll below kept target? gathering.order
  simp only [Attempt.Meets, Attempt.run, start] at placing ⊢
  cases outcome : Gathering.placeAll target? gathering.order gathering with
  | mk result placed =>
      rw [outcome] at placing
      cases result with
      | error failure => exact placing
      | ok all =>
          cases all with
          | false => exact ⟨trivial, by simp⟩
          | true =>
              obtain ⟨keptOn, placedAll⟩ := placing rfl
              obtain ⟨lineup, isLineup, cursors, order, heads⟩ :=
                Gathering.lineup?_eq_some fun child => by
                  obtain ⟨span, isSpan, _⟩ :=
                    placedAll.found child (kept.all child)
                  exact ⟨span, isSpan⟩
              have lined : lineup.Kept keeps := fun child => by
                rw [← heads, cursors]
                exact keptOn.placed child
              have inOrder : ∀ child, child ∈ lineup.order := fun child => by
                rw [order]
                exact keptOn.all child
              have aligning := Lineup.meets_align below lined inOrder
              simp only [isLineup, ofLineup, Attempt.Meets, Attempt.run]
                at aligning ⊢
              cases aligned : Lineup.align lineup with
              | mk result reached =>
                  rw [aligned] at aligning
                  cases result with
                  | error failure =>
                      exact ⟨aligning.kept, fun child =>
                        aligning.order ▸ inOrder child⟩
                  | ok doc? =>
                      cases doc? with
                      | none => exact ⟨trivial, by simp⟩
                      | some doc =>
                          obtain ⟨onward, together⟩ := aligning
                          refine ⟨⟨onward.kept, fun child =>
                            onward.order ▸ inOrder child⟩, ?_⟩
                          rintro _ ⟨rfl⟩
                          refine ⟨reached, rfl, together doc rfl,
                            fun filled target isTarget => ?_⟩
                          obtain ⟨child, waits⟩ := unfinished filled
                          obtain ⟨span, isSpan, floor⟩ :=
                            placedAll.found child (kept.all child)
                          rw [heads child, Option.some.injEq] at isSpan
                          have landed := floor waits target isTarget
                          have after := Span.doc_le_of_le
                            (onward.heads child)
                          rw [together doc rfl child, isSpan] at after
                          exact UInt64.le_trans landed after

end Alignment

/-! ## The node -/

namespace Proximity

/-- Disturb all children. -/
def disturbed (disturb : ι → σ → σ) (event : ι) (node : Proximity σ size) :
    Proximity σ size :=
  { node with alignment := node.alignment.mapCursors (disturb event) }

/-- Where the node stands, given the span it answered last. -/
def StandsAt (last? : Option Span) (node : Proximity σ size) : Prop :=
  match node.standing with
  | .unstarted => last? = none
  | .on span => last? = some span ∧ node.alignment.Since span.doc
  | .atDocument _ => False
  | .exhausted => True
  | .closed => True

/-- What a proximity node keeps between moves, failed ones included. -/
structure Keeps (keeps : Option Span → σ → Prop) (arrangement : Arrangement)
    (slop : Nat) (last? : Option Span) (node : Proximity σ size) : Prop where
  alignment : node.alignment.Kept keeps
  stands : StandsAt last? node
  arrangement : node.arrangement = arrangement
  slop : node.slop = slop

/--
Heads ready for a search in a document: they are together there, or the node
stood there before, they stay where they were, and the child that moved on is
still there.
-/
structure Primed (keeps : Option Span → σ → Prop)
    (origin : Proximity σ size) (doc : DocId) (lineup : Lineup σ size) :
    Prop where
  kept : lineup.Kept keeps
  all : ∀ child, child ∈ lineup.order
  since : lineup.Since doc
  live : ∀ cursors, origin.alignment ≠ .ended cursors
  onward : ∀ before, origin.alignment = .running before →
    before.Onward keeps lineup
  gathered : lineup.Together doc ∨ ∃ before span,
    origin.alignment = .running before ∧ origin.standing = .on span ∧
      span.doc = doc ∧ before.Stays doc lineup ∧
        ∀ pivot ∈ origin.pivot?, lineup.heads[pivot].doc = doc

/-- What a node answers is read off heads that were ready for the search. -/
def Answered (keeps : Option Span → σ → Prop) (arrangement : Arrangement)
    (slop : Nat) (last? : Option Span) (floor? : Option DocId)
    [Cursor σ] (origin : Proximity σ size) (span? : Option Span)
    (reached : Proximity σ size) : Prop :=
  Advances (Keeps keeps arrangement slop) last? floor? span? reached ∧
    ∀ span ∈ span?, ∃ lineup pivot, reached.alignment = .running lineup ∧
      Primed keeps origin span.doc lineup ∧
        Lineup.Fits arrangement slop lineup.heads ⟨pivot, span⟩

variable {arrangement : Arrangement} {slop : Nat} {last? : Option Span}
  {floor? : Option DocId} {node origin : Proximity σ size}

/-- A search that finds a match leaves the heads ready where it found it. -/
theorem Primed.search {doc : DocId} {lineup reached : Lineup σ size}
    (primed : Primed keeps origin doc lineup) {found : Match size}
    (onward : lineup.Onward keeps reached)
    (landed : found.span.doc = doc ∧ lineup.Stays doc reached ∨
      doc < found.span.doc ∧ reached.Together found.span.doc) :
    Primed keeps origin found.span.doc reached := by
  refine ⟨onward.kept, fun child => onward.order ▸ primed.all child, ?_,
    primed.live,
    fun before running => (primed.onward before running).trans onward, ?_⟩
  · rcases landed with ⟨rfl, _⟩ | ⟨_, together⟩
    · exact onward.since primed.since
    · exact together.since
  · rcases landed with ⟨rfl, stays⟩ | ⟨_, together⟩
    · rcases primed.gathered with
        together | ⟨before, span, running, stands, same, stayed, inside⟩
      · exact .inl fun child => stays child (together child)
      · exact .inr ⟨before, span, running, stands, same, stayed.trans stays,
          fun pivot isPivot => stays pivot (inside pivot isPivot)⟩
    · exact .inl together

/-- The heads moved on, and the node stands where it did. -/
theorem Keeps.realigned (kept : Keeps keeps arrangement slop last? node)
    {lineup further : Lineup σ size} (running : node.alignment = .running lineup)
    (onward : lineup.Onward keeps further) :
    Keeps keeps arrangement slop last?
      { node with alignment := .running further } := by
  have alignment := kept.alignment
  rw [running] at alignment
  refine ⟨⟨onward.kept, fun child => onward.order ▸ alignment.2 child⟩, ?_,
    kept.arrangement, kept.slop⟩
  have stands := kept.stands
  unfold StandsAt at stands ⊢
  cases standing : node.standing with
  | on span =>
      simp only [standing, running] at stands ⊢
      exact ⟨stands.1, onward.since stands.2⟩
  | unstarted => simpa only [standing] using stands
  | atDocument doc => simp only [standing] at stands
  | exhausted => trivial
  | closed => trivial

/-- The alignment is over, and the node stands where it did. -/
theorem Keeps.over (kept : Keeps keeps arrangement slop last? node)
    (cursors : Vector σ size) :
    Keeps keeps arrangement slop last?
      { node with alignment := .ended cursors } := by
  refine ⟨trivial, ?_, kept.arrangement, kept.slop⟩
  have stands := kept.stands
  unfold StandsAt at stands ⊢
  cases standing : node.standing with
  | on span =>
      simp only [standing] at stands ⊢
      exact ⟨stands.1, trivial⟩
  | unstarted => simpa only [standing] using stands
  | atDocument doc => simp only [standing] at stands
  | exhausted => trivial
  | closed => trivial

/-- Without a first match the last span is none, with one it is the current. -/
theorem Keeps.span?_eq (kept : Keeps keeps arrangement slop last? node)
    (goes : node.standing.planNext = .ok true) :
    node.standing.span? = last? := by
  have stands := kept.stands
  unfold StandsAt at stands
  cases standing : node.standing with
  | unstarted =>
      simp only [standing] at stands
      exact stands.symm
  | on span =>
      simp only [standing] at stands
      exact stands.1.symm
  | atDocument doc => simp only [standing] at stands
  | exhausted =>
      rw [standing] at goes
      cases goes
  | closed =>
      rw [standing] at goes
      cases goes

/-- Children that were never placed leave the node where it is. -/
theorem Keeps.started (kept : Keeps keeps arrangement slop last? node)
    {gathering : Gathering σ size}
    (starting : node.alignment = .starting gathering)
    {alignment : Alignment σ size} (keptOn : alignment.Kept keeps) :
    Keeps keeps arrangement slop last?
      { node with alignment := alignment } := by
  refine ⟨keptOn, ?_, kept.arrangement, kept.slop⟩
  have stands := kept.stands
  unfold StandsAt at stands ⊢
  cases standing : node.standing with
  | on span =>
      simp only [standing, starting] at stands
      exact stands.2.elim
  | unstarted => simpa only [standing] using stands
  | atDocument doc => simp only [standing] at stands
  | exhausted => trivial
  | closed => trivial

variable [Cursor σ] {disturb : ι → σ → σ}

theorem meets_finish (kept : Keeps keeps arrangement slop last? node) :
    finish.Meets node
      (Answered keeps arrangement slop last? floor? origin)
      (fun _ reached => Keeps keeps arrangement slop last? reached) := by
  simp only [finish, Attempt.meets_bind, Attempt.meets_update,
    Attempt.meets_pure]
  exact ⟨⟨rfl, kept.alignment, trivial, kept.arrangement, kept.slop⟩,
    by simp⟩

/-- Collecting payloads changes the payloads only. -/
theorem meets_collect :
    collect.Meets node
      (fun _ reached => ∃ payloads,
        reached = { node with payloads := payloads })
      (fun _ reached => ∃ payloads,
        reached = { node with payloads := payloads }) := by
  simp only [collect, Attempt.meets_bind, Attempt.meets_update,
    Attempt.meets_look]
  split
  · rw [Attempt.meets_within]
    cases outcome : collectFrom node.children [] with
    | mk result payloads =>
        cases result with
        | error failure =>
            exact (Attempt.meets_of_error outcome).mpr ⟨payloads, rfl⟩
        | ok _ => exact (Attempt.meets_of_ok outcome).mpr ⟨payloads, rfl⟩
  · exact ⟨[], rfl⟩

/-- A search answers a match beyond the last one, in the document or later. -/
theorem meets_searchFrom (below : Disciplined disturb keeps)
    (kept : Keeps keeps arrangement slop last? node)
    (last : node.standing.span? = last?) {doc : DocId}
    {lineup : Lineup σ size} (running : node.alignment = .running lineup)
    (primed : Primed keeps origin doc lineup)
    (floor : ∀ floor ∈ floor?, 0 < size → floor ≤ doc) :
    (searchFrom doc).Meets node
      (Answered keeps arrangement slop last? floor? origin)
      (fun _ reached => Keeps keeps arrangement slop last? reached) := by
  simp only [searchFrom, aligning, Attempt.meets_bind, Attempt.meets_look,
    Attempt.meets_within, running]
  refine (Alignment.meets_onLineup (Lineup.meets_search below primed.kept
    primed.all node.arrangement node.slop node.standing.span? doc)).mono ?_ ?_
  · rintro found? _ (⟨rfl, further, rfl, _⟩ | ⟨found, further, rfl, rfl,
      onward, isFound⟩)
    · exact meets_finish (kept.over further.cursors)
    · obtain ⟨isMatch, landed⟩ := isFound found rfl
      have realigned := kept.realigned running onward
      simp only [Attempt.meets_bind, Attempt.meets_update,
        Attempt.meets_pure]
      refine meets_collect.mono ?_ ?_
      · rintro _ _ ⟨payloads, rfl⟩
        have primedOn := primed.search onward landed
        obtain ⟨filled, _⟩ := isMatch.fits
        refine ⟨⟨?_, fun target isTarget => ?_, rfl, realigned.alignment,
          ⟨rfl, primedOn.since⟩, kept.arrangement, kept.slop⟩, ?_⟩
        · rintro span isLast
          have fresh := isMatch.isNew
          rw [last, Option.mem_def.mp isLast] at fresh
          simpa [isNew] using fresh
        · refine UInt64.le_trans (floor target isTarget filled) ?_
          rcases landed with ⟨same, _⟩ | ⟨after, _⟩
          · exact UInt64.le_of_eq same.symm
          · exact UInt64.le_of_lt after
        · rintro _ ⟨rfl⟩
          exact ⟨further, found.pivot, rfl, primedOn,
            kept.arrangement ▸ kept.slop ▸ isMatch.fits⟩
      · rintro _ _ ⟨payloads, rfl⟩
        exact ⟨realigned.alignment, realigned.stands, kept.arrangement,
          kept.slop⟩
  · rintro _ _ ⟨further, rfl, onward⟩
    exact kept.realigned running onward

/-- The node with its children ready for a search in the given document. -/
def Resumed (keeps : Option Span → σ → Prop) (arrangement : Arrangement)
    (slop : Nat) (last? : Option Span) (node : Proximity σ size)
    (doc? : Option DocId) (reached : Proximity σ size) : Prop :=
  Keeps keeps arrangement slop last? reached ∧
    reached.standing = node.standing ∧
      ∀ doc ∈ doc?, ∃ lineup, reached.alignment = .running lineup ∧
        Primed keeps node doc lineup

theorem meets_settle (below : Disciplined disturb keeps)
    {reached : Proximity σ size} {doc? : Option DocId}
    (resumed : Resumed keeps arrangement slop last? node doc? reached)
    (last : node.standing.span? = last?)
    (floor : ∀ doc ∈ doc?, ∀ floor ∈ floor?, 0 < size → floor ≤ doc) :
    (settle doc?).Meets reached
      (Answered keeps arrangement slop last? floor? node)
      (fun _ reached => Keeps keeps arrangement slop last? reached) := by
  obtain ⟨kept, stands, ready⟩ := resumed
  cases doc? with
  | none => exact meets_finish kept
  | some doc =>
      obtain ⟨lineup, running, primed⟩ := ready doc rfl
      exact meets_searchFrom below kept (stands ▸ last) running primed
        (floor doc rfl)

/-- The first placement readies the children for a search. -/
theorem meets_starting (below : Disciplined disturb keeps)
    (kept : Keeps keeps arrangement slop last? node)
    {gathering : Gathering σ size}
    (starting : node.alignment = .starting gathering)
    (target? : Option DocId) :
    (aligning (Alignment.start target?)).Meets node
      (fun doc? reached =>
        Resumed keeps arrangement slop last? node doc? reached ∧
          ∀ doc ∈ doc?, ∀ target ∈ target?, 0 < size → target ≤ doc)
      (fun _ reached => Keeps keeps arrangement slop last? reached) := by
  have alignment := kept.alignment
  rw [starting] at alignment
  simp only [aligning, Attempt.meets_within, starting]
  refine (Alignment.meets_start below alignment.1 alignment.2 target?).mono
    ?_ ?_
  · rintro doc? reached ⟨keptOn, ready⟩
    refine ⟨⟨kept.started starting keptOn, rfl, fun doc isDoc => ?_⟩,
      fun doc isDoc target isTarget filled => ?_⟩
    · obtain ⟨lineup, rfl, together, _⟩ := ready doc isDoc
      refine ⟨lineup, rfl, keptOn.1, keptOn.2, together.since,
        fun cursors isOver => ?_, fun before running => ?_, .inl together⟩
      · rw [starting] at isOver
        cases isOver
      · rw [starting] at running
        cases running
    · obtain ⟨_, _, _, floor⟩ := ready doc isDoc
      exact floor filled target isTarget
  · exact fun _ reached keptOn => kept.started starting keptOn

omit [Cursor σ] in
/-- Work on the running children readies them for a search, or ends it. -/
theorem meets_running (kept : Keeps keeps arrangement slop last? node)
    {lineup : Lineup σ size} (running : node.alignment = .running lineup)
    {work : Attempt Failure (Lineup σ size) (Option DocId)}
    {ready : DocId → Lineup σ size → Prop}
    (meets : work.Meets lineup
      (fun doc? reached => lineup.Onward keeps reached ∧
        ∀ doc ∈ doc?, ready doc reached)
      (fun _ reached => lineup.Onward keeps reached))
    (primes : ∀ doc reached, lineup.Onward keeps reached →
      ready doc reached → reached.Since doc ∧ (reached.Together doc ∨
        ∃ span, node.standing = .on span ∧ span.doc = doc ∧
          lineup.Stays doc reached ∧
            ∀ pivot ∈ node.pivot?, reached.heads[pivot].doc = doc)) :
    (aligning (Alignment.onLineup work)).Meets node
      (fun doc? reached =>
        Resumed keeps arrangement slop last? node doc? reached ∧
          ∀ doc ∈ doc?, ∃ further, ready doc further)
      (fun _ reached => Keeps keeps arrangement slop last? reached) := by
  have alignment := kept.alignment
  rw [running] at alignment
  simp only [aligning, Attempt.meets_within, running]
  refine (Alignment.meets_onLineup meets).mono ?_ ?_
  · rintro doc? _ (⟨rfl, further, rfl, _⟩ | ⟨doc, further, rfl, rfl, onward,
      isReady⟩)
    · exact ⟨⟨kept.over further.cursors, rfl, by simp⟩, by simp⟩
    · refine ⟨⟨kept.realigned running onward, rfl, ?_⟩, ?_⟩
      · rintro _ ⟨rfl⟩
        obtain ⟨since, gathered⟩ := primes doc further onward
          (isReady doc rfl)
        refine ⟨further, rfl, onward.kept,
          fun child => onward.order ▸ alignment.2 child, since,
          fun cursors isOver => ?_, fun before isBefore => ?_,
          gathered.imp_right ?_⟩
        · rw [running] at isOver
          cases isOver
        · rw [running, Alignment.running.injEq] at isBefore
          exact isBefore ▸ onward
        · rintro ⟨span, stands, same, stays, inside⟩
          exact ⟨lineup, span, running, stands, same, stays, inside⟩
      · rintro _ ⟨rfl⟩
        exact ⟨further, isReady doc rfl⟩
  · rintro _ _ ⟨further, rfl, onward⟩
    exact kept.realigned running onward

omit [Cursor σ] in
/-- Children of which one has ended are ready for nothing. -/
theorem meets_ended (kept : Keeps keeps arrangement slop last? node)
    {cursors : Vector σ size} (ended : node.alignment = .ended cursors)
    {work : Attempt Failure (Lineup σ size) (Option DocId)} :
    (aligning (Alignment.onLineup work)).Meets node
      (fun doc? reached =>
        Resumed keeps arrangement slop last? node doc? reached ∧
          doc? = none)
      (fun _ reached => Keeps keeps arrangement slop last? reached) := by
  simp only [aligning, Attempt.meets_within, ended]
  refine (Attempt.meets_of_ok (show Alignment.onLineup work (.ended cursors) =
    (.ok none, .ended cursors) from rfl)).mpr ?_
  exact ⟨⟨kept.over cursors, rfl, by simp⟩, rfl⟩

/-- To resume is to ready the children for the next match. -/
theorem meets_resume (below : Disciplined disturb keeps)
    (kept : Keeps keeps arrangement slop last? node) :
    resume.Meets node
      (Resumed keeps arrangement slop last? node)
      (fun _ reached => Keeps keeps arrangement slop last? reached) := by
  simp only [resume, Attempt.meets_bind, Attempt.meets_look]
  cases alignment : node.alignment with
  | starting gathering =>
      exact (meets_starting below kept alignment none).imp_answer
        fun _ _ resumed => resumed.1
  | running lineup =>
      have placed := kept.alignment
      rw [alignment] at placed
      simp only [Attempt.meets_bind, Attempt.meets_ofExcept,
        Attempt.meets_ofOption]
      refine ⟨fun doc isDoc => ⟨fun pivot isPivot => ?_, fun _ => kept⟩,
        fun _ _ => kept⟩
      refine (meets_running kept alignment
        (Lineup.meets_resume below placed.1 placed.2 pivot doc) ?_).imp_answer
        fun _ _ resumed => resumed.1
      rintro next reached onward (together | ⟨rfl, stays, inside⟩)
      · exact ⟨together.since, .inl together⟩
      · have stands := kept.stands
        unfold StandsAt at stands
        cases standing : node.standing with
        | on span =>
            rw [standing] at isDoc
            cases isDoc
            simp only [standing, alignment] at stands
            refine ⟨onward.since stands.2, .inr ⟨span, rfl, rfl, stays, ?_⟩⟩
            intro other isOther
            rwa [Option.some.inj (isPivot.symm.trans isOther)] at inside
        | unstarted =>
            rw [standing] at isDoc
            cases isDoc
        | atDocument doc => simp only [standing] at stands
        | exhausted =>
            rw [standing] at isDoc
            cases isDoc
        | closed =>
            rw [standing] at isDoc
            cases isDoc
  | ended cursors =>
      simp only [Attempt.meets_bind, Attempt.meets_ofExcept,
        Attempt.meets_ofOption]
      exact ⟨fun doc _ => ⟨fun pivot _ => (meets_ended kept alignment).mono
        (fun _ _ resumed => resumed.1) fun _ _ failed => failed,
        fun _ => kept⟩, fun _ _ => kept⟩

/-- To resume at a document is to ready the children for a match there. -/
theorem meets_resumeAt (below : Disciplined disturb keeps)
    (kept : Keeps keeps arrangement slop last? node) (target : DocId) :
    (resumeAt target).Meets node
      (fun doc? reached =>
        Resumed keeps arrangement slop last? node doc? reached ∧
          ∀ doc ∈ doc?, 0 < size → target ≤ doc)
      (fun _ reached => Keeps keeps arrangement slop last? reached) := by
  simp only [resumeAt, Attempt.meets_bind, Attempt.meets_look]
  cases alignment : node.alignment with
  | starting gathering =>
      apply (meets_starting below kept alignment (some target)).imp_answer
      rintro doc? reached ⟨resumed, floor⟩
      exact ⟨resumed, fun doc isDoc => floor doc isDoc target rfl⟩
  | running lineup =>
      have placed := kept.alignment
      rw [alignment] at placed
      refine (meets_running kept alignment
        (Lineup.meets_seek below placed.1 placed.2 target) ?_).imp_answer ?_
      · rintro doc reached _ ⟨together, _⟩
        exact ⟨together.since, .inl together⟩
      · rintro doc? reached ⟨resumed, landed⟩
        refine ⟨resumed, fun doc isDoc filled => ?_⟩
        obtain ⟨further, together, since⟩ := landed doc isDoc
        exact together ⟨0, filled⟩ ▸ since ⟨0, filled⟩
  | ended cursors =>
      apply (meets_ended kept alignment).imp_answer
      rintro _ reached ⟨resumed, rfl⟩
      exact ⟨resumed, by simp⟩

/-- What a move of a proximity node comes to. -/
theorem meets_go (below : Disciplined disturb keeps)
    (kept : Keeps keeps arrangement slop last? node) (move : Move) :
    (Cursor.go move).Meets node
      (Answered keeps arrangement slop last? move.target? node)
      (fun _ reached => Keeps keeps arrangement slop last? reached) := by
  have ends : node.standing = .exhausted →
      Answered keeps arrangement slop last? move.target? node none node :=
    fun isExhausted => ⟨⟨isExhausted, kept⟩, by simp⟩
  have onward : node.standing.planNext = .ok true →
      (do settle (← resume) : Attempt Failure (Proximity σ size) _).Meets node
        (Answered keeps arrangement slop last? none node)
        (fun _ reached => Keeps keeps arrangement slop last? reached) := by
    intro goes
    simp only [Attempt.meets_bind]
    exact (meets_resume below kept).mono (fun doc? reached resumed =>
      meets_settle below resumed (kept.span?_eq goes) (by simp))
      fun _ _ failed => failed
  cases move with
  | next => exact planned.meets_next (fun _ => kept) ends onward
  | seek target =>
      refine planned.meets_seek (fun _ => kept) ends (fun _ _ _ => kept) ?_ ?_
      · intro span isOn same
        change node.standing = .on span at isOn
        apply (onward (by rw [isOn]; rfl)).imp_answer
        rintro (_ | later) reached ⟨advances, matched⟩
        · exact ⟨advances, matched⟩
        · obtain ⟨after, _, rest⟩ := advances
          refine ⟨⟨after, ?_, rest⟩, matched⟩
          rintro _ ⟨rfl⟩
          have isLast := kept.span?_eq (by rw [isOn]; rfl)
          rw [isOn] at isLast
          exact same ▸ Span.doc_le_of_lt (after span isLast.symm)
      · intro goes
        have last := kept.span?_eq (Standing.planNext_of_planSeek goes)
        simp only [Attempt.meets_bind]
        apply (meets_resumeAt below kept target).imp_answer
        rintro doc? reached ⟨resumed, floor⟩
        refine meets_settle below resumed last ?_
        rintro doc isDoc _ ⟨rfl⟩
        exact floor doc isDoc

theorem disciplined (below : Disciplined disturb keeps) :
    Disciplined (disturbed disturb)
      (Keeps keeps arrangement slop :
        Option Span → Proximity σ size → Prop) where
  moves kept move := (meets_go below kept move).imp_answer
    fun _ _ answered => answered.1
  finished _ isExhausted move := planned.meets_go_exhausted isExhausted move
  disturbed := by
    intro last? node kept event
    refine ⟨⟨?_, ?_, kept.arrangement, kept.slop⟩, rfl⟩
    · have alignment := kept.alignment
      cases which : node.alignment with
      | starting gathering =>
          rw [which] at alignment
          simp only [disturbed, which, Alignment.mapCursors]
          refine ⟨⟨fun child => ?_, alignment.1.all⟩, alignment.2⟩
          simpa using (below.disturbed (alignment.1.placed child) event).1
      | running lineup =>
          rw [which] at alignment
          simp only [disturbed, which, Alignment.mapCursors]
          refine ⟨fun child => ?_, alignment.2⟩
          simpa [Lineup.mapCursors] using (below.disturbed (alignment.1 child) event).1
      | ended cursors =>
          simp only [disturbed, which, Alignment.mapCursors]
          trivial
    · have stands := kept.stands
      unfold StandsAt at stands ⊢
      simp only [disturbed]
      cases standing : node.standing with
      | on span =>
          simp only [standing] at stands ⊢
          refine ⟨stands.1, ?_⟩
          cases which : node.alignment with
          | starting gathering =>
              rw [which] at stands
              exact stands.2.elim
          | running lineup =>
              rw [which] at stands
              exact stands.2
          | ended cursors => trivial
      | unstarted => simpa only [standing] using stands
      | atDocument doc => simp only [standing] at stands
      | exhausted => trivial
      | closed => trivial

/-- The children of a fresh node are placed in some order of their own. -/
theorem keeps_ofCursors {collects : Bool} {cursors : Vector σ size}
    (placed : ∀ child : Fin size, keeps none cursors[child]) :
    Keeps keeps arrangement slop none
      (ofCursors arrangement slop collects cursors) := by
  refine ⟨⟨⟨fun child => ?_, fun child => ?_⟩, fun filled => ?_⟩, rfl, rfl,
    rfl⟩
  · simpa using placed child
  · exact (Estimate.cheapestFirst_perm _ _).mem_iff.mpr (by simp)
  · exact ⟨⟨0, filled⟩, by simp⟩

theorem orderly_ofCursors {collects : Bool} {cursors : Vector σ size}
    (orderly : ∀ child : Fin size, Orderly disturb none cursors[child]) :
    Orderly (disturbed disturb) none
      (ofCursors arrangement slop collects cursors) :=
  ⟨Keeps (Orderly disturb) arrangement slop,
    disciplined Orderly.disciplined, keeps_ofCursors orderly⟩

end Proximity

end PositionalSearch
