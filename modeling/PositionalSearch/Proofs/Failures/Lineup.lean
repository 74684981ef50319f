import PositionalSearch.Proofs.Alignment
import PositionalSearch.Proofs.Failures.Audit
import PositionalSearch.Proofs.Heads
import PositionalSearch.Proofs.Order.Lineup

/-!
# Failures of lineups

Work on a lineup fails only with what one of the children fails with.  To align
them this takes nothing of the children, while a search relies on them going
on in order: then each of them moves beyond its head, the heads that it tries
have gaps and a window, and an alignment after a child left the document leads
to a later one.
-/

namespace PositionalSearch

open Attempt (Blames blames_pure blames_look_bind blames_ofOption_bind)
open Cursor (Disciplined)

namespace Audited

variable {σ : Type} {size : Nat} {cursors : Vector (Audited σ) size}
  {child : Fin size} {cursor : Audited σ}

/-- The failures of each of several cursors. -/
def logs (cursors : Vector (Audited σ) size) (child : Fin size) :
    List Failure :=
  cursors[child].failures

/-- A cursor that logged nothing leaves all logs as they are. -/
theorem logs_set (quiet : cursor.failures = cursors[child].failures) :
    logs (cursors.set child cursor child.isLt) = logs cursors := by
  funext other
  simp only [logs, Lineup.getElem_set_fin]
  split
  · rename_i same
    exact same ▸ quiet
  · rfl

theorem logs_set_self :
    logs (cursors.set child cursor child.isLt) child = cursor.failures := by
  simp [logs]

end Audited

namespace Lineup

/-! ## Alignment -/

section

variable {σ : Type} {size : Nat} [Cursor σ]

/-- The failures of each child. -/
def logs (lineup : Lineup (Audited σ) size) : Fin size → List Failure :=
  Audited.logs lineup.cursors

variable {lineup : Lineup (Audited σ) size}

theorem blames_move (child : Fin size) (move : Move) :
    (Lineup.move child (Cursor.go move)).Blames logs lineup := by
  have met := Audited.meets_go lineup.cursors[child] move
  simp only [Blames, Attempt.Meets, Attempt.run, Lineup.move] at met ⊢
  cases outcome : Cursor.go move lineup.cursors[child] with
  | mk result cursor =>
      rw [outcome] at met
      cases result with
      | error failure =>
          exact ⟨child, Audited.logs_set_self.trans met⟩
      | ok span? => cases span? <;> exact Audited.logs_set met

/-- Moves leave all logs as they were, or one of them logs the failure. -/
theorem governed_logs (before : Fin size → List Failure) :
    Governed (fun lineup : Lineup (Audited σ) size => lineup.logs = before)
      (fun failure reached => ∃ child,
        reached.logs child = failure :: before child) := by
  rintro lineup child move rfl _
  exact blames_move child move

theorem blames_align : Lineup.align.Blames logs lineup :=
  (governed_logs lineup.logs).meets_align rfl

theorem blames_resume (pivot : Fin size) (doc : DocId) :
    (Lineup.resume pivot doc).Blames logs lineup :=
  (governed_logs lineup.logs).meets_resume rfl pivot doc

end

/-! ## What a search relies on -/

section

variable {ι σ : Type} {size : Nat} [Cursor σ] {disturb : ι → σ → σ}
  {keeps : Option Span → σ → Prop} {lineup : Lineup σ size}

/-- Some head is not in the document. -/
def Outside (doc : DocId) (lineup : Lineup σ size) : Prop :=
  ∃ child : Fin size, lineup.heads[child].doc ≠ doc

omit [Cursor σ] in
theorem Moved.outside {reached : Lineup σ size} {child : Fin size}
    {span : Span} {doc : DocId}
    (moved : Moved keeps child (some span) lineup reached)
    (elsewhere : span.doc ≠ doc) : reached.Outside doc :=
  ⟨child, by rw [moved.head_eq]; exact elsewhere⟩

/-- Where a child that was to catch up is found. -/
def Overtakes (doc : DocId) (floor : Position) (child : Fin size) :
    Finding Span → Lineup σ size → Prop
  | .hit found, _ => floor ≤ found.start
  | .left, reached => reached.heads[child].doc ≠ doc
  | .ended, _ => True

theorem overtakes_catchUp {lineup : Lineup σ size}
    (below : Disciplined disturb keeps) (kept : Kept keeps lineup)
    (doc : DocId) (floor : Position) {child : Fin size} {head : Span}
    (placed : lineup.heads[child] = head) :
    (catchUp doc floor child head).Meets lineup (Overtakes doc floor child)
      (fun _ _ => True) := by
  rw [catchUp]
  split
  · split
    · simp only [Attempt.meets_bind]
      refine (meets_advanceBeyond below kept child head).mono ?_
        fun _ _ _ => trivial
      intro later? middle moved
      cases later? with
      | none => trivial
      | some later =>
          obtain ⟨later, beyond⟩ := later
          have := Span.room_lt_room beyond
          exact overtakes_catchUp below moved.onward.kept doc floor
            moved.head_eq
    · rename_i reaches
      exact UInt32.not_lt.mp reaches
  · rename_i elsewhere
    intro inDoc
    exact elsewhere (placed ▸ inDoc)
termination_by head.room

/-- How the heads of children that were to catch up lie. -/
def Lies (doc : DocId) (floor : Position) (children : List (Fin size)) :
    Finding Unit → Lineup σ size → Prop
  | .hit _, reached => ∀ first : Span, first.stop = floor →
      InOrder (first :: children.map fun child => reached.heads[child])
  | .left, reached => reached.Outside doc
  | .ended, _ => True

/-- Children that are stretched start one after the other. -/
theorem lies_stretch (below : Disciplined disturb keeps)
    (kept : Kept keeps lineup) (doc : DocId) (floor : Position)
    {children : List (Fin size)} (once : children.Nodup) :
    (stretch doc floor children).Meets lineup (Lies doc floor children)
      (fun _ _ => True) := by
  induction children generalizing lineup floor with
  | nil => exact fun first _ => List.isChain_singleton first
  | cons child rest ih =>
      obtain ⟨notLater, onceOn⟩ := List.nodup_cons.mp once
      simp only [stretch, Attempt.meets_bind, Attempt.meets_look]
      refine ((meets_catchUp below kept doc floor rfl).and
        (overtakes_catchUp below kept doc floor rfl)).mono ?_
          fun _ _ _ => trivial
      rintro finding middle ⟨⟨onward, hit⟩, overtakes⟩
      cases finding with
      | left => exact ⟨child, overtakes⟩
      | ended => trivial
      | hit head =>
          obtain ⟨_, _, placed, _⟩ := hit head rfl
          refine ((ih onward.kept head.stop onceOn).and
            (meets_stretch below onward.kept doc head.stop rest)).mono ?_
              fun _ _ _ => trivial
          rintro finding reached ⟨lies, _, stays⟩
          cases finding with
          | left => exact lies
          | ended => trivial
          | hit _ =>
              intro first isFloor
              have isHead : reached.heads[child] = head :=
                ((stays rfl).2.1 child notLater).trans placed
              rw [List.map_cons, isHead]
              refine List.isChain_cons_cons.mpr ⟨?_, lies head rfl⟩
              rw [isFloor]
              exact overtakes

omit [Cursor σ] in
/-- Once all but the first child were stretched, all heads are in order. -/
theorem Lies.inOrder {doc : DocId} {filled : 0 < size} {first : Span}
    (lies : Lies doc first.stop (List.finRange size).tail (.hit ()) lineup)
    (isFirst : lineup.heads[(⟨0, filled⟩ : Fin size)] = first) :
    InOrder lineup.heads.toList := by
  rw [toList_eq_cons lineup.heads filled, isFirst]
  exact lies first rfl

/-- A search that left the document has left it with some child. -/
theorem outside_searchInOrder {lineup : Lineup σ size}
    (below : Disciplined disturb keeps) (kept : Kept keeps lineup)
    (slop : Nat) (last : Option Span) (doc : DocId) (filled : 0 < size)
    (first : Span) :
    (searchInOrder slop last doc filled first).Meets lineup
      (fun finding reached => finding = .left → reached.Outside doc)
      (fun _ _ => True) := by
  rw [searchInOrder]
  simp only [Attempt.meets_bind]
  refine ((lies_stretch below kept doc first.stop nodup_tail_finRange).and
    (meets_stretch below kept doc first.stop _)).mono ?_ fun _ _ _ => trivial
  rintro finding middle ⟨lies, onward, _⟩
  cases finding with
  | left => exact fun _ => lies
  | ended => simp
  | hit _ =>
      simp only [Attempt.meets_bind, Attempt.meets_ofOption]
      refine ⟨fun candidate _ => ⟨fun slack _ => ?_, fun _ => trivial⟩,
        fun _ => trivial⟩
      split
      · simp
      · simp only [Attempt.meets_bind]
        refine (meets_advanceBeyond below onward.kept ⟨0, filled⟩ first).mono
          ?_ fun _ _ _ => trivial
        intro later? next moved
        cases later? with
        | none => simp
        | some later =>
            obtain ⟨later, beyond⟩ := later
            have := Span.room_lt_room beyond
            dsimp only
            split
            · exact outside_searchInOrder below moved.onward.kept slop last doc
                filled later
            · rename_i elsewhere
              exact fun _ => moved.outside elsewhere
termination_by first.room

theorem outside_searchAnyOrder {lineup : Lineup σ size}
    (below : Disciplined disturb keeps) (kept : Kept keeps lineup)
    (slop : Nat) (last : Option Span) (doc : DocId) (filled : 0 < size) :
    (searchAnyOrder slop last doc filled).Meets lineup
      (fun finding reached => finding = .left → reached.Outside doc)
      (fun _ _ => True) := by
  obtain ⟨window, bounded⟩ := exists_window lineup.heads
    (leastChild lineup.heads filled) doc
  by_cases accepted : window.length ≤ slop + covered lineup.heads ∧
      isNew last window
  · rw [Attempt.meets_of_ok (searchAnyOrder_of_accepted rfl bounded accepted)]
    simp
  · rw [Attempt.meets_congr (searchAnyOrder_of_refused rfl bounded accepted)]
    simp only [Attempt.meets_bind, Attempt.meets_within]
    refine (below.meets_nextBeyond (kept _)).mono ?_ fun _ _ _ => trivial
    intro later? cursor placed
    cases later? with
    | none => simp
    | some later =>
        obtain ⟨later, beyond⟩ := later
        have onward := onward_place kept placed beyond
        have moved : Moved keeps _ (some later) lineup _ := ⟨onward, rfl⟩
        have := lineup.room_place_lt _ cursor beyond
        simp only [Option.elim_some, Attempt.meets_bind,
          Attempt.meets_update]
        split
        · exact outside_searchAnyOrder below onward.kept slop last doc filled
        · rename_i elsewhere
          exact fun _ => moved.outside elsewhere
termination_by lineup.room

theorem outside_searchIn (below : Disciplined disturb keeps)
    (kept : Kept keeps lineup) (arrangement : Arrangement) (slop : Nat)
    (last : Option Span) (doc : DocId) :
    (searchIn arrangement slop last doc).Meets lineup
      (fun finding reached => finding = .left → reached.Outside doc)
      (fun _ _ => True) := by
  unfold searchIn
  split
  · rename_i filled
    cases arrangement with
    | inOrder =>
        simp only [Attempt.meets_bind, Attempt.meets_look]
        exact outside_searchInOrder below kept slop last doc filled _
    | anyOrder => exact outside_searchAnyOrder below kept slop last doc filled
  · simp

omit [Cursor σ] in
/-- When a child has left the document, an alignment leads to a later one. -/
theorem Outside.lt_of_align {middle reached : Lineup σ size} {doc later : DocId}
    (outside : middle.Outside doc) (since : middle.Since doc)
    (onward : middle.Onward keeps reached) (together : reached.Together later) :
    doc < later := by
  obtain ⟨child, elsewhere⟩ := outside
  have notAfter := Span.doc_le_of_le (onward.heads child)
  rw [together child] at notAfter
  exact UInt64.lt_of_lt_of_le
    (UInt64.lt_of_le_of_ne (since child) (Ne.symm elsewhere)) notAfter

end

/-! ## Searches -/

section

variable {ι σ : Type} {size : Nat} [Cursor σ]
  {disturb : ι → Audited σ → Audited σ}
  {keeps : Option Span → Audited σ → Prop} {lineup : Lineup (Audited σ) size}

theorem blames_advanceBeyond (below : Disciplined disturb keeps)
    (kept : Kept keeps lineup) {child : Fin size} {head : Span}
    (placed : lineup.heads[child] = head) :
    (advanceBeyond child head).Blames logs lineup := by
  apply (blames_move child .next).bind
  intro span? reached went
  obtain ⟨_, further⟩ := (meets_move below kept child .next).of_ok went
  cases span? with
  | none => exact blames_pure _ _
  | some later =>
      have beyond : head < later := placed ▸ (further later rfl).1
      rw [Cursor.demandBeyond, dif_pos beyond]
      exact blames_pure _ _

theorem blames_catchUp {lineup : Lineup (Audited σ) size}
    (below : Disciplined disturb keeps) (kept : Kept keeps lineup)
    (doc : DocId) (floor : Position) {child : Fin size} {head : Span}
    (placed : lineup.heads[child] = head) :
    (catchUp doc floor child head).Blames logs lineup := by
  rw [catchUp]
  split
  · split
    · apply (blames_advanceBeyond below kept placed).bind
      intro later? middle went
      have moved := (meets_advanceBeyond below kept child head).of_ok went
      cases later? with
      | none => exact blames_pure _ _
      | some later =>
          obtain ⟨later, beyond⟩ := later
          have := Span.room_lt_room beyond
          exact blames_catchUp below moved.onward.kept doc floor moved.head_eq
    · exact blames_pure _ _
  · exact blames_pure _ _
termination_by head.room

theorem blames_stretch (below : Disciplined disturb keeps)
    (kept : Kept keeps lineup) (doc : DocId) (floor : Position)
    (children : List (Fin size)) :
    (stretch doc floor children).Blames logs lineup := by
  induction children generalizing lineup floor with
  | nil => exact blames_pure _ _
  | cons child rest ih =>
      apply blames_look_bind
      apply (blames_catchUp below kept doc floor rfl).bind
      intro finding middle went
      have onward := (meets_catchUp below kept doc floor rfl).of_ok went
      cases finding with
      | hit head => exact ih onward.1.kept head.stop
      | left => exact blames_pure _ _
      | ended => exact blames_pure _ _

theorem blames_searchInOrder {lineup : Lineup (Audited σ) size}
    (below : Disciplined disturb keeps) (kept : Kept keeps lineup)
    (slop : Nat) (last : Option Span) (doc : DocId) (filled : 0 < size)
    {first : Span} (placed : lineup.heads[(⟨0, filled⟩ : Fin size)] = first) :
    (searchInOrder slop last doc filled first).Blames logs lineup := by
  rw [searchInOrder]
  apply (blames_stretch below kept doc first.stop _).bind
  intro finding middle went
  have met := ((meets_stretch below kept doc first.stop _).and
    (lies_stretch below kept doc first.stop nodup_tail_finRange)).of_ok went
  obtain ⟨⟨onward, stays⟩, lies⟩ := met
  cases finding with
  | left => exact blames_pure _ _
  | ended => exact blames_pure _ _
  | hit _ =>
      have isFirst : middle.heads[(⟨0, filled⟩ : Fin size)] = first :=
        ((stays rfl).2.1 _ (first_not_mem_tail filled)).trans placed
      have inOrder := lies.inOrder isFirst
      obtain ⟨candidate, bounded⟩ := inOrder.exists_bounds filled doc
      obtain ⟨slack, isSlack⟩ := inOrder.exists_gaps
      have spanned : Span.ofBounds? doc first.start
          middle.heads[lastPlace filled].stop = some candidate := by
        rw [← isFirst]
        exact bounded
      apply blames_look_bind
      apply blames_ofOption_bind spanned
      apply blames_ofOption_bind isSlack
      split
      · exact blames_pure _ _
      · apply (blames_advanceBeyond below onward.kept isFirst).bind
        intro later? next wentOn
        have moved := (meets_advanceBeyond below onward.kept ⟨0, filled⟩
          first).of_ok wentOn
        cases later? with
        | none => exact blames_pure _ _
        | some later =>
            obtain ⟨later, beyond⟩ := later
            have := Span.room_lt_room beyond
            dsimp only
            split
            · exact blames_searchInOrder below moved.onward.kept slop last doc
                filled moved.head_eq
            · exact blames_pure _ _
termination_by first.room

theorem blames_nextBeyond {cursor : Audited σ} {head : Span}
    (below : Disciplined disturb keeps) (kept : keeps (some head) cursor) :
    (Cursor.nextBeyond head).Meets cursor
      (fun _ reached => reached.failures = cursor.failures)
      (fun failure reached =>
        reached.failures = failure :: cursor.failures) := by
  simp only [Cursor.nextBeyond, Attempt.meets_bind]
  refine ((below.moves kept .next).and
    (Audited.meets_go cursor .next)).mono ?_ fun _ _ failed => failed.2
  rintro span? reached ⟨advances, quiet⟩
  cases span? with
  | none => exact quiet
  | some later =>
      rw [Cursor.demandBeyond, dif_pos (advances.1 head rfl)]
      exact quiet

theorem blames_searchAnyOrder {lineup : Lineup (Audited σ) size}
    (below : Disciplined disturb keeps) (kept : Kept keeps lineup)
    (slop : Nat) (last : Option Span) (doc : DocId) (filled : 0 < size) :
    (searchAnyOrder slop last doc filled).Blames logs lineup := by
  obtain ⟨window, bounded⟩ := exists_window lineup.heads
    (leastChild lineup.heads filled) doc
  by_cases accepted : window.length ≤ slop + covered lineup.heads ∧
      isNew last window
  · rw [Blames, Attempt.meets_of_ok
      (searchAnyOrder_of_accepted rfl bounded accepted)]
  · rw [Blames, Attempt.meets_congr
      (searchAnyOrder_of_refused rfl bounded accepted)]
    simp only [Attempt.meets_bind, Attempt.meets_within]
    refine ((below.meets_nextBeyond (kept _)).and
      (blames_nextBeyond below (kept _))).mono ?_ ?_
    · rintro later? cursor ⟨placed, quiet⟩
      have same := Audited.logs_set quiet
      cases later? with
      | none => exact same
      | some later =>
          obtain ⟨later, beyond⟩ := later
          have onward := onward_place kept placed beyond
          have sameLogs : (lineup.place _ cursor later).logs = lineup.logs :=
            same
          have := lineup.room_place_lt _ cursor beyond
          simp only [Option.elim_some, Attempt.meets_bind,
            Attempt.meets_update]
          split
          · apply (blames_searchAnyOrder below onward.kept slop last doc
              filled).mono
            · intro _ reached sameOn
              exact sameOn.trans sameLogs
            · intro failure reached blamed
              exact blamed.of_same sameLogs
          · exact sameLogs
    · rintro failure cursor ⟨_, logged⟩
      exact ⟨_, Audited.logs_set_self.trans logged⟩
termination_by lineup.room

theorem blames_searchIn (below : Disciplined disturb keeps)
    (kept : Kept keeps lineup) (arrangement : Arrangement) (slop : Nat)
    (last : Option Span) (doc : DocId) :
    (searchIn arrangement slop last doc).Blames logs lineup := by
  unfold searchIn
  split
  · rename_i filled
    cases arrangement with
    | inOrder =>
        apply blames_look_bind
        exact blames_searchInOrder below kept slop last doc filled rfl
    | anyOrder => exact blames_searchAnyOrder below kept slop last doc filled
  · exact blames_pure _ _

/-- A search from a document that no head is before fails as a child does. -/
theorem blames_search {lineup : Lineup (Audited σ) size}
    (below : Disciplined disturb keeps) (kept : Kept keeps lineup)
    (all : ∀ child, child ∈ lineup.order) (arrangement : Arrangement)
    (slop : Nat) (last : Option Span) {doc : DocId}
    (since : lineup.Since doc) :
    (Lineup.search arrangement slop last doc).Blames logs lineup := by
  rw [Lineup.search]
  apply (blames_searchIn below kept arrangement slop last doc).bind
  intro finding middle went
  have met := ((meets_searchIn below kept arrangement slop last doc).and
    (outside_searchIn below kept arrangement slop last doc)).of_ok went
  obtain ⟨⟨onward, _⟩, outside⟩ := met
  cases finding with
  | hit found => exact blames_pure _ _
  | ended => exact blames_pure _ _
  | left =>
      apply blames_align.bind
      intro doc? aligned wentOn
      have inOrder : ∀ child, child ∈ middle.order :=
        fun child => onward.order ▸ all child
      obtain ⟨further, together⟩ :=
        (meets_align below onward.kept inOrder).of_ok wentOn
      cases doc? with
      | none => exact blames_pure _ _
      | some later =>
          have beyond := (outside rfl).lt_of_align (onward.since since) further
            (together later rfl)
          have := DocId.room_lt_room beyond
          dsimp only
          rw [dif_pos beyond]
          exact blames_search below further.kept
            (fun child => further.order ▸ inOrder child) arrangement slop last
            (together later rfl).since
termination_by doc.room

end

end Lineup

end PositionalSearch
