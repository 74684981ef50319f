import PositionalSearch.Proofs.Near.InOrder
import PositionalSearch.Proofs.Order.Query

/-!
# What a match in order is read off

In order the search goes on from the first child: the document is that of its
head, and every other child has to come to a head in it, or the document is
given up.  So wherever an earlier failure left the children, a match in order
is read off heads that are together in its document.
-/

namespace PositionalSearch

open Cursor (Disciplined Orderly)

variable {ι σ : Type} {size : Nat} {keeps : Option Span → σ → Prop}
  {slop : Nat}

/-- Only spans in order have gaps. -/
theorem inOrder_of_gaps? {spans : List Span} {slack : Nat}
    (isSlack : gaps? spans = some slack) :
    InOrder spans ∧ gaps spans = slack := by
  induction spans generalizing slack with
  | nil =>
      cases isSlack
      exact ⟨List.isChain_nil, rfl⟩
  | cons first rest ih =>
      cases rest with
      | nil =>
          cases isSlack
          exact ⟨List.isChain_singleton _, rfl⟩
      | cons second others =>
          rw [gaps?] at isSlack
          split at isSlack
          · rename_i meets
            obtain ⟨later, isLater, rfl⟩ := Option.map_eq_some_iff.mp isSlack
            obtain ⟨inOrder, rfl⟩ := ih isLater
            exact ⟨List.isChain_cons_cons.mpr ⟨meets, inOrder⟩,
              gaps_cons_cons first second others⟩
          · cases isSlack

namespace Lineup

variable {lineup : Lineup σ size}

/-- What is read off heads in order is spanned by them, within the slop. -/
theorem Fits.spanning {heads : Vector Span size} {found : Match size}
    (fits : Fits .inOrder slop heads found)
    (together : ∀ child : Fin size, heads[child].doc = found.span.doc) :
    ∃ first rest, heads.toList = first :: rest ∧ InOrder (first :: rest) ∧
      gaps (first :: rest) ≤ slop ∧ Spanning first rest found.span := by
  obtain ⟨filled, _, starts, stops, slack, isSlack, within⟩ := fits
  have isList := toList_eq_cons heads filled
  obtain ⟨inOrder, rfl⟩ := inOrder_of_gaps? isSlack
  refine ⟨_, _, isList, isList ▸ inOrder, isList ▸ within,
    (together _).symm, starts, ?_⟩
  have isLast : heads.toList.getLastD heads[(⟨0, filled⟩ : Fin size)] =
      heads[lastPlace filled] := by
    simp [List.getLastD_eq_getLast?, List.getLast?_eq_getElem?, lastPlace,
      filled]
  rw [isList, List.getLastD_cons] at isLast
  rw [isLast]
  exact stops

/-- Heads that the children have yielded are arranged as the match asks. -/
theorem Fits.arranged {heads : Vector Span size} {found : Match size}
    (fits : Fits .inOrder slop heads found)
    (together : ∀ child : Fin size, heads[child].doc = found.span.doc)
    {yields : Fin size → List Span}
    (yielded : ∀ child : Fin size, heads[child] ∈ yields child) :
    ∃ first rest, Arranged slop yields (first :: rest) ∧
      Spanning first rest found.span := by
  obtain ⟨first, rest, isList, inOrder, within, spanning⟩ :=
    fits.spanning together
  have places : heads.toList =
      (List.finRange size).map fun child => heads[child] := by
    refine List.ext_getElem (by simp) fun place _ _ => ?_
    simp
  refine ⟨first, rest, ⟨?_, ?_, inOrder, within⟩, spanning⟩
  · rw [← isList, places]
    refine List.forall₂_map_left_iff.mpr (List.forall₂_same.mpr ?_)
    exact fun child _ => yielded child
  · have inDoc : ∀ head ∈ first :: rest, head.doc = found.span.doc := by
      rw [← isList, places]
      intro head member
      obtain ⟨child, _, rfl⟩ := List.mem_map.mp member
      exact together child
    exact fun one isOne other isOther =>
      (inDoc one isOne).trans (inDoc other isOther).symm

/-- The first child, if there is one, is in the document. -/
def FirstIn (doc : DocId) (lineup : Lineup σ size) : Prop :=
  ∀ filled : 0 < size, lineup.heads[(⟨0, filled⟩ : Fin size)].doc = doc

variable [Cursor σ] {disturb : ι → σ → σ}

/-- What is found in order is found with all heads in one document. -/
theorem together_searchInOrder {lineup : Lineup σ size}
    (below : Disciplined disturb keeps) (kept : Kept keeps lineup)
    (last : Option Span) (doc : DocId) (filled : 0 < size)
    {first : Span} (placed : lineup.heads[(⟨0, filled⟩ : Fin size)] = first)
    (inDoc : first.doc = doc) :
    (searchInOrder slop last doc filled first).Meets lineup
      (fun finding reached => ∀ found, finding = .hit found →
        found.span.doc = doc ∧ Together doc reached)
      (fun _ _ => True) := by
  rw [searchInOrder]
  simp only [Attempt.meets_bind]
  apply (meets_stretch below kept doc first.stop _).mono
  · rintro finding middle ⟨onward, hit⟩
    cases finding with
    | left => simp
    | ended => simp
    | hit _ =>
        obtain ⟨_, others, inside⟩ := hit rfl
        have firstAt := others ⟨0, filled⟩ (first_not_mem_tail filled)
        simp only [Attempt.meets_bind, Attempt.meets_ofOption]
        refine ⟨fun candidate bounded => ⟨fun slack _ => ?_,
          fun _ => trivial⟩, fun _ => trivial⟩
        split
        · rintro found ⟨rfl⟩
          refine ⟨(Span.ofBounds?_eq_some bounded).1, fun child => ?_⟩
          rcases eq_or_mem_tail filled child with rfl | later
          · rw [firstAt, placed, inDoc]
          · exact inside child later
        · simp only [Attempt.meets_bind]
          refine (meets_advanceBeyond below onward.kept ⟨0, filled⟩
            first).mono ?_ fun _ _ _ => trivial
          rintro (_ | ⟨later, beyond⟩) next moved
          · simp
          · have := Span.room_lt_room beyond
            dsimp only
            split
            · rename_i laterInDoc
              exact together_searchInOrder below moved.onward.kept last doc
                filled moved.head_eq laterInDoc
            · simp
  · exact fun _ _ _ => trivial
termination_by first.room

theorem together_searchIn (below : Disciplined disturb keeps)
    (kept : Kept keeps lineup) (last : Option Span) {doc : DocId}
    (firstIn : FirstIn doc lineup) :
    (searchIn .inOrder slop last doc).Meets lineup
      (fun finding reached => ∀ found, finding = .hit found →
        found.span.doc = doc ∧ Together doc reached)
      (fun _ _ => True) := by
  unfold searchIn
  split
  · rename_i filled
    simp only [Attempt.meets_bind, Attempt.meets_look]
    exact together_searchInOrder below kept last doc filled rfl (firstIn filled)
  · simp

/-- Wherever the search in order ends, all heads are together there. -/
theorem together_search {lineup : Lineup σ size}
    (below : Disciplined disturb keeps) (kept : Kept keeps lineup)
    (all : ∀ child, child ∈ lineup.order) (last : Option Span) {doc : DocId}
    (firstIn : FirstIn doc lineup) :
    (Lineup.search .inOrder slop last doc).Meets lineup
      (fun found? reached => ∀ found ∈ found?,
        Together found.span.doc reached)
      (fun _ _ => True) := by
  rw [Lineup.search]
  simp only [Attempt.meets_bind]
  refine ((meets_searchIn below kept .inOrder slop last doc).and
    (together_searchIn below kept last firstIn)).mono ?_ fun _ _ _ => trivial
  rintro finding middle ⟨⟨onward, _⟩, hit⟩
  cases finding with
  | ended => simp
  | hit found =>
      obtain ⟨rfl, together⟩ := hit found rfl
      rintro _ ⟨rfl⟩
      exact together
  | left =>
      simp only [Attempt.meets_bind]
      refine (meets_align below onward.kept
        fun child => onward.order ▸ all child).mono ?_ fun _ _ _ => trivial
      rintro (_ | later) aligned ⟨further, together⟩
      · simp
      · have through := onward.trans further
        dsimp only
        split
        · rename_i beyond
          have := DocId.room_lt_room beyond
          exact together_search below further.kept
            (fun child => through.order ▸ all child) last
            fun filled => together later rfl _
        · trivial
termination_by doc.room

end Lineup

/-! ## Nodes in order -/

namespace Proximity

variable {node : Proximity σ size} {last? : Option Span}

/-- The child that moves on after a match is the first one. -/
def FirstMovesOn (node : Proximity σ size) : Prop :=
  ∀ pivot ∈ node.pivot?, pivot.val = 0

/-- The children are ready to be searched from the document of the first. -/
def Led (keeps : Option Span → σ → Prop) (doc : DocId)
    (alignment : Alignment σ size) : Prop :=
  ∃ lineup, alignment = .running lineup ∧ lineup.Kept keeps ∧
    (∀ child, child ∈ lineup.order) ∧ lineup.FirstIn doc

/-- The heads are together in the document of the span that is answered. -/
def TogetherUpon (span? : Option Span) (node : Proximity σ size) : Prop :=
  ∀ span ∈ span?, ∃ lineup, node.alignment = .running lineup ∧
    lineup.Together span.doc

/-- Work on the children does not change which of them moves on. -/
theorem meets_aligning_led (first : FirstMovesOn node)
    {work : Attempt Failure (Alignment σ size) (Option DocId)}
    (meets : work.Meets node.alignment
      (fun doc? reached => ∀ doc ∈ doc?, Led keeps doc reached)
      (fun _ _ => True)) :
    (aligning work).Meets node
      (fun doc? reached => FirstMovesOn reached ∧
        ∀ doc ∈ doc?, Led keeps doc reached.alignment)
      (fun _ reached => FirstMovesOn reached) := by
  simp only [aligning, Attempt.meets_within]
  exact meets.mono (fun _ _ led => ⟨first, led⟩) fun _ _ _ => first

/-- Work that leaves the first child in the document it answers. -/
theorem led_onLineup {lineup : Lineup σ size}
    (all : ∀ child, child ∈ lineup.order)
    {work : Attempt Failure (Lineup σ size) (Option DocId)}
    {failed : Failure → Lineup σ size → Prop}
    (meets : work.Meets lineup
      (fun doc? reached => lineup.Onward keeps reached ∧
        ∀ doc ∈ doc?, reached.FirstIn doc) failed) :
    (Alignment.onLineup work).Meets (.running lineup)
      (fun doc? reached => ∀ doc ∈ doc?, Led keeps doc reached)
      (fun _ _ => True) := by
  refine (Alignment.meets_onLineup meets).mono ?_ fun _ _ _ => trivial
  rintro doc? _ (⟨rfl, _⟩ | ⟨doc, further, rfl, rfl, onward, firstIn⟩)
  · simp
  · rintro _ ⟨rfl⟩
    exact ⟨further, rfl, onward.kept,
      fun child => onward.order ▸ all child, firstIn doc rfl⟩

theorem together_finish
    (first : FirstMovesOn node) :
    finish.Meets node
      (fun span? reached => FirstMovesOn reached ∧
        TogetherUpon span? reached)
      (fun _ reached => FirstMovesOn reached) := by
  simp only [finish, Attempt.meets_bind, Attempt.meets_update,
    Attempt.meets_pure]
  exact ⟨first, by simp [TogetherUpon]⟩

variable [Cursor σ] {disturb : ι → σ → σ}

/-- Children that are placed and aligned are together. -/
theorem led_start (below : Disciplined disturb keeps)
    {gathering : Gathering σ size}
    (kept : Alignment.Kept keeps (.starting gathering))
    (target? : Option DocId) :
    (Alignment.start target?).Meets (.starting gathering)
      (fun doc? reached => ∀ doc ∈ doc?, Led keeps doc reached)
      (fun _ _ => True) := by
  refine (Alignment.meets_start below kept.1 kept.2 target?).mono ?_
    fun _ _ _ => trivial
  rintro doc? reached ⟨keptOn, ready⟩ doc isDoc
  obtain ⟨lineup, rfl, together, _⟩ := ready doc isDoc
  exact ⟨lineup, rfl, keptOn.1, keptOn.2, fun filled => together _⟩

/-- To resume in order is to move the first child on. -/
theorem led_resume (below : Disciplined disturb keeps)
    (kept : node.alignment.Kept keeps) (first : FirstMovesOn node) :
    resume.Meets node
      (fun doc? reached => FirstMovesOn reached ∧
        ∀ doc ∈ doc?, Led keeps doc reached.alignment)
      (fun _ reached => FirstMovesOn reached) := by
  simp only [resume, Attempt.meets_bind, Attempt.meets_look]
  cases alignment : node.alignment with
  | starting gathering =>
      rw [alignment] at kept
      exact meets_aligning_led first
        (alignment ▸ led_start below kept none)
  | running lineup =>
      rw [alignment] at kept
      simp only [Attempt.meets_bind, Attempt.meets_ofExcept,
        Attempt.meets_ofOption]
      refine ⟨fun doc _ => ⟨fun pivot isPivot => ?_, fun _ => first⟩,
        fun _ _ => first⟩
      refine meets_aligning_led first (alignment ▸ led_onLineup kept.2 <|
        (Lineup.meets_resume below kept.1 kept.2 pivot doc).imp_answer ?_)
      rintro doc? reached ⟨onward, landed⟩
      refine ⟨onward, fun next isNext filled => ?_⟩
      rcases landed next isNext with together | ⟨rfl, _, inDoc⟩
      · exact together _
      · have isFirst : pivot = ⟨0, filled⟩ :=
          Fin.ext (first pivot isPivot)
        exact isFirst ▸ inDoc
  | ended cursors =>
      simp only [Attempt.meets_bind, Attempt.meets_ofExcept,
        Attempt.meets_ofOption]
      refine ⟨fun doc _ => ⟨fun pivot _ => ?_, fun _ => first⟩,
        fun _ _ => first⟩
      refine meets_aligning_led first (alignment ▸ ?_)
      simp [Attempt.Meets, Attempt.run, Alignment.onLineup]

theorem led_resumeAt (below : Disciplined disturb keeps)
    (kept : node.alignment.Kept keeps) (first : FirstMovesOn node)
    (target : DocId) :
    (resumeAt target).Meets node
      (fun doc? reached => FirstMovesOn reached ∧
        ∀ doc ∈ doc?, Led keeps doc reached.alignment)
      (fun _ reached => FirstMovesOn reached) := by
  simp only [resumeAt, Attempt.meets_bind, Attempt.meets_look]
  cases alignment : node.alignment with
  | starting gathering =>
      rw [alignment] at kept
      exact meets_aligning_led first
        (alignment ▸ led_start below kept (some target))
  | running lineup =>
      rw [alignment] at kept
      refine meets_aligning_led first (alignment ▸ led_onLineup kept.2 <|
        (Lineup.meets_seek below kept.1 kept.2 target).imp_answer ?_)
      rintro doc? reached ⟨onward, landed⟩
      exact ⟨onward, fun doc isDoc filled => (landed doc isDoc).1 _⟩
  | ended cursors =>
      refine meets_aligning_led first (alignment ▸ ?_)
      simp [Attempt.Meets, Attempt.run, Alignment.onLineup]

/-- A search in order answers with all heads in the document it answers. -/
theorem together_searchFrom (below : Disciplined disturb keeps)
    (inOrder : node.arrangement = .inOrder) (first : FirstMovesOn node)
    {doc : DocId} (led : Led keeps doc node.alignment) :
    (searchFrom doc).Meets node
      (fun span? reached => FirstMovesOn reached ∧
        TogetherUpon span? reached)
      (fun _ reached => FirstMovesOn reached) := by
  obtain ⟨lineup, running, kept, all, firstIn⟩ := led
  simp only [searchFrom, aligning, Attempt.meets_bind, Attempt.meets_look,
    Attempt.meets_within, running, inOrder]
  refine (Alignment.meets_onLineup
    ((Lineup.meets_search below kept all .inOrder node.slop
        node.standing.span? doc).and
      (Lineup.together_search below kept all node.standing.span?
        firstIn))).mono ?_ ?_
  · rintro found? _ (⟨rfl, further, rfl, _⟩ | ⟨found, further, rfl, rfl,
      ⟨_, isFound⟩, together⟩)
    · exact together_finish first
    · obtain ⟨isMatch, _⟩ := isFound found rfl
      obtain ⟨filled, isFirst, _⟩ := isMatch.fits
      have firstOn : found.pivot.val = 0 := congrArg Fin.val isFirst
      simp only [Attempt.meets_bind, Attempt.meets_update,
        Attempt.meets_pure]
      refine meets_collect.mono ?_ ?_
      · rintro _ _ ⟨payloads, rfl⟩
        refine ⟨?_, ?_⟩
        · rintro _ ⟨rfl⟩
          exact firstOn
        · rintro _ ⟨rfl⟩
          exact ⟨further, rfl, together found rfl⟩
      · rintro _ _ ⟨payloads, rfl⟩ _ ⟨rfl⟩
        exact firstOn
  · rintro _ _ ⟨further, rfl, _⟩
    exact first

/-- However a node in order is moved, it answers with its heads together. -/
theorem together_go (below : Disciplined disturb keeps)
    (kept : Keeps keeps .inOrder slop last? node) (first : FirstMovesOn node)
    (move : Move) :
    (Cursor.go move).Meets node
      (fun span? reached => FirstMovesOn reached ∧
        TogetherUpon span? reached)
      (fun _ reached => FirstMovesOn reached) := by
  have settling : ∀ {work : Attempt Failure (Proximity σ size)
      (Option DocId)} {ready : Option DocId → Proximity σ size → Prop},
      work.Meets node
        (fun doc? reached => Keeps keeps .inOrder slop last? reached ∧
          ready doc? reached)
        (fun _ reached => Keeps keeps .inOrder slop last? reached) →
      work.Meets node
        (fun doc? reached => FirstMovesOn reached ∧
          ∀ doc ∈ doc?, Led keeps doc reached.alignment)
        (fun _ reached => FirstMovesOn reached) →
      (do settle (← work) : Attempt Failure (Proximity σ size) _).Meets node
        (fun span? reached => FirstMovesOn reached ∧
          TogetherUpon span? reached)
        (fun _ reached => FirstMovesOn reached) := by
    intro work ready keptOn leads
    simp only [Attempt.meets_bind]
    refine (keptOn.and leads).mono ?_ fun _ _ failed => failed.2
    rintro (_ | doc) reached ⟨⟨keptOn, _⟩, firstOn, led⟩
    · exact together_finish firstOn
    · exact together_searchFrom below keptOn.arrangement firstOn (led doc rfl)
  have ends : FirstMovesOn node ∧ TogetherUpon none node :=
    ⟨first, by simp [TogetherUpon]⟩
  have onward := settling (meets_resume below kept)
    (led_resume below kept.alignment first)
  cases move with
  | next =>
      exact planned.meets_next (fun _ => first) (fun _ => ends)
        fun _ => onward
  | seek target =>
      exact planned.meets_seek (fun _ => first) (fun _ => ends)
        (fun _ _ _ => first) (fun _ _ _ => onward) fun _ =>
          settling ((meets_resumeAt below kept target).imp_answer
            fun _ _ resumed => ⟨resumed.1.1, resumed⟩)
            (led_resumeAt below kept.alignment first target)

/-- Nodes in order keep their discipline, and the first child moves on. -/
theorem disciplined_inOrder (below : Disciplined disturb keeps) :
    Disciplined (disturbed disturb)
      (fun last? (node : Proximity σ size) =>
        Keeps keeps .inOrder slop last? node ∧ FirstMovesOn node) where
  moves := by
    rintro last? node ⟨kept, first⟩ move
    refine (((disciplined below).moves kept move).and
      (together_go below kept first move)).mono ?_ fun _ _ failed => failed
    rintro (_ | span) reached ⟨advances, firstOn, _⟩
    · exact ⟨advances.1, advances.2, firstOn⟩
    · exact ⟨advances.1, advances.2.1, advances.2.2.1, advances.2.2.2, firstOn⟩
  finished kept isExhausted move :=
    (disciplined below).finished kept.1 isExhausted move
  disturbed kept event := by
    obtain ⟨keptOn, same⟩ := (disciplined below).disturbed kept.1 event
    exact ⟨⟨keptOn, kept.2⟩, same⟩

end Proximity

/-! ## Queries in order -/

namespace Query

open Proximity (overRecorded)

/--
However reads fail and the node is moved on after that, a node in order answers
with spans that its children have answered: they are together in the document
of the answer, each starts where its predecessor stops or later, their gaps are
within the slop, and the answer is what they span.
-/
theorem inOrder_answers_arranged (slop : Nat) (collects : Bool)
    (children : List Query) (moves : List Move) :
    let ran := Cursor.runs moves
      (overRecorded .inOrder slop collects (openEach children))
    ran.1 = (Cursor.runs moves
      (proximity .inOrder slop collects children).openTree).1 ∧
    ∀ (move : Move) (span : Span),
      (Cursor.go move ran.2).1 = .ok (some span) →
        ∃ first rest,
          Arranged slop (Cursor.go move ran.2).2.answered (first :: rest) ∧
            Spanning first rest span := by
  constructor
  · rw [openTree_proximity]
    refine (Proximity.runs_overRecorded .inOrder slop collects
      (openEach children) moves).trans ?_
    exact (congrArg Prod.fst (Level.carries_proximity.runs_eq moves
      (Proximity.ofCursors .inOrder slop collects (openEach children)))).symm
  · intro move span went
    have below : Disciplined _ (Recorded.Keeps (Tree.armed :
        _ → Tree (greatestHeight children) → _)) := Recorded.disciplined
    have opened : ∀ child : Fin children.length,
        Orderly Tree.armed none (openEach children)[child] := by
      intro child
      rw [getElem_openEach]
      exact orderly_openAt _ _ _
    obtain ⟨last?, kept, first⟩ :=
      (Proximity.disciplined_inOrder below).keeps_runs
        ⟨Proximity.keeps_overRecorded slop collects opened, by
          rintro _ ⟨⟩⟩ moves
    obtain ⟨⟨_, matched⟩, _, together⟩ :=
      ((Proximity.meets_go below kept move).and
        (Proximity.together_go below kept first move)).of_ok
        (Prod.ext went rfl)
    obtain ⟨lineup, pivot, running, primed, fits⟩ := matched span rfl
    obtain ⟨same, isSame, inDoc⟩ := together span rfl
    rw [running, Alignment.running.injEq] at isSame
    subst isSame
    refine fits.arranged inDoc fun child => ?_
    exact List.mem_of_mem_head?
      (Proximity.head?_answered running primed.kept child)

/-- Two terms that are read in step until the first cannot be sought in once. -/
def interruptedPhrase : List Query :=
  [.scripted "a" ⟨[⟨.seekDocument, 1, ⟨.interrupted, "transient"⟩⟩], [], none⟩
      [⟨1, 0, none⟩, ⟨1, 4, none⟩, ⟨1, 6, none⟩, ⟨3, 0, none⟩],
    .term [⟨1, 1, none⟩, ⟨2, 5, none⟩, ⟨3, 1, none⟩]]

/--
The second read takes the second term out of the document and fails; the third
starts in the document all the same and answers a phrase of a later one.
-/
theorem interruptedPhrase_answers_arranged :
    let ran := Cursor.runs [.next, .next]
      (overRecorded .inOrder 0 false (openEach interruptedPhrase))
    (Cursor.go .next ran.2).1 = .ok (some ⟨3, 0, 2, by decide⟩) ∧
      ∃ first rest,
        Arranged 0 (Cursor.go .next ran.2).2.answered (first :: rest) ∧
          Spanning first rest ⟨3, 0, 2, by decide⟩ := by
  have went : (Cursor.go .next (Cursor.runs [.next, .next]
      (overRecorded .inOrder 0 false (openEach interruptedPhrase))).2).1 =
        .ok (some ⟨3, 0, 2, by decide⟩) := by
    cbv
  exact ⟨went, (inOrder_answers_arranged 0 false interruptedPhrase
    [.next, .next]).2 .next _ went⟩

end Query

end PositionalSearch
