import PositionalSearch.Proofs.Follow.Entering
import PositionalSearch.Proofs.Follow.Query
import PositionalSearch.Proofs.Lasting.LeadsTo

/-!
# The next common document

To align the children of a node is to bring them to the first document in
which all of them have a span left.  No round passes a document that all of
them still visit, and the heads that end up together are in one, so that is the
least of these documents; a child can only run out when there is none.
-/

namespace PositionalSearch

open Cursor (Follows FollowsUpon Lasting LeadsTo lasting_leadsTo leadsTo_runs)

variable {σ : Type} {size : Nat}

/-! ## Documents that all children have left -/

/-- A document with a span of every child; without children there is none. -/
def Common (left : Fin size → List Span) (doc : DocId) : Prop :=
  0 < size ∧ ∀ child, ∃ span ∈ left child, span.doc = doc

namespace Nearness

variable {left : Fin size → Visits} {doc : DocId}

theorem common_iff : Common (fun child => (left child).map Visit.span) doc ↔
    0 < size ∧ ∀ child, (left child).inside doc ≠ [] := by
  refine and_congr_right fun _ => forall_congr' fun child => ?_
  simp only [List.mem_map, exists_exists_and_eq_and, Visits.inside, ne_eq,
    List.filter_eq_nil_iff, decide_eq_true_eq, not_forall, not_not,
    exists_prop]

theorem Barren.not_common (barren : Barren left) (doc : DocId) :
    ¬ Common (fun child => (left child).map Visit.span) doc := by
  intro common
  obtain ⟨child, none⟩ := barren doc
  exact (common_iff.mp common).2 child none

end Nearness

namespace Lineup

open Nearness

variable {serves : Visits → σ → Prop} {left ready : Fin size → Visits}
  {reached : Lineup σ size} {doc : DocId}

/-- Heads that are together are in the first document that all had left. -/
theorem Together.isLeast_common (together : Together doc reached)
    (lists : Lists serves ready reached) (narrows : Narrows left ready)
    (filled : 0 < size) :
    IsLeast {doc | Common (fun child => (left child).map Visit.span) doc}
      doc := by
  constructor
  · refine ⟨filled, fun child => ?_⟩
    obtain ⟨visit, rest, isReady, isHead⟩ := lists.exists_eq_cons child
    refine ⟨visit.span, List.mem_map_of_mem ((narrows.passes child).subset ?_),
      ?_⟩
    · rw [isReady]
      exact List.mem_cons_self
    · rw [isHead, together child]
  · intro other common
    have visited := (common_iff.mp common).2
    have kept := narrows.keeps other visited ⟨0, filled⟩
    obtain ⟨visit, member⟩ := List.exists_mem_of_ne_nil _
      (kept.symm ▸ visited ⟨0, filled⟩)
    obtain ⟨isReady, same⟩ := Visits.mem_inside.mp member
    rw [← together ⟨0, filled⟩, ← same]
    exact lists.le_doc isReady

/-- Each of them is the first span of its child in that document. -/
theorem Together.find?_eq (together : Together doc reached)
    (lists : Lists serves ready reached) (narrows : Narrows left ready)
    (filled : 0 < size) (child : Fin size) :
    ((left child).map Visit.span).find? (·.doc = doc) =
      some reached.heads[child] := by
  have common := (together.isLeast_common lists narrows filled).1
  have kept := narrows.keeps doc (common_iff.mp common).2 child
  obtain ⟨visit, rest, isReady, isHead⟩ := lists.exists_eq_cons child
  have inDoc : visit.doc = doc := by
    rw [← together child, ← isHead]
  rw [isReady, Visits.inside_cons_of_eq inDoc] at kept
  rw [List.find?_map, ← List.head?_filter]
  change ((left child).inside doc).head?.map Visit.span = _
  rw [← kept, ← isHead]
  rfl

end Lineup

/-! ## Children that were only moved -/

namespace Cursor

variable [Cursor σ]

/-- A cursor that follows a plain one goes on to do so, with less to visit. -/
theorem lasting_follows (spared : Failure → Prop) (all : Visits) :
    Lasting spared fun cursor : σ =>
      ∃ plain, Follows cursor plain ∧ plain.held <:+ all := by
  rintro cursor ⟨plain, follows, isSuffix⟩ move
  have fewer : (go move plain).2.held <:+ all :=
    (Plain.held_go_suffix plain move).trans isSuffix
  refine (Follows.mirrors.moves follows move).mono ?_ ?_
  · exact fun _ _ ⟨_, still⟩ => ⟨_, still, fewer⟩
  · exact fun _ _ ⟨_, still⟩ _ => ⟨_, still, fewer⟩

/-- One that was moved to a span has left what does not come before it. -/
theorem LeadsTo.followsUpon {spared : Failure → Prop} {start cursor : σ}
    {all : Visits} {head : Span} (reaches : LeadsTo spared start cursor)
    (follows : Follows start (.fresh all)) (ordered : all.Ordered)
    (stands : standing cursor = .on head) :
    FollowsUpon (all.filter (head ≤ ·.span)) cursor ∧
      (all.filter (head ≤ ·.span)).head?.map Visit.span = some head := by
  obtain ⟨plain, still, isSuffix⟩ := reaches.holds (lasting_follows spared all)
    ⟨_, follows, List.suffix_rfl⟩
  rw [still.standing_eq] at stands
  cases plain with
  | on visit rest =>
      cases stands
      rw [ordered.filter_le_of_suffix isSuffix]
      exact ⟨still, rfl⟩
  | fresh visits => cases stands
  | ended => cases stands
  | closed => cases stands

end Cursor

/-- Children that were only moved since they were opened, each on its head. -/
structure Lineup.Stationed [Cursor σ] (opened : Vector σ size)
    (lineup : Lineup σ size) : Prop where
  all : ∀ child, child ∈ lineup.order
  moved : ∀ child : Fin size,
    LeadsTo (fun _ => True) opened[child] lineup.cursors[child]
  stands : ∀ child : Fin size,
    Cursor.standing lineup.cursors[child] = .on lineup.heads[child]

/-- What such children have left is what does not come before their heads. -/
theorem Lineup.Stationed.lists [Cursor σ] {opened : Vector σ size}
    {lineup : Lineup σ size} {all : Fin size → Visits}
    (stationed : lineup.Stationed opened)
    (follows : ∀ child : Fin size,
      Follows opened[child] (.fresh (all child)) ∧ (all child).Ordered) :
    lineup.Lists FollowsUpon fun child =>
      (all child).filter (lineup.heads[child] ≤ ·.span) where
  all := stationed.all
  served child := ((stationed.moved child).followsUpon (follows child).1
    (follows child).2 (stationed.stands child)).1
  heads child := ((stationed.moved child).followsUpon (follows child).1
    (follows child).2 (stationed.stands child)).2
  ordered child := (follows child).2.filter _

theorem Lineup.Lists.standing_eq [Cursor σ] {lineup : Lineup σ size}
    {left : Fin size → Visits} (lists : lineup.Lists FollowsUpon left)
    (child : Fin size) :
    Cursor.standing lineup.cursors[child] = .on lineup.heads[child] := by
  have follows : Follows lineup.cursors[child] (.upon (left child)) :=
    lists.served child
  rw [follows.standing_eq, Plain.standing_upon, lists.heads child]
  rfl

/-! ## Alignment -/

namespace Alignment

variable [Cursor σ] {opened : Vector σ size} {left all : Fin size → Visits}

/--
The children are in the first document in which all of them had a span left,
each on its first span there, or there is no such document and they are done.
-/
def Finds (opened : Vector σ size) (left : Fin size → List Span) :
    Option DocId → Alignment σ size → Prop
  | some doc, reached => IsLeast {doc | Common left doc} doc ∧
      ∃ lineup, reached = .running lineup ∧ lineup.Stationed opened ∧
        ∀ child, (left child).find? (·.doc = doc) = some lineup.heads[child]
  | none, reached => (∀ doc, ¬ Common left doc) ∧
      ∃ cursors, reached = .ended cursors

/-- To align children is to find the first document they all have left. -/
theorem finds_align {lineup : Lineup σ size}
    (lists : lineup.Lists FollowsUpon left)
    (moved : lineup.Held fun child =>
      LeadsTo (fun _ => True) opened[child]) :
    (onLineup Lineup.align).Meets (.running lineup)
      (Finds opened fun child => (left child).map Visit.span)
      (fun _ _ => False) := by
  by_cases filled : 0 < size
  · have aligned := Lineup.aligned_align Cursor.serves_followsUpon lists filled
    have stays := Lineup.sustains_align
      (fun child => lasting_leadsTo opened[child]) moved
    refine (meets_onLineup (aligned.and stays)).mono ?_ ?_
    · rintro _ _ (⟨rfl, further, rfl, ⟨none, _⟩, _⟩ |
        ⟨doc, further, rfl, rfl, ⟨found, _⟩, movedOn⟩)
      · exact ⟨none.not_common, _, rfl⟩
      · obtain ⟨ready, listsOn, narrows, together⟩ := found
        exact ⟨together.isLeast_common listsOn narrows filled, further, rfl,
          ⟨listsOn.all, movedOn, listsOn.standing_eq⟩,
          together.find?_eq listsOn narrows filled⟩
    · rintro _ _ ⟨_, _, ⟨impossible, _⟩, _⟩
      exact impossible
  · refine (meets_onLineup (Lineup.meets_align_of_empty filled)).mono ?_ ?_
    · rintro _ _ (⟨rfl, further, rfl, _⟩ | ⟨_, _, rfl, _, isNone, _⟩)
      · exact ⟨fun doc common => filled common.1, _, rfl⟩
      · cases isNone
    · rintro _ _ ⟨_, _, impossible⟩
      exact impossible

/-- To start children is to find the first such document from a target on. -/
theorem finds_start
    (follows : ∀ child : Fin size,
      Follows opened[child] (.fresh (all child)) ∧ (all child).Ordered)
    (target? : Option DocId) :
    (start target?).Meets (ofCursors opened)
      (Finds opened fun child => ((all child).sinceAny target?).map Visit.span)
      (fun _ _ => False) := by
  obtain ⟨gathering, isStarting, isOpened, gathers⟩ :=
    exists_gathers (fun all cursor => Follows cursor (.fresh all)) FollowsUpon
      follows
  rw [isStarting]
  have placing := Gathering.gathers_placeAll (Cursor.enters_follows target?)
    (gathers target?) gathering.order
  have unmoved : gathering.Held fun child =>
      LeadsTo (fun _ => True) opened[child] :=
    fun child => isOpened ▸ .refl
  have stays := Gathering.sustains_placeAll
    (fun child => lasting_leadsTo opened[child]) unmoved target?
    gathering.order
  apply meets_starting
  refine (placing.and stays).mono ?_ fun _ _ failed => failed.1.1
  rintro isAll placed ⟨met, moved⟩
  cases isAll with
  | false =>
      obtain ⟨child, none⟩ := met
      exact ⟨fun _ => ⟨(Nearness.barren_of_eq_nil none).not_common, _, rfl⟩,
        nofun, nofun⟩
  | true =>
      obtain ⟨further, isPlaced⟩ := met
      obtain ⟨lineup, isLineup, lists⟩ := further.lists fun child =>
        isPlaced child (.inl ((gathers target?).order child))
      refine ⟨nofun, fun _ unplaced => ?_, fun _ other isOther => ?_⟩
      · cases unplaced.symm.trans isLineup
      · cases isOther.symm.trans isLineup
        exact finds_align lists (moved.of_lineup? isLineup)

end Alignment

namespace Query

variable {children : List Query}

/--
Children without faults are aligned in the first document in which each has a
span left, its head or a later one; that document is at or after all heads.
They are started in the first one in which each has a span at all, or has one
from the target on.  Where there is no such document the alignment is over.
-/
theorem alignment_finds_common
    (faultFree : ∀ child ∈ children, child.FaultFree) :
    ∃ yields : Fin children.length → List Span,
      (∀ child, Walk.drain (children.get child).openTree =
        .ok (yields child)) ∧
      (∀ lineup : Lineup (Tree (greatestHeight children)) children.length,
        lineup.Stationed (openEach children) →
          let left := fun child : Fin children.length =>
            (yields child).filter (lineup.heads[child] ≤ ·)
          (∀ doc, Common left doc → ∀ child : Fin children.length,
            lineup.heads[child].doc ≤ doc) ∧
          ∃ doc? reached,
            Alignment.onLineup Lineup.align (.running lineup) =
              (.ok doc?, reached) ∧
            Alignment.Finds (openEach children) left doc? reached) ∧
      ∀ target? : Option DocId,
        ∃ doc? reached,
          Alignment.start target? (.ofCursors (openEach children)) =
            (.ok doc?, reached) ∧
          Alignment.Finds (openEach children)
            (fun child => (yields child).filter fun span =>
              target?.all (· ≤ span.doc)) doc? reached := by
  refine ⟨fun child => (children.get child).visits.map Visit.span,
    fun child => drain_openTree (faultFree _ (List.get_mem _ _)),
    fun lineup stationed => ?_, fun target? => ?_⟩
  · intro left
    have left_eq : left = fun child =>
        ((children.get child).visits.filter
          (lineup.heads[child] ≤ ·.span)).map Visit.span :=
      funext fun child => List.filter_map
    refine ⟨fun doc common child => ?_, ?_⟩
    · obtain ⟨span, isLeft, rfl⟩ := common.2 child
      exact Span.doc_le_of_le
        (of_decide_eq_true (List.mem_filter.mp isLeft).2)
    · rw [left_eq]
      exact (Alignment.finds_align
        (stationed.lists (follows_openEach faultFree))
        stationed.moved).exists_ok
  · have left_eq : (fun child : Fin children.length =>
        ((children.get child).visits.map Visit.span).filter fun span =>
          target?.all (· ≤ span.doc)) = fun child =>
        ((children.get child).visits.sinceAny target?).map Visit.span := by
      funext child
      cases target? with
      | none => exact List.filter_true _
      | some target => exact List.filter_map
    rw [left_eq]
    exact (Alignment.finds_start (follows_openEach faultFree)
      target?).exists_ok

/-- Three terms that share the third document and the seventh. -/
def crossingTerms : List Query :=
  List.map .term [[⟨1, 0, none⟩, ⟨3, 4, none⟩, ⟨3, 9, none⟩, ⟨7, 0, none⟩],
    [⟨2, 0, none⟩, ⟨3, 1, none⟩, ⟨5, 2, none⟩, ⟨7, 3, none⟩],
    [⟨3, 8, none⟩, ⟨6, 0, none⟩, ⟨7, 2, none⟩, ⟨7, 5, none⟩]]

theorem faultFree_crossingTerms :
    ∀ child ∈ crossingTerms, child.FaultFree := faultFree_terms _

/-- What these terms yield. -/
def crossingYields : Vector (List Span) crossingTerms.length :=
  #v[[.ofToken 1 0, .ofToken 3 4, .ofToken 3 9, .ofToken 7 0],
    [.ofToken 2 0, .ofToken 3 1, .ofToken 5 2, .ofToken 7 3],
    [.ofToken 3 8, .ofToken 6 0, .ofToken 7 2, .ofToken 7 5]]

theorem drain_crossingTerms : ∀ child : Fin crossingTerms.length,
    Walk.drain (crossingTerms.get child).openTree = .ok crossingYields[child]
  | ⟨0, _⟩ => by cbv
  | ⟨1, _⟩ => by cbv
  | ⟨2, _⟩ => by cbv

/-- The terms in the third, the second and the sixth document. -/
def crossingLineup :
    Lineup (Tree (greatestHeight crossingTerms)) crossingTerms.length where
  order := List.finRange _
  cursors := .ofFn fun child =>
    (Cursor.runs (if child.val = 1 then [.next] else [.next, .next])
      (openEach crossingTerms)[child]).2
  heads := #v[.ofToken 3 4, .ofToken 2 0, .ofToken 6 0]

theorem stationed_crossingLineup :
    crossingLineup.Stationed (openEach crossingTerms) where
  all := List.mem_finRange
  moved child := by
    have made : crossingLineup.cursors[child] = _ :=
      Vector.getElem_ofFn child.isLt
    rw [made]
    exact leadsTo_runs _ _
  stands
    | ⟨0, _⟩ => by cbv
    | ⟨1, _⟩ => by cbv
    | ⟨2, _⟩ => by cbv

/--
From there they are aligned in the seventh document, past the third, which one
of them has left; from the start they are aligned in the third.
-/
theorem crossingTerms_find_common :
    (∀ child ∈ crossingTerms, child.FaultFree) ∧
    crossingLineup.Stationed (openEach crossingTerms) ∧
    (∃ reached, Alignment.onLineup Lineup.align (.running crossingLineup) =
      (.ok (some 7), .running reached) ∧
        reached.heads = #v[.ofToken 7 0, .ofToken 7 3, .ofToken 7 2]) ∧
    ∃ reached, Alignment.start none (.ofCursors (openEach crossingTerms)) =
      (.ok (some 3), .running reached) ∧
        reached.heads = #v[.ofToken 3 4, .ofToken 3 1, .ofToken 3 8] := by
  obtain ⟨yields, drains, aligns, starts⟩ :=
    alignment_finds_common faultFree_crossingTerms
  have isYields : yields = fun child => crossingYields[child] :=
    funext fun child => Except.ok.inj
      ((drains child).symm.trans (drain_crossingTerms child))
  subst isYields
  obtain ⟨_, doc?, reached, aligned, finds⟩ :=
    aligns crossingLineup stationed_crossingLineup
  have isDoc : (Alignment.onLineup Lineup.align
      (.running crossingLineup)).1 = .ok (some 7) := by cbv
  rw [aligned] at isDoc
  cases isDoc
  obtain ⟨_, further, rfl, _, heads⟩ := finds
  obtain ⟨first?, begun, started, findsFirst⟩ := starts none
  have isFirst : (Alignment.start none
      (.ofCursors (openEach crossingTerms))).1 = .ok (some 3) := by cbv
  rw [started] at isFirst
  cases isFirst
  obtain ⟨_, first, rfl, _, firstHeads⟩ := findsFirst
  refine ⟨faultFree_crossingTerms, stationed_crossingLineup,
    ⟨further, aligned, Vector.ext fun place inside =>
      Option.some.inj ((heads ⟨place, inside⟩).symm.trans ?_)⟩,
    first, started, Vector.ext fun place inside =>
      Option.some.inj ((firstHeads ⟨place, inside⟩).symm.trans ?_)⟩
  · decide +revert
  · decide +revert

end Query

end PositionalSearch
