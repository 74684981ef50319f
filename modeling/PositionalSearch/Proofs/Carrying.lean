import PositionalSearch.Proofs.Along
import PositionalSearch.Proofs.Moves
import PositionalSearch.Proximity

/-!
# Proximity nodes over carried children

A proximity node sees of its children only how they move and stand, their
payloads and their estimates.  So children that are carried by other cursors
can be exchanged for these without a difference.
-/

namespace PositionalSearch

open Attempt (Along along_pure along_fail along_bind along_look_bind
  along_ofExcept along_ofOption along_update along_within)
open Cursor (Carries)

variable {σ τ : Type} {size : Nat}

/-! ## The children of a lineup -/

namespace Lineup

/-- Exchange the children. -/
def carry (wrap : σ → τ) (lineup : Lineup σ size) : Lineup τ size where
  order := lineup.order
  cursors := lineup.cursors.map wrap
  heads := lineup.heads

@[simp] theorem heads_carry (wrap : σ → τ) (lineup : Lineup σ size) :
    (carry wrap lineup).heads = lineup.heads := rfl

@[simp] theorem latestDocument?_carry (wrap : σ → τ)
    (lineup : Lineup σ size) :
    (carry wrap lineup).latestDocument? = lineup.latestDocument? := rfl

variable [Cursor σ] [Cursor τ] {wrap : σ → τ}

theorem along_move (carries : Carries wrap) (child : Fin size) (move : Move)
    (lineup : Lineup σ size) :
    Along (carry wrap) (Lineup.move child (Cursor.go move))
      (Lineup.move child (Cursor.go move)) lineup := by
  have went := carries.go_eq lineup.cursors[child] move
  simp only [Along, Lineup.move, carry, getElem_place, Vector.getElem_map]
    at went ⊢
  rw [went]
  cases (Cursor.go move : Attempt Failure σ _) lineup.cursors[child.val] with
  | mk outcome cursor =>
      cases outcome with
      | error failure => simp [keep, Vector.map_set]
      | ok span? =>
          cases span? with
          | none => simp [keep]
          | some span => simp [place]

omit [Cursor σ] [Cursor τ] in
theorem along_demandBeyond {υ φ : Type} {carry : υ → φ}
    (span : Span) (span? : Option Span) (state : υ) :
    Along carry (Cursor.demandBeyond span span?)
      (Cursor.demandBeyond span span?) state := by
  unfold Cursor.demandBeyond
  cases span? with
  | none => exact along_pure none state
  | some later =>
      dsimp only
      split
      · exact along_pure _ state
      · exact along_fail _ state

theorem along_agree (carries : Carries wrap) (target : DocId)
    (children : List (Fin size)) (lineup : Lineup σ size) :
    Along (carry wrap) (agree target children) (agree target children)
      lineup := by
  induction children generalizing lineup with
  | nil => exact along_pure _ lineup
  | cons child rest ih =>
      refine along_look_bind ?_
      by_cases beyond : target < lineup.heads[child].doc
      · simp only [heads_carry, beyond, ↓reduceDIte]
        exact along_pure _ lineup
      · simp only [heads_carry, beyond, ↓reduceDIte]
        by_cases inDoc : lineup.heads[child].doc = target
        · simp only [inDoc, ↓reduceIte]
          exact ih lineup
        · simp only [inDoc, ↓reduceIte]
          refine along_bind (along_move carries child (.seek target) lineup)
            ?_
          rintro (_ | landed) reached _
          · exact along_pure _ reached
          · dsimp only
            split
            · exact along_pure _ reached
            · exact ih reached

theorem along_alignAt (carries : Carries wrap) (target : DocId)
    (lineup : Lineup σ size) :
    Along (carry wrap) (alignAt target) (alignAt target) lineup := by
  rw [alignAt, alignAt]
  refine along_look_bind ?_
  refine along_bind (along_agree carries target lineup.order lineup) ?_
  rintro (_ | ⟨later, beyond⟩ | _) reached _
  · exact along_pure _ reached
  · have := DocId.room_lt_room beyond
    exact along_alignAt carries later reached
  · exact along_pure _ reached
termination_by target.room

theorem along_align (carries : Carries wrap) (lineup : Lineup σ size) :
    Along (carry wrap) Lineup.align Lineup.align lineup := by
  refine along_look_bind ?_
  simp only [latestDocument?_carry]
  cases lineup.latestDocument? with
  | none => exact along_pure _ lineup
  | some target => exact along_alignAt carries target lineup

theorem along_seekLagging (carries : Carries wrap) (target : DocId)
    (children : List (Fin size)) (lineup : Lineup σ size) :
    Along (carry wrap) (seekLagging target children)
      (seekLagging target children) lineup := by
  induction children generalizing lineup with
  | nil => exact along_pure _ lineup
  | cons child rest ih =>
      refine along_look_bind ?_
      by_cases behind : lineup.heads[child].doc < target
      · simp only [heads_carry, behind, ↓reduceIte]
        refine along_bind (along_move carries child (.seek target) lineup) ?_
        rintro (_ | landed) reached _
        · exact along_pure _ reached
        · exact ih reached
      · simp only [heads_carry, behind, ↓reduceIte]
        exact ih lineup

theorem along_seek (carries : Carries wrap) (target : DocId)
    (lineup : Lineup σ size) :
    Along (carry wrap) (Lineup.seek target) (Lineup.seek target) lineup := by
  refine along_look_bind ?_
  refine along_bind
    (along_seekLagging carries target lineup.order lineup) ?_
  rintro (_ | _) reached _
  · exact along_pure _ reached
  · exact along_align carries reached

theorem along_resume (carries : Carries wrap) (pivot : Fin size)
    (doc : DocId) (lineup : Lineup σ size) :
    Along (carry wrap) (Lineup.resume pivot doc) (Lineup.resume pivot doc)
      lineup := by
  refine along_bind (along_move carries pivot .next lineup) ?_
  rintro (_ | head) reached _
  · exact along_pure _ reached
  · dsimp only
    split
    · exact along_pure _ reached
    · exact along_align carries reached

/-! ## Searches -/

theorem along_advanceBeyond (carries : Carries wrap) (child : Fin size)
    (head : Span) (lineup : Lineup σ size) :
    Along (carry wrap) (advanceBeyond child head) (advanceBeyond child head)
      lineup :=
  along_bind (along_move carries child .next lineup) fun span? reached _ =>
    along_demandBeyond head span? reached

theorem along_catchUp (carries : Carries wrap) (doc : DocId)
    (floor : Position) (child : Fin size) (head : Span)
    (lineup : Lineup σ size) :
    Along (carry wrap) (catchUp doc floor child head)
      (catchUp doc floor child head) lineup := by
  rw [catchUp, catchUp]
  split
  · split
    · refine along_bind (along_advanceBeyond carries child head lineup) ?_
      rintro (_ | ⟨later, beyond⟩) reached _
      · exact along_pure _ reached
      · have := Span.room_lt_room beyond
        exact along_catchUp carries doc floor child later reached
    · exact along_pure _ lineup
  · exact along_pure _ lineup
termination_by head.room

theorem along_stretch (carries : Carries wrap) (doc : DocId)
    (floor : Position) (children : List (Fin size))
    (lineup : Lineup σ size) :
    Along (carry wrap) (stretch doc floor children)
      (stretch doc floor children) lineup := by
  induction children generalizing floor lineup with
  | nil => exact along_pure _ lineup
  | cons child rest ih =>
      refine along_look_bind ?_
      refine along_bind (along_catchUp carries doc floor child
        lineup.heads[child] lineup) ?_
      rintro (head | _ | _) reached _
      · exact ih head.stop reached
      · exact along_pure _ reached
      · exact along_pure _ reached

theorem along_searchInOrder (carries : Carries wrap) (slop : Nat)
    (last : Option Span) (doc : DocId) (filled : 0 < size) (first : Span)
    (lineup : Lineup σ size) :
    Along (carry wrap) (searchInOrder slop last doc filled first)
      (searchInOrder slop last doc filled first) lineup := by
  rw [searchInOrder, searchInOrder]
  refine along_bind (along_stretch carries doc first.stop _ lineup) ?_
  rintro (_ | _ | _) middle _
  · refine along_look_bind ?_
    refine along_bind (along_ofOption _ _ middle) fun candidate same _ => ?_
    refine along_bind (along_ofOption _ _ same) fun slack here _ => ?_
    split
    · exact along_pure _ here
    · refine along_bind (along_advanceBeyond carries _ first here) ?_
      rintro (_ | ⟨later, beyond⟩) reached _
      · exact along_pure _ reached
      · have := Span.room_lt_room beyond
        dsimp only
        split
        · exact along_searchInOrder carries slop last doc filled later reached
        · exact along_pure _ reached
  · exact along_pure _ middle
  · exact along_pure _ middle
termination_by first.room

theorem along_nextBeyond (carries : Carries wrap) (child : Fin size)
    (head : Span) (lineup : Lineup σ size) :
    Along (carry wrap)
      (Attempt.within (fun lineup => lineup.cursors[child])
        (fun lineup cursor => lineup.keep child cursor)
        (Cursor.nextBeyond head))
      (Attempt.within (fun lineup => lineup.cursors[child])
        (fun lineup cursor => lineup.keep child cursor)
        (Cursor.nextBeyond head)) lineup := by
  have moved : Along wrap (Cursor.nextBeyond head) (Cursor.nextBeyond head)
      lineup.cursors[child] :=
    along_bind (carries.go_eq _ .next) fun span? reached _ =>
      along_demandBeyond head span? reached
  refine along_within ?_ ?_ moved
  · simp [carry]
  · simp [carry, keep]

theorem along_searchAnyOrder (carries : Carries wrap) (slop : Nat)
    (last : Option Span) (doc : DocId) (filled : 0 < size)
    (lineup : Lineup σ size) :
    Along (carry wrap) (searchAnyOrder slop last doc filled)
      (searchAnyOrder slop last doc filled) lineup := by
  cases bounded : Span.ofBounds? doc
      lineup.heads[leastChild lineup.heads filled].start
      (latestStop lineup.heads) with
  | none =>
      exact (along_fail _ lineup).congr
        (searchAnyOrder_of_unbounded rfl bounded)
        (searchAnyOrder_of_unbounded rfl bounded)
  | some window =>
      by_cases accepted : window.length ≤ slop + covered lineup.heads ∧
          isNew last window
      · exact (along_pure _ lineup).congr
          (searchAnyOrder_of_accepted rfl bounded accepted)
          (searchAnyOrder_of_accepted rfl bounded accepted)
      · apply Along.congr (searchAnyOrder_of_refused rfl bounded accepted)
          (searchAnyOrder_of_refused rfl bounded accepted)
        apply along_bind (along_nextBeyond carries _ _ lineup)
        rintro (_ | ⟨later, beyond⟩) reached outcome
        · exact along_pure _ reached
        · obtain ⟨_, rfl⟩ := Prod.mk.inj outcome
          apply along_bind (along_update (by simp [carry, keep]))
          intro _ reached updated
          obtain ⟨_, rfl⟩ := Prod.mk.inj updated
          have := lineup.room_place_lt (leastChild lineup.heads filled)
            ((Cursor.nextBeyond
              lineup.heads[leastChild lineup.heads filled]).run
                lineup.cursors[leastChild lineup.heads filled]).2 beyond
          split
          · exact along_searchAnyOrder carries slop last doc filled _
          · exact along_pure _ _
termination_by lineup.room

theorem along_searchIn (carries : Carries wrap) (arrangement : Arrangement)
    (slop : Nat) (last : Option Span) (doc : DocId)
    (lineup : Lineup σ size) :
    Along (carry wrap) (searchIn arrangement slop last doc)
      (searchIn arrangement slop last doc) lineup := by
  unfold searchIn
  by_cases filled : 0 < size
  · simp only [filled, ↓reduceDIte]
    cases arrangement with
    | inOrder =>
        refine along_look_bind ?_
        exact along_searchInOrder carries slop last doc filled _ lineup
    | anyOrder =>
        exact along_searchAnyOrder carries slop last doc filled lineup
  · simp only [filled, ↓reduceDIte]
    exact along_pure _ lineup

theorem along_search (carries : Carries wrap) (arrangement : Arrangement)
    (slop : Nat) (last : Option Span) (doc : DocId)
    (lineup : Lineup σ size) :
    Along (carry wrap) (Lineup.search arrangement slop last doc)
      (Lineup.search arrangement slop last doc) lineup := by
  rw [Lineup.search, Lineup.search]
  refine along_bind
    (along_searchIn carries arrangement slop last doc lineup) ?_
  rintro (found | _ | _) middle _
  · exact along_pure _ middle
  · refine along_bind (along_align carries middle) ?_
    rintro (_ | later) reached _
    · exact along_pure _ reached
    · dsimp only
      split
      · rename_i beyond
        have := DocId.room_lt_room beyond
        exact along_search carries arrangement slop last later reached
      · exact along_fail _ reached
  · exact along_pure _ middle
termination_by doc.room

end Lineup

/-! ## The children of a node -/

namespace Gathering

/-- Exchange the children. -/
def carry (wrap : σ → τ) (gathering : Gathering σ size) :
    Gathering τ size where
  order := gathering.order
  cursors := gathering.cursors.map wrap
  found := gathering.found

@[simp] theorem found_carry (wrap : σ → τ) (gathering : Gathering σ size) :
    (gathering.carry wrap).found = gathering.found := rfl

theorem lineup?_carry (wrap : σ → τ) (gathering : Gathering σ size) :
    (gathering.carry wrap).lineup? =
      gathering.lineup?.map (Lineup.carry wrap) := by
  unfold lineup?
  by_cases placed : ∀ child : Fin size, gathering.found[child].isSome
  · rw [dif_pos placed, dif_pos (show ∀ child : Fin size,
      (gathering.carry wrap).found[child].isSome from placed)]
    rfl
  · rw [dif_neg placed, dif_neg (show ¬ ∀ child : Fin size,
      (gathering.carry wrap).found[child].isSome from placed)]
    rfl

variable [Cursor σ] [Cursor τ] {wrap : σ → τ}

theorem along_enter (carries : Carries wrap) (target? : Option DocId)
    (child : Fin size) (gathering : Gathering σ size) :
    Along (carry wrap) (enter target? child) (enter target? child)
      gathering := by
  have entered : (Cursor.enter target? : Attempt Failure τ _)
      (wrap gathering.cursors[child]) =
        (((Cursor.enter target? : Attempt Failure σ _)
            gathering.cursors[child]).1,
          wrap ((Cursor.enter target? : Attempt Failure σ _)
            gathering.cursors[child]).2) := by
    cases target? with
    | none => exact carries.go_eq _ .next
    | some target => exact carries.go_eq _ (.seek target)
  simp only [Along, enter, carry, getElem_place, Vector.getElem_map]
    at entered ⊢
  rw [entered]
  cases (Cursor.enter target? : Attempt Failure σ _)
      gathering.cursors[child.val] with
  | mk outcome cursor =>
      cases outcome with
      | error failure => simp [Vector.map_set]
      | ok span? => cases span? <;> simp

theorem along_placeAll (carries : Carries wrap) (target? : Option DocId)
    (children : List (Fin size)) (gathering : Gathering σ size) :
    Along (carry wrap) (placeAll target? children)
      (placeAll target? children) gathering := by
  induction children generalizing gathering with
  | nil => exact along_pure _ gathering
  | cons child rest ih =>
      refine along_look_bind ?_
      simp only [found_carry]
      cases gathering.found[child] with
      | some span => exact ih gathering
      | none =>
          refine along_bind (along_enter carries target? child gathering) ?_
          rintro (_ | span) reached _
          · exact along_pure _ reached
          · exact ih reached

end Gathering

namespace Alignment

/-- Exchange the children. -/
def carry (wrap : σ → τ) : Alignment σ size → Alignment τ size
  | .starting gathering => .starting (gathering.carry wrap)
  | .running lineup => .running (lineup.carry wrap)
  | .ended cursors => .ended (cursors.map wrap)

theorem ofLineup_carry {α : Type} (wrap : σ → τ)
    (result : Except Failure (Option α) × Lineup σ size) :
    ofLineup (result.1, result.2.carry wrap) =
      ((ofLineup result).1, (ofLineup result).2.carry wrap) := by
  obtain ⟨outcome, lineup⟩ := result
  cases outcome with
  | error failure => rfl
  | ok value? => cases value? <;> rfl

theorem along_onLineup {α : Type} {wrap : σ → τ}
    {work : Attempt Failure (Lineup σ size) (Option α)}
    {carried : Attempt Failure (Lineup τ size) (Option α)}
    (along : ∀ lineup, Along (Lineup.carry wrap) work carried lineup)
    (alignment : Alignment σ size) :
    Along (carry wrap) (onLineup work) (onLineup carried) alignment := by
  cases alignment with
  | starting gathering => rfl
  | ended cursors => rfl
  | running lineup =>
      have same := along lineup
      simp only [Along, carry, onLineup] at same ⊢
      rw [same]
      exact ofLineup_carry wrap (work lineup)

variable [Cursor σ] [Cursor τ] {wrap : σ → τ}

theorem along_start (carries : Carries wrap) (target? : Option DocId)
    (alignment : Alignment σ size) :
    Along (carry wrap) (start target?) (start target?) alignment := by
  cases alignment with
  | running lineup =>
      exact along_onLineup (Lineup.along_align carries) (.running lineup)
  | ended cursors => rfl
  | starting gathering =>
      have placing := Gathering.along_placeAll carries target?
        gathering.order gathering
      simp only [Along, carry, start] at placing ⊢
      rw [show (gathering.carry wrap).order = gathering.order from rfl,
        placing]
      cases Gathering.placeAll target? gathering.order gathering with
      | mk outcome reached =>
          cases outcome with
          | error failure => rfl
          | ok all =>
              cases all with
              | false => rfl
              | true =>
                  simp only [Gathering.lineup?_carry]
                  cases reached.lineup? with
                  | none => rfl
                  | some lineup =>
                      have same := Lineup.along_align carries lineup
                      simp only [Along, Option.map_some] at same ⊢
                      rw [same]
                      exact ofLineup_carry wrap (Lineup.align lineup)

end Alignment

namespace Proximity

/-- Exchange the children. -/
def carry (wrap : σ → τ) (node : Proximity σ size) : Proximity τ size where
  arrangement := node.arrangement
  slop := node.slop
  collects := node.collects
  alignment := node.alignment.carry wrap
  pivot? := node.pivot?
  payloads := node.payloads
  standing := node.standing
  estimate := node.estimate

variable [Cursor σ] [Cursor τ] {wrap : σ → τ}

omit [Cursor σ] [Cursor τ] in
theorem along_aligning {α : Type}
    {work : Attempt Failure (Alignment σ size) α}
    {carried : Attempt Failure (Alignment τ size) α} {node : Proximity σ size}
    (along : Along (Alignment.carry wrap) work carried node.alignment) :
    Along (carry wrap) (aligning work) (aligning carried) node :=
  along_within rfl (fun _ => rfl) along

omit [Cursor σ] [Cursor τ] in
theorem along_finish (node : Proximity σ size) :
    Along (carry wrap) finish finish node :=
  along_bind (along_update rfl) fun _ reached _ => along_pure _ reached

theorem along_collectFrom (carries : Carries wrap) (cursors : List σ)
    (payloads : List Payload) :
    Along (fun payloads : List Payload => payloads) (collectFrom cursors)
      (collectFrom (cursors.map wrap)) payloads := by
  induction cursors generalizing payloads with
  | nil => exact along_pure _ payloads
  | cons cursor rest ih =>
      simp only [List.map_cons, collectFrom, carries.payloads_eq]
      refine along_bind (along_ofExcept _ payloads) fun stored same _ => ?_
      exact along_bind (along_update rfl) fun _ reached _ => ih reached

omit [Cursor σ] [Cursor τ] in
theorem children_carry (node : Proximity σ size) :
    (node.carry wrap).children = node.children.map wrap := by
  unfold children carry
  cases node.alignment <;>
    simp [Alignment.carry, Alignment.cursors, Gathering.carry, Lineup.carry,
      Vector.toList_map]

theorem along_collect (carries : Carries wrap) (node : Proximity σ size) :
    Along (carry wrap) collect collect node := by
  refine along_bind (along_update rfl) fun _ reached _ => ?_
  refine along_look_bind ?_
  by_cases collects : reached.collects
  · simp only [show (carry wrap reached).collects = true from collects,
      collects, ↓reduceIte, children_carry]
    exact along_within rfl (fun _ => rfl)
      (along_collectFrom carries reached.children reached.payloads)
  · simp only [show ¬ (carry wrap reached).collects = true from collects,
      collects]
    exact along_pure _ reached

theorem along_searchFrom (carries : Carries wrap) (doc : DocId)
    (node : Proximity σ size) :
    Along (carry wrap) (searchFrom doc) (searchFrom doc) node := by
  refine along_look_bind ?_
  refine along_bind (along_aligning (Alignment.along_onLineup
    (Lineup.along_search carries node.arrangement node.slop
      node.standing.span? doc) _)) ?_
  rintro (_ | found) reached _
  · exact along_finish reached
  · refine along_bind (along_update rfl) fun _ noted _ => ?_
    refine along_bind (along_collect carries noted) fun _ collected _ => ?_
    exact along_bind (along_update rfl) fun _ last _ => along_pure _ last

theorem along_settle (carries : Carries wrap) (doc? : Option DocId)
    (node : Proximity σ size) :
    Along (carry wrap) (settle doc?) (settle doc?) node := by
  cases doc? with
  | none => exact along_finish node
  | some doc => exact along_searchFrom carries doc node

theorem along_resume (carries : Carries wrap) (node : Proximity σ size) :
    Along (carry wrap) resume resume node := by
  refine along_look_bind ?_
  have onward : ∀ alignment, node.alignment = alignment →
      Along (carry wrap)
        (do
          let doc ← Attempt.ofExcept node.standing.doc
          let pivot ← Attempt.ofOption (.breach .unplacedChild) node.pivot?
          aligning (Alignment.onLineup (Lineup.resume pivot doc)))
        (do
          let doc ← Attempt.ofExcept node.standing.doc
          let pivot ← Attempt.ofOption (.breach .unplacedChild) node.pivot?
          aligning (Alignment.onLineup (Lineup.resume pivot doc))) node := by
    intro _ _
    refine along_bind (along_ofExcept _ node) fun doc same _ => ?_
    refine along_bind (along_ofOption _ _ same) fun pivot here _ => ?_
    exact along_aligning (Alignment.along_onLineup
      (Lineup.along_resume carries pivot doc) _)
  cases which : node.alignment with
  | starting gathering =>
      simp only [carry, Alignment.carry, which]
      exact along_aligning (Alignment.along_start carries none _)
  | running lineup =>
      simp only [carry, Alignment.carry, which]
      exact onward _ which
  | ended cursors =>
      simp only [carry, Alignment.carry, which]
      exact onward _ which

theorem along_resumeAt (carries : Carries wrap) (target : DocId)
    (node : Proximity σ size) :
    Along (carry wrap) (resumeAt target) (resumeAt target) node := by
  refine along_look_bind ?_
  cases which : node.alignment with
  | starting gathering =>
      simp only [carry, Alignment.carry, which]
      exact along_aligning (Alignment.along_start carries (some target) _)
  | running lineup =>
      simp only [carry, Alignment.carry, which]
      exact along_aligning (Alignment.along_onLineup
        (Lineup.along_seek carries target) _)
  | ended cursors =>
      simp only [carry, Alignment.carry, which]
      exact along_aligning (Alignment.along_onLineup
        (Lineup.along_seek carries target) _)

theorem along_next (carries : Carries wrap) (node : Proximity σ size) :
    Along (carry wrap) next next node := by
  refine along_look_bind ?_
  refine along_bind (along_ofExcept _ node) ?_
  rintro (_ | _) same _
  · exact along_pure _ same
  · exact along_bind (along_resume carries same) fun doc? reached _ =>
      along_settle carries doc? reached

theorem along_seek (carries : Carries wrap) (target : DocId)
    (node : Proximity σ size) :
    Along (carry wrap) (Cursor.seek target) (Cursor.seek target) node := by
  refine along_look_bind ?_
  refine along_bind (along_ofExcept _ node) ?_
  rintro (_ | _ | _) same _
  · exact along_pure _ same
  · exact along_next carries same
  · exact along_bind (along_resumeAt carries target same)
      fun doc? reached _ => along_settle carries doc? reached

/-- A node over carried children is carried by the node over the others. -/
theorem carries (carries : Carries wrap) :
    Carries (carry wrap : Proximity σ size → Proximity τ size) where
  go_eq node move := by
    cases move with
    | next => exact along_next carries node
    | seek target => exact along_seek carries target node
  standing_eq _ := rfl
  payloads_eq _ := rfl
  estimate_eq _ := rfl

/-- A fresh node over exchanged children is the fresh node exchanged. -/
theorem ofCursors_map
    (estimates : ∀ cursor : σ, Cursor.estimate (wrap cursor) =
      Cursor.estimate cursor)
    (arrangement : Arrangement) (slop : Nat) (collects : Bool)
    (cursors : Vector σ size) :
    ofCursors arrangement slop collects (cursors.map wrap) =
      (ofCursors arrangement slop collects cursors).carry wrap := by
  have mapped : (cursors.map wrap).toList.map Cursor.estimate =
      cursors.toList.map Cursor.estimate := by
    simp [Vector.toList_map, estimates, Function.comp_def]
  simp only [ofCursors, Proximity.carry, Alignment.ofCursors,
    Alignment.carry, Gathering.carry, mapped, getElem_place,
    Vector.getElem_map, estimates]

end Proximity

end PositionalSearch
