import PositionalSearch.Proofs.Follow.Matches
import PositionalSearch.Proofs.Order.Lineup
import PositionalSearch.Proofs.Plain

/-!
# Lineups over what their children have left

Each child of a lineup has some visits left, its head first.  Work on a lineup
passes visits, and no match is lost by that: children are brought into a
document that all of them can still visit, and inside a document a search
passes what its arrangements pass.  A move of a child may fail, and what the
child has left is then known as well.
-/

namespace PositionalSearch

open Cursor (Served Serves)

variable {size : Nat}

/-! ## Passing visits without losing a match -/

namespace Nearness

/-- No visit is before a document. -/
def From (doc : DocId) (left : Fin size → Visits) : Prop :=
  ∀ child, ∀ visit ∈ left child, doc ≤ visit.doc

/-- Some child has left a document behind. -/
def Past (doc : DocId) (left : Fin size → Visits) : Prop :=
  ∃ child, ∀ visit ∈ left child, doc < visit.doc

/-- No document is visited by all children. -/
def Barren (left : Fin size → Visits) : Prop :=
  ∀ doc, ∃ child, (left child).inside doc = []

/-- No visit is left that was not left before. -/
def Passes (left ready : Fin size → Visits) : Prop :=
  ∀ child, (ready child).Sublist (left child)

/-- Visits were passed, but none of a document that all children visit. -/
structure Narrows (left ready : Fin size → Visits) : Prop where
  passes : Passes left ready
  keeps : ∀ doc, (∀ child, (left child).inside doc ≠ []) →
    ∀ child, (ready child).inside doc = (left child).inside doc

variable {left middle ready : Fin size → Visits} {doc target : DocId}

theorem passes_update {child : Fin size} {visits : Visits}
    (sublist : visits.Sublist (left child)) :
    Passes left (Function.update left child visits) := by
  intro other
  by_cases same : other = child
  · subst same
    rw [Function.update_self]
    exact sublist
  · rw [Function.update_of_ne same]

theorem passes_pass (child : Fin size) (left : Fin size → Visits) :
    Passes left (pass child left) := passes_update (List.tail_sublist _)

theorem Passes.trans (first : Passes left middle)
    (second : Passes middle ready) : Passes left ready := fun child =>
  (second child).trans (first child)

theorem Passes.from (passes : Passes left ready) (since : From doc left) :
    From doc ready := fun child visit member =>
  since child visit ((passes child).subset member)

theorem Passes.past (passes : Passes left ready) (past : Past doc left) :
    Past doc ready := by
  obtain ⟨child, beyond⟩ := past
  exact ⟨child, fun visit member =>
    beyond visit ((passes child).subset member)⟩

theorem Narrows.refl : Narrows left left :=
  ⟨fun _ => List.Sublist.refl _, fun _ _ _ => rfl⟩

theorem Narrows.trans (first : Narrows left middle)
    (second : Narrows middle ready) : Narrows left ready := by
  refine ⟨first.passes.trans second.passes, ?_⟩
  intro doc visited child
  have kept := first.keeps doc visited
  rw [second.keeps doc (fun other => (kept other).symm ▸ visited other) child,
    kept child]

theorem Narrows.barren (narrows : Narrows left ready) (barren : Barren ready) :
    Barren left := by
  intro doc
  by_contra visited
  have visited : ∀ child, (left child).inside doc ≠ [] := fun child none =>
    visited ⟨child, none⟩
  obtain ⟨child, none⟩ := barren doc
  rw [narrows.keeps doc visited child] at none
  exact visited child none

theorem Narrows.allMatches_eq (narrows : Narrows left ready)
    (ordered : ∀ child, (left child).Ordered) (rule : Nearness) :
    rule.allMatches ready = rule.allMatches left := by
  refine allMatches_congr ordered
    (fun child => (ordered child).sublist (narrows.passes child)) ?_
  rintro doc (visited | visited)
  · exact narrows.keeps doc visited
  · refine narrows.keeps doc fun child none => ?_
    have shorter : (Visits.inside doc (ready child)).Sublist
        (Visits.inside doc (left child)) := (narrows.passes child).filter _
    rw [none] at shorter
    exact visited child (List.sublist_nil.mp shorter)

/-- A child that has nothing left visits no document. -/
theorem barren_of_eq_nil {child : Fin size} (none : left child = []) :
    Barren left := fun doc => ⟨child, by rw [none]; rfl⟩

theorem Barren.allMatches_eq (barren : Barren left) (rule : Nearness) :
    rule.allMatches left = [] := by
  refine List.eq_nil_iff_forall_not_mem.mpr fun visit member => ?_
  obtain ⟨child, none⟩ := barren visit.doc
  obtain ⟨other, isOther, same⟩ := exists_mem_of_mem_allMatches member child
  have inDoc : other ∈ (left child).inside visit.doc :=
    Visits.mem_inside.mpr ⟨isOther, same⟩
  rw [none] at inDoc
  exact absurd inDoc List.not_mem_nil

/-- A child that is behind a document some child is in can pass up to it. -/
theorem narrows_update {child other : Fin size} {visits : Visits}
    (reached : ∀ visit ∈ left other, target ≤ visit.doc)
    (passes : visits.Sublist (left child))
    (keeps : ∀ doc, target ≤ doc →
      visits.inside doc = (left child).inside doc) :
    Narrows left (Function.update left child visits) := by
  refine ⟨passes_update passes, ?_⟩
  · intro doc visited each
    by_cases same : each = child
    · subst same
      rw [Function.update_self]
      obtain ⟨visit, member⟩ := List.exists_mem_of_ne_nil _ (visited other)
      obtain ⟨isLeft, inDoc⟩ := Visits.mem_inside.mp member
      exact keeps doc (inDoc ▸ reached visit isLeft)
    · rw [Function.update_of_ne same]

/-- A child seeks a document that some child has reached. -/
theorem narrows_since
    (reaches : ∃ other, ∀ visit ∈ left other, target ≤ visit.doc)
    (child : Fin size) :
    Narrows left
      (Function.update left child ((left child).since target)) := by
  obtain ⟨other, reached⟩ := reaches
  exact narrows_update reached List.filter_sublist
    fun doc after => Visits.inside_since_of_le after

/-- A child has nothing left in a document that some child has reached. -/
theorem barren_of_since_eq_nil {child : Fin size}
    (reaches : ∃ other, ∀ visit ∈ left other, target ≤ visit.doc)
    (none : (left child).since target = []) : Barren left := by
  intro doc
  by_cases after : target ≤ doc
  · refine ⟨child, ?_⟩
    rw [← Visits.inside_since_of_le after, none]
    rfl
  · obtain ⟨other, reached⟩ := reaches
    refine ⟨other, List.filter_eq_nil_iff.mpr fun visit member => ?_⟩
    rw [decide_eq_true_eq]
    rintro rfl
    exact after (reached visit member)

theorem Narrows.reaches (narrows : Narrows left ready)
    (reaches : ∃ other, ∀ visit ∈ left other, target ≤ visit.doc) :
    ∃ other, ∀ visit ∈ ready other, target ≤ visit.doc := by
  obtain ⟨other, reached⟩ := reaches
  exact ⟨other, fun visit member =>
    reached visit ((narrows.passes other).subset member)⟩

end Nearness

/-! ## One child moves -/

namespace Lineup

open Nearness

variable {σ : Type} {fails : Prop} {serves : Visits → σ → Prop}

/-- Each child has some visits left, its head first. -/
structure Lists (serves : Visits → σ → Prop) (left : Fin size → Visits)
    (lineup : Lineup σ size) : Prop where
  all : ∀ child, child ∈ lineup.order
  served : ∀ child : Fin size, serves (left child) lineup.cursors[child]
  heads : ∀ child : Fin size,
    (left child).head?.map Visit.span = some lineup.heads[child]
  ordered : ∀ child, (left child).Ordered

variable {lineup : Lineup σ size} {left : Fin size → Visits}

/-- The head is the span of the first visit. -/
theorem Lists.exists_eq_cons (lists : Lists serves left lineup)
    (child : Fin size) :
    ∃ visit rest, left child = visit :: rest ∧
      visit.span = lineup.heads[child] := by
  obtain ⟨visit, first, span⟩ :=
    Option.map_eq_some_iff.mp (lists.heads child)
  obtain ⟨rest, isLeft⟩ := List.head?_eq_some_iff.mp first
  exact ⟨visit, rest, isLeft, span⟩

/-- What a child has left is in the document of its head or after it. -/
theorem Lists.le_doc (lists : Lists serves left lineup) {child : Fin size}
    {visit : Visit} (member : visit ∈ left child) :
    lineup.heads[child].doc ≤ visit.doc := by
  obtain ⟨first, rest, isLeft, span⟩ := lists.exists_eq_cons child
  have ordered := lists.ordered child
  rw [isLeft] at member ordered
  rw [← span]
  rcases List.mem_cons.mp member with rfl | later
  · exact UInt64.le_refl _
  · exact ordered.doc_le later

/-- What a child has left decides its head. -/
theorem Lists.head_eq {other : Lineup σ size} {ready : Fin size → Visits}
    (lists : Lists serves ready other) (before : Lists serves left lineup)
    {child : Fin size} (same : ready child = left child) :
    other.heads[child] = lineup.heads[child] := by
  have isHead := lists.heads child
  rw [same, before.heads child] at isHead
  exact (Option.some.inj isHead).symm

/-- One child has other visits left, its head as it was. -/
theorem Lists.keep (lists : Lists serves left lineup) (child : Fin size)
    {cursor : σ} {visits : Visits} (served : serves visits cursor)
    (same : visits.head? = (left child).head?) (ordered : visits.Ordered) :
    Lists serves (Function.update left child visits)
      (lineup.keep child cursor) := by
  refine ⟨lists.all, fun other => ?_, fun other => ?_, fun other => ?_⟩
  · simp only [Lineup.keep, getElem_set_fin]
    by_cases isChild : other = child
    · subst isChild
      simpa using served
    · rw [Function.update_of_ne isChild, if_neg (Ne.symm isChild)]
      exact lists.served other
  · by_cases isChild : other = child
    · subst isChild
      rw [Function.update_self, same]
      exact lists.heads other
    · rw [Function.update_of_ne isChild]
      exact lists.heads other
  · by_cases isChild : other = child
    · subst isChild
      rw [Function.update_self]
      exact ordered
    · rw [Function.update_of_ne isChild]
      exact lists.ordered other

/-- One child has later visits left and stands on the first of them. -/
theorem Lists.place (lists : Lists serves left lineup) (child : Fin size)
    {cursor : σ} {visit : Visit} {rest : Visits}
    (served : serves (visit :: rest) cursor)
    (ordered : Visits.Ordered (visit :: rest)) :
    Lists serves (Function.update left child (visit :: rest))
      (lineup.place child cursor visit.span) := by
  refine ⟨lists.all, fun other => ?_, fun other => ?_, fun other => ?_⟩
  · simp only [Lineup.place, getElem_set_fin]
    by_cases isChild : other = child
    · subst isChild
      simpa using served
    · rw [Function.update_of_ne isChild, if_neg (Ne.symm isChild)]
      exact lists.served other
  · simp only [Lineup.place, getElem_set_fin]
    by_cases isChild : other = child
    · subst isChild
      simp
    · rw [Function.update_of_ne isChild, if_neg (Ne.symm isChild)]
      exact lists.heads other
  · by_cases isChild : other = child
    · subst isChild
      rw [Function.update_self]
      exact ordered
    · rw [Function.update_of_ne isChild]
      exact lists.ordered other

/-- A child went to the first of some visits, or there are none. -/
def Arrives (serves : Visits → σ → Prop) (left : Fin size → Visits)
    (child : Fin size) (visits : Visits) (span? : Option Span)
    (reached : Lineup σ size) : Prop :=
  match span? with
  | some head => Lists serves (Function.update left child visits) reached ∧
      reached.heads[child] = head
  | none => visits = []

/-- A move of one child takes it to the first of its later visits. -/
theorem lists_move (lists : Lists serves left lineup) (child : Fin size)
    {visits : Visits} {step : Attempt Failure σ (Option Span)}
    (kept : Visits → Prop) (ordered : visits.Ordered)
    (met : step.Meets lineup.cursors[child] (Served serves visits)
      (fun _ reached => fails ∧ ∃ other, kept other ∧ serves other reached))
    (keeps : ∀ other, kept other → other.head? = (left child).head? ∧
      other.Ordered) :
    (Lineup.move child step).Meets lineup
      (Arrives serves left child visits)
      (fun _ reached => fails ∧ ∃ other, kept other ∧
        Lists serves (Function.update left child other) reached) := by
  cases went : step lineup.cursors[child] with
  | mk result cursor =>
      cases result with
      | error failure =>
          obtain ⟨mayFail, other, isKept, served⟩ := met.of_error went
          rw [Attempt.meets_of_error (show Lineup.move child step lineup =
            (.error failure, lineup.keep child cursor) by
            simp only [Lineup.move, went])]
          obtain ⟨same, otherOrdered⟩ := keeps other isKept
          exact ⟨mayFail, other, isKept,
            lists.keep child served same otherOrdered⟩
      | ok span? =>
          obtain ⟨rfl, served⟩ := met.of_ok went
          cases visits with
          | nil =>
              rw [Attempt.meets_of_ok (show Lineup.move child step lineup =
                (.ok none, lineup.keep child cursor) by
                simp only [Lineup.move, went, List.head?_nil,
                  Option.map_none])]
              exact rfl
          | cons visit rest =>
              rw [Attempt.meets_of_ok (show Lineup.move child step lineup =
                (.ok (some visit.span),
                  lineup.place child cursor visit.span) by
                simp only [Lineup.move, went, List.head?_cons,
                  Option.map_some])]
              have placed := lists.place child (served (List.cons_ne_nil _ _))
                ordered
              exact ⟨placed, by simp [Lineup.place]⟩

variable [Cursor σ]

/-- To advance a child is to pass its head. -/
theorem lists_advance (does : Serves fails serves)
    (lists : Lists serves left lineup) (child : Fin size) :
    (advance child).Meets lineup
      (Arrives serves left child (left child).tail)
      (fun _ reached => fails ∧ Lists serves left reached) := by
  obtain ⟨visit, rest, isLeft, _⟩ := lists.exists_eq_cons child
  have served := lists.served child
  have ordered := lists.ordered child
  rw [isLeft] at served ordered
  unfold advance
  rw [isLeft, List.tail_cons]
  have met : (Cursor.next : Attempt Failure σ _).Meets lineup.cursors[child]
      (Served serves rest) (fun _ reached => fails ∧
        ∃ other, other = visit :: rest ∧ serves other reached) :=
    (does.next served ordered).imp_failure
      fun _ _ ⟨mayFail, served⟩ => ⟨mayFail, _, rfl, served⟩
  refine (lists_move lists child (· = visit :: rest) ordered.tail met
    ?_).imp_failure ?_
  · rintro _ rfl
    exact ⟨by rw [isLeft], ordered⟩
  · rintro _ reached ⟨mayFail, _, rfl, still⟩
    rw [← isLeft, Function.update_eq_self] at still
    exact ⟨mayFail, still⟩

/-- A child that seeks a document ahead passes what is before it. -/
theorem lists_seek (does : Serves fails serves)
    (lists : Lists serves left lineup) {child : Fin size} {target : DocId}
    (behind : lineup.heads[child].doc < target) :
    (Lineup.move child (Cursor.seek target)).Meets lineup
      (Arrives serves left child ((left child).since target))
      (fun _ reached => fails ∧ ∃ other, other.Sublist (left child) ∧
        (∀ doc, target ≤ doc →
          other.inside doc = (left child).inside doc) ∧
        Lists serves (Function.update left child other) reached) := by
  obtain ⟨visit, rest, isLeft, span⟩ := lists.exists_eq_cons child
  have served := lists.served child
  have ordered := lists.ordered child
  rw [isLeft] at served ordered
  have before : visit.doc < target := by
    change visit.span.doc < target
    rw [span]
    exact behind
  have same : (left child).since target = Visits.since target rest := by
    rw [isLeft]
    exact Visits.since_cons_of_lt before
  rw [same]
  have whole : Visits.Ordered (visit :: Visits.since target rest) :=
    List.Pairwise.sublist (List.filter_sublist.cons_cons visit) ordered
  have keeps : ∀ doc, target ≤ doc →
      Visits.inside doc (visit :: Visits.since target rest) =
        Visits.inside doc (visit :: rest) := by
    intro doc reached
    have other : ¬ visit.doc = doc := fun same =>
      UInt64.not_le.mpr before (same ▸ reached)
    have inside : Visits.inside doc (Visits.since target rest) =
        Visits.inside doc rest := Visits.inside_since_of_le reached
    unfold Visits.inside at inside ⊢
    simp only [List.filter_cons, other, decide_false, Bool.false_eq_true,
      ↓reduceIte, inside]
  have met : (Cursor.seek target : Attempt Failure σ _).Meets
      lineup.cursors[child] (Served serves (Visits.since target rest))
      (fun _ reached => fails ∧ ∃ other, (other = visit :: rest ∨
        other = visit :: Visits.since target rest) ∧ serves other reached) := by
    refine (does.seek served ordered before).imp_failure ?_
    rintro _ reached ⟨mayFail, served | served⟩
    · exact ⟨mayFail, _, .inl rfl, served⟩
    · exact ⟨mayFail, _, .inr rfl, served⟩
  refine (lists_move lists child _ (ordered.tail.since target) met
    ?_).imp_failure ?_
  · rintro _ (rfl | rfl)
    · exact ⟨by rw [isLeft], ordered⟩
    · exact ⟨by rw [isLeft]; rfl, whole⟩
  · rintro _ reached ⟨mayFail, other, isKept, still⟩
    refine ⟨mayFail, other, ?_, ?_, still⟩
    · rw [isLeft]
      rcases isKept with rfl | rfl
      · exact List.Sublist.refl _
      · exact List.filter_sublist.cons_cons visit
    · rw [isLeft]
      rcases isKept with rfl | rfl
      · exact fun _ _ => rfl
      · exact keeps

/-! ## Alignment -/

/-- Work that may have failed has lost no match. -/
def Strained (fails : Prop) (serves : Visits → σ → Prop)
    (left : Fin size → Visits) (reached : Lineup σ size) : Prop :=
  fails ∧ ∃ ready, Lists serves ready reached ∧ Narrows left ready

omit [Cursor σ] in
theorem Strained.trans {ready : Fin size → Visits} {reached : Lineup σ size}
    (narrows : Narrows left ready)
    (strained : Strained fails serves ready reached) :
    Strained fails serves left reached := by
  obtain ⟨mayFail, last, lists, further⟩ := strained
  exact ⟨mayFail, last, lists, narrows.trans further⟩

/-- What a round of alignment comes to. -/
def Rounded (serves : Visits → σ → Prop) (left : Fin size → Visits)
    (children : List (Fin size)) (target : DocId) (lineup : Lineup σ size)
    (agreement : Agreement target) (reached : Lineup σ size) : Prop :=
  match agreement with
  | .agreed => ∃ ready, Lists serves ready reached ∧ Narrows left ready ∧
      Stays target lineup reached ∧
        ∀ child ∈ children, reached.heads[child].doc = target
  | .ahead later _ => ∃ ready, Lists serves ready reached ∧
      Narrows left ready ∧ ∃ other, ∀ visit ∈ ready other, later ≤ visit.doc
  | .ended => Barren left

omit [Cursor σ] in
/-- A child that is in the document takes part in the rest of the round. -/
theorem Rounded.cons {ready : Fin size → Visits} {child : Fin size}
    {rest : List (Fin size)} {target : DocId} {middle reached : Lineup σ size}
    {agreement : Agreement target} (narrows : Narrows left ready)
    (stays : Stays target lineup middle)
    (inDoc : middle.heads[child].doc = target)
    (rounded : Rounded serves ready rest target middle agreement reached) :
    Rounded serves left (child :: rest) target lineup agreement reached := by
  cases agreement with
  | agreed =>
      obtain ⟨last, lists, further, staysOn, agreed⟩ := rounded
      refine ⟨last, lists, narrows.trans further, stays.trans staysOn, ?_⟩
      intro other member
      rcases List.mem_cons.mp member with rfl | later
      · exact staysOn _ inDoc
      · exact agreed other later
  | ahead later beyond =>
      obtain ⟨last, lists, further, reaches⟩ := rounded
      exact ⟨last, lists, narrows.trans further, reaches⟩
  | ended => exact narrows.barren rounded

theorem rounded_agree (does : Serves fails serves)
    (lists : Lists serves left lineup) {target : DocId}
    (reaches : ∃ other, ∀ visit ∈ left other, target ≤ visit.doc)
    (children : List (Fin size)) :
    (agree target children).Meets lineup
      (Rounded serves left children target lineup)
      (fun _ reached => Strained fails serves left reached) := by
  induction children generalizing lineup left with
  | nil =>
      exact ⟨left, lists, .refl, fun _ inDoc => inDoc, fun _ member =>
        absurd member List.not_mem_nil⟩
  | cons child rest ih =>
      simp only [agree, Attempt.meets_bind, Attempt.meets_look]
      split
      · exact ⟨left, lists, .refl, child, fun visit member =>
          lists.le_doc member⟩
      · rename_i notBeyond
        split
        · rename_i inDoc
          apply (ih lists reaches).mono
          · intro _ _ rounded
            exact rounded.cons .refl (fun _ same => same) inDoc
          · intro _ _ strained
            exact strained
        · rename_i elsewhere
          have behind : lineup.heads[child].doc < target := by grind
          simp only [Attempt.meets_bind]
          apply (lists_seek does lists behind).mono
          · rintro (_ | landed) middle arrives
            · exact barren_of_since_eq_nil reaches arrives
            · obtain ⟨listsOn, rfl⟩ := arrives
              have narrows := narrows_since reaches child
              dsimp only
              split
              · exact ⟨_, listsOn, narrows, child, fun visit member =>
                  listsOn.le_doc member⟩
              · rename_i notPassed
                obtain ⟨visit, others, landing, span⟩ :=
                  listsOn.exists_eq_cons child
                rw [Function.update_self] at landing
                have isLanded : visit ∈ (left child).since target :=
                  landing ▸ List.mem_cons_self
                have inDoc : middle.heads[child].doc = target := by
                  apply UInt64.le_antisymm (UInt64.not_lt.mp notPassed)
                  rw [← span]
                  exact (Visits.mem_since.mp isLanded).2
                have stays : Stays target lineup middle := by
                  intro other otherIn
                  by_cases isChild : other = child
                  · subst isChild
                    rw [otherIn] at behind
                    exact absurd behind (UInt64.lt_irrefl _)
                  · rw [listsOn.head_eq lists
                      (Function.update_of_ne isChild _ _)]
                    exact otherIn
                apply (ih listsOn (narrows.reaches reaches)).mono
                · intro _ _ rounded
                  exact rounded.cons narrows stays inDoc
                · intro _ _ strained
                  exact .trans narrows strained
          · rintro _ reached ⟨mayFail, other, passes, keeps, listsOn⟩
            obtain ⟨reacher, reached⟩ := reaches
            exact ⟨mayFail, _, listsOn, narrows_update reached passes keeps⟩

/-- What aligning all children comes to. -/
def Aligned (serves : Visits → σ → Prop) (left : Fin size → Visits)
    (doc? : Option DocId) (reached : Lineup σ size) : Prop :=
  match doc? with
  | some doc => ∃ ready, Lists serves ready reached ∧ Narrows left ready ∧
      Together doc reached
  | none => Barren left

omit [Cursor σ] in
theorem Aligned.trans {ready : Fin size → Visits} {doc? : Option DocId}
    {reached : Lineup σ size} (narrows : Narrows left ready)
    (aligned : Aligned serves ready doc? reached) :
    Aligned serves left doc? reached := by
  cases doc? with
  | none => exact narrows.barren aligned
  | some doc =>
      obtain ⟨last, lists, further, together⟩ := aligned
      exact ⟨last, lists, narrows.trans further, together⟩

theorem aligned_alignAt {lineup : Lineup σ size} {left : Fin size → Visits}
    (does : Serves fails serves) (lists : Lists serves left lineup)
    (target : DocId)
    (reaches : ∃ other, ∀ visit ∈ left other, target ≤ visit.doc) :
    (alignAt target).Meets lineup
      (fun doc? reached => Aligned serves left doc? reached ∧
        ∀ doc ∈ doc?, target ≤ doc)
      (fun _ reached => Strained fails serves left reached) := by
  rw [alignAt]
  simp only [Attempt.meets_bind, Attempt.meets_look]
  apply (rounded_agree does lists reaches lineup.order).imp_answer
  rintro agreement reached rounded
  cases agreement with
  | agreed =>
      obtain ⟨ready, listsOn, narrows, _, agreed⟩ := rounded
      refine ⟨⟨ready, listsOn, narrows, fun child =>
        agreed child (lists.all child)⟩, ?_⟩
      rintro _ ⟨rfl⟩
      exact UInt64.le_refl _
  | ended => exact ⟨rounded, by simp⟩
  | ahead later beyond =>
      have := DocId.room_lt_room beyond
      obtain ⟨ready, listsOn, narrows, reachesOn⟩ := rounded
      refine (aligned_alignAt does listsOn later reachesOn).mono ?_
        fun _ _ strained => strained.trans narrows
      rintro doc? last ⟨aligned, reached⟩
      exact ⟨aligned.trans narrows, fun doc isDoc =>
        UInt64.le_trans (UInt64.le_of_lt beyond) (reached doc isDoc)⟩
termination_by target.room

omit [Cursor σ] in
/-- The latest document is that of some head, and no head is beyond it. -/
theorem latestDocument?_spec (lineup : Lineup σ size) (filled : 0 < size) :
    ∃ target, lineup.latestDocument? = some target ∧
      (∃ child : Fin size, lineup.heads[child].doc = target) ∧
        ∀ child : Fin size, lineup.heads[child].doc ≤ target := by
  unfold latestDocument?
  cases isMax : (lineup.heads.toList.map Span.doc).max? with
  | none =>
      rw [List.max?_eq_none_iff, List.map_eq_nil_iff] at isMax
      have length := congrArg List.length isMax
      rw [Vector.length_toList] at length
      exact absurd length (Nat.ne_of_gt filled)
  | some target =>
      obtain ⟨member, atMost⟩ := List.max?_eq_some_iff.mp isMax
      refine ⟨target, rfl, ?_, fun child =>
        atMost _ (List.mem_map_of_mem (by simp))⟩
      obtain ⟨head, isHead, same⟩ := List.mem_map.mp member
      obtain ⟨place, inside, rfl⟩ := List.mem_iff_getElem.mp isHead
      rw [Vector.length_toList] at inside
      exact ⟨⟨place, inside⟩, same⟩

/-- Without children there is no document to align them in. -/
theorem meets_align_of_empty (empty : ¬ 0 < size) :
    Lineup.align.Meets lineup (fun doc? reached => doc? = none ∧ reached = lineup)
      (fun _ _ => False) := by
  have latest : lineup.latestDocument? = none := by
    cases size with
    | zero => simp [Lineup.latestDocument?]
    | succ count => exact absurd (Nat.succ_pos count) empty
  simp only [Lineup.align, Attempt.meets_bind, Attempt.meets_look, latest,
    Attempt.meets_pure, and_self]

/-- Alignment finds the next document that all children visit. -/
theorem aligned_align (does : Serves fails serves)
    (lists : Lists serves left lineup) (filled : 0 < size) :
    Lineup.align.Meets lineup
      (fun doc? reached => Aligned serves left doc? reached ∧
        ∀ doc ∈ doc?, ∀ child : Fin size, lineup.heads[child].doc ≤ doc)
      (fun _ reached => Strained fails serves left reached) := by
  obtain ⟨target, isLatest, ⟨child, isHead⟩, notBeyond⟩ :=
    latestDocument?_spec lineup filled
  simp only [Lineup.align, Attempt.meets_bind, Attempt.meets_look, isLatest]
  apply (aligned_alignAt does lists target ⟨child, fun visit member =>
    isHead ▸ lists.le_doc member⟩).imp_answer
  rintro doc? reached ⟨aligned, after⟩
  exact ⟨aligned, fun doc isDoc other =>
    UInt64.le_trans (notBeyond other) (after doc isDoc)⟩

/-- Children that lag behind a document pass what they have before it. -/
theorem lists_seekLagging (does : Serves fails serves)
    (lists : Lists serves left lineup) (target : DocId)
    (children : List (Fin size)) :
    (seekLagging target children).Meets lineup
      (fun all reached =>
        if all then ∃ ready, Lists serves ready reached ∧
          ∀ child, ready child = (left child).since target ∨
            ready child = left child ∧ child ∉ children
        else ∃ child, (left child).since target = [])
      (fun _ _ => fails) := by
  induction children generalizing lineup left with
  | nil => exact ⟨left, lists, fun _ => .inr ⟨rfl, List.not_mem_nil⟩⟩
  | cons child rest ih =>
      simp only [seekLagging, Attempt.meets_bind, Attempt.meets_look]
      split
      · rename_i behind
        simp only [Attempt.meets_bind]
        refine (lists_seek does lists behind).mono ?_ fun _ _ failed => failed.1
        rintro (_ | landed) middle arrives
        · exact ⟨child, arrives⟩
        · apply (ih arrives.1).imp_answer
          rintro (_ | _) reached sought
          · obtain ⟨other, none⟩ := sought
            refine ⟨other, ?_⟩
            by_cases isChild : other = child
            · subst isChild
              rwa [Function.update_self, Visits.since_since] at none
            · rwa [Function.update_of_ne isChild] at none
          · obtain ⟨ready, further, passed⟩ := sought
            refine ⟨ready, further, fun other => ?_⟩
            have isReady := passed other
            by_cases isChild : other = child
            · subst isChild
              rw [Function.update_self, Visits.since_since] at isReady
              exact .inl (isReady.elim id And.left)
            · rw [Function.update_of_ne isChild] at isReady
              refine isReady.imp_right fun ⟨same, notLater⟩ =>
                ⟨same, fun member => ?_⟩
              exact (List.mem_cons.mp member).elim isChild notLater
      · rename_i notBehind
        have stays : (left child).since target = left child :=
          Visits.since_eq_self fun visit member =>
            UInt64.le_trans (UInt64.not_lt.mp notBehind)
              (lists.le_doc member)
        apply (ih lists).imp_answer
        rintro (_ | _) reached sought
        · exact sought
        · obtain ⟨ready, further, passed⟩ := sought
          refine ⟨ready, further, fun other => ?_⟩
          rcases passed other with isReady | ⟨same, notLater⟩
          · exact .inl isReady
          · by_cases isChild : other = child
            · subst isChild
              exact .inl (same.trans stays.symm)
            · exact .inr ⟨same, fun member =>
                (List.mem_cons.mp member).elim isChild notLater⟩

/-- A lineup that seeks a document is aligned on what is left from there. -/
theorem aligned_seek (does : Serves fails serves)
    (lists : Lists serves left lineup) (filled : 0 < size)
    (target : DocId) :
    (Lineup.seek target).Meets lineup
      (Aligned serves fun child => (left child).since target)
      (fun _ _ => fails) := by
  simp only [Lineup.seek, Attempt.meets_bind, Attempt.meets_look]
  apply (lists_seekLagging does lists target lineup.order).imp_answer
  rintro (_ | _) middle sought
  · obtain ⟨child, none⟩ := sought
    refine fun doc => ⟨child, ?_⟩
    change Visits.inside doc ((left child).since target) = []
    rw [none]
    rfl
  · obtain ⟨ready, listsOn, passed⟩ := sought
    have same : ready = fun child => (left child).since target := by
      funext child
      exact (passed child).elim id fun kept => absurd (lists.all child) kept.2
    refine (aligned_align does (same ▸ listsOn) filled).mono ?_
      fun _ _ strained => strained.1
    exact fun _ _ aligned => aligned.1

end Lineup

end PositionalSearch
