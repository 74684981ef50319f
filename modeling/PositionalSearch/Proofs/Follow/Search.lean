import PositionalSearch.Proofs.Follow.Lineup

/-!
# What a search of a document finds

A search tries the arrangements of a document one after the other.  It answers
the first of the matches that are to come, and what the children have left
then is what the other matches are read off.
-/

namespace PositionalSearch

open Cursor (Served Serves)

variable {size : Nat}

/-! ## The matches to come -/

namespace Nearness

/--
What a search of one document is shown.  A search in any order still reads the
head of a child that has left the document.
-/
def seen (rule : Nearness) (doc : DocId) (left : Fin size → Visits) :
    Fin size → Visits := fun child =>
  match rule.arrangement with
  | .inOrder => (left child).inside doc
  | .anyOrder =>
      if (left child).inside doc = [] then (left child).take 1
      else (left child).inside doc

/-- The matches to come in a document and in the later ones. -/
def outlook (rule : Nearness) (filled : 0 < size) (doc : DocId)
    (last? : Option Span) (left : Fin size → Visits) : Visits :=
  rule.slide filled doc last? (rule.seen doc left) ++
    rule.allMatches (after doc left)

/-- The matches to come; a document is over when the pivot has left it. -/
def prospects (rule : Nearness) (filled : 0 < size) (doc : DocId)
    (last? : Option Span) (pivot : Fin size) (left : Fin size → Visits) :
    Visits :=
  if (left pivot).inside doc = [] then rule.allMatches (after doc left)
  else rule.outlook filled doc last? left

/-- The payloads of a match, if they are collected. -/
def paid (rule : Nearness) (lined : Lined size) : List Payload :=
  if rule.collects then lined.payloads else []

variable {rule : Nearness} {filled : 0 < size} {doc : DocId}
  {last? : Option Span} {left ready : Fin size → Visits} {child : Fin size}

/-- While no child has left a document, all that is seen is inside. -/
theorem seen_eq_within (visited : ∀ child, (left child).inside doc ≠ []) :
    rule.seen doc left = within doc left := by
  funext child
  unfold seen within
  cases rule.arrangement with
  | inOrder => rfl
  | anyOrder => exact if_neg (visited child)

/-- Visits before a document are not seen in it. -/
theorem after_pass (inDoc : (left child).head?.any (·.doc = doc)) :
    after doc (pass child left) = after doc left := by
  funext other
  unfold after pass
  by_cases same : other = child
  · subst same
    rw [Function.update_self]
    cases isLeft : left other with
    | nil => rfl
    | cons visit rest =>
        rw [isLeft] at inDoc
        exact (Visits.beyond_cons_of_eq (by simpa using inDoc)).symm
  · rw [Function.update_of_ne same]

/-- A child in a document shows the visits that it has left there. -/
theorem pass_seen_self (inDoc : (left child).head?.any (·.doc = doc)) :
    pass child (rule.seen doc left) child =
      (pass child left child).inside doc := by
  unfold pass
  rw [Function.update_self, Function.update_self]
  cases isLeft : left child with
  | nil =>
      rw [isLeft] at inDoc
      cases inDoc
  | cons visit rest =>
      rw [isLeft] at inDoc
      have inDoc : visit.doc = doc := by simpa using inDoc
      unfold seen
      rw [isLeft, Visits.inside_cons_of_eq inDoc]
      cases rule.arrangement with
      | inOrder => rfl
      | anyOrder => rw [if_neg (List.cons_ne_nil _ _), List.tail_cons,
          List.tail_cons]

theorem pass_seen_of_ne {other : Fin size} (isOther : other ≠ child) :
    pass child (rule.seen doc left) other =
      rule.seen doc (pass child left) other := by
  unfold pass seen
  rw [Function.update_of_ne isOther, Function.update_of_ne isOther]

theorem pass_seen (inDoc : (left child).head?.any (·.doc = doc))
    (visited : (pass child left child).inside doc ≠ []) :
    pass child (rule.seen doc left) = rule.seen doc (pass child left) := by
  funext other
  by_cases isChild : other = child
  · subst isChild
    rw [pass_seen_self inDoc]
    unfold seen
    cases rule.arrangement with
    | inOrder => rfl
    | anyOrder => rw [if_neg visited]
  · exact pass_seen_of_ne isChild

/-- Passing a visit that was tried leaves what is to come after it. -/
theorem prospects_pass (inDoc : (left child).head?.any (·.doc = doc)) :
    rule.slide filled doc last? (pass child (rule.seen doc left)) ++
        rule.allMatches (after doc left) =
      rule.prospects filled doc last? child (pass child left) := by
  unfold prospects
  split
  · rename_i none
    rw [slide_eq_nil child ((pass_seen_self inDoc).trans none),
      after_pass inDoc, List.nil_append]
  · rename_i visited
    rw [pass_seen inDoc visited, outlook, after_pass inDoc]

/-- When a child has nothing left after a document, nothing follows it. -/
theorem allMatches_after_eq_nil (child : Fin size)
    (none : (left child).beyond doc = []) (rule : Nearness) :
    rule.allMatches (after doc left) = [] := by
  refine Barren.allMatches_eq (fun later => ⟨child, ?_⟩) rule
  rw [after, none]
  rfl

/-- Without a document that some child has left nothing is lost. -/
theorem allMatches_after (ordered : ∀ child, (left child).Ordered)
    (past : Past doc left) (rule : Nearness) :
    rule.allMatches (after doc left) = rule.allMatches left := by
  refine Narrows.allMatches_eq ⟨fun child => List.filter_sublist, ?_⟩ ordered
    rule
  intro later visited child
  obtain ⟨other, beyond⟩ := past
  obtain ⟨visit, member⟩ := List.exists_mem_of_ne_nil _ (visited other)
  obtain ⟨isLeft, inLater⟩ := Visits.mem_inside.mp member
  exact Visits.inside_beyond (inLater ▸ beyond visit isLeft)

/-- When the pivot has nothing left there is nothing to come. -/
theorem prospects_eq_nil (none : left child = []) :
    rule.prospects filled doc last? child left = [] := by
  have noInside : (left child).inside doc = [] := by
    rw [none]
    rfl
  unfold prospects
  rw [if_pos noInside]
  exact allMatches_after_eq_nil child (by rw [none]; rfl) rule

/-- To seek a later document is to pass the matches before it. -/
theorem prospects_since (ordered : ∀ child, (left child).Ordered)
    (inDoc : (left child).head?.any (·.doc = doc)) {target : DocId}
    (before : doc < target) :
    (rule.prospects filled doc last? child (pass child left)).since target =
      rule.allMatches fun child => (left child).since target := by
  have later : (rule.allMatches (after doc left)).since target =
      rule.allMatches fun child => (left child).since target := by
    refine (allMatches_since (fun child => (ordered child).filter _)
      target).symm.trans ?_
    exact congrArg rule.allMatches
      (funext fun child => Visits.since_beyond before)
  rw [← prospects_pass inDoc, ← later]
  unfold Visits.since
  rw [List.filter_append, List.append_left_eq_self]
  refine List.filter_eq_nil_iff.mpr fun visit member => ?_
  rw [(of_mem_slide member).1, decide_eq_true_eq]
  exact UInt64.not_le.mpr before

/-- While no child has left the first document all matches are to come. -/
theorem outlook_eq_allMatches (ordered : ∀ child, (left child).Ordered)
    (since : From doc left) (visited : ∀ child, (left child).inside doc ≠ [])
    (earlier : ∀ last ∈ last?, last.doc < doc) :
    rule.outlook filled doc last? left = rule.allMatches left := by
  rw [outlook, seen_eq_within visited,
    allMatches_eq_append filled ordered since]
  cases last? with
  | none => rfl
  | some last => rw [slide_of_doc_lt _ (earlier last rfl)]

/-- Only visits in one document were passed. -/
structure Trims (doc : DocId) (left ready : Fin size → Visits) : Prop where
  passes : Passes left ready
  after_eq : after doc ready = after doc left

theorem Trims.refl : Trims doc left left :=
  ⟨fun _ => List.Sublist.refl _, rfl⟩

theorem Trims.trans {middle : Fin size → Visits}
    (first : Trims doc left middle) (second : Trims doc middle ready) :
    Trims doc left ready :=
  ⟨first.passes.trans second.passes, second.after_eq.trans first.after_eq⟩

/-- Visits of a document were passed, but no match that is to come. -/
structure Skips (rule : Nearness) (filled : 0 < size) (doc : DocId)
    (last? : Option Span) (left ready : Fin size → Visits) : Prop where
  trims : Trims doc left ready
  stays : (∀ child, (left child).inside doc ≠ []) →
    ∀ child, (ready child).inside doc ≠ []
  slide_eq : rule.slide filled doc last? (rule.seen doc ready) =
    rule.slide filled doc last? (rule.seen doc left)

theorem Skips.refl : Skips rule filled doc last? left left :=
  ⟨.refl, id, rfl⟩

theorem Skips.trans {middle : Fin size → Visits}
    (first : Skips rule filled doc last? left middle)
    (second : Skips rule filled doc last? middle ready) :
    Skips rule filled doc last? left ready :=
  ⟨first.trims.trans second.trims, second.stays ∘ first.stays,
    second.slide_eq.trans first.slide_eq⟩

theorem Skips.outlook_eq (skips : Skips rule filled doc last? left ready) :
    rule.outlook filled doc last? ready =
      rule.outlook filled doc last? left := by
  unfold outlook
  rw [skips.slide_eq, skips.trims.after_eq]

theorem within_update (visits : Visits) :
    within doc (Function.update left child visits) =
      Function.update (within doc left) child (visits.inside doc) := by
  funext other
  by_cases same : other = child
  · subst same
    simp only [within, Function.update_self]
  · simp only [within, Function.update_of_ne same]

theorem trims_update {visits : Visits} (sublist : visits.Sublist (left child))
    (beyond : visits.beyond doc = (left child).beyond doc) :
    Trims doc left (Function.update left child visits) := by
  refine ⟨passes_update sublist, funext fun other => ?_⟩
  by_cases same : other = child
  · subst same
    simp only [after, Function.update_self, beyond]
  · simp only [after, Function.update_of_ne same]

theorem trims_pass (inDoc : (left child).head?.any (·.doc = doc)) :
    Trims doc left (pass child left) :=
  ⟨passes_pass child left, after_pass inDoc⟩

/-- A child without visits in a document has left it. -/
theorem past_of_inside_eq_nil (child : Fin size) (since : From doc left)
    (none : (left child).inside doc = []) : Past doc left := by
  refine ⟨child, fun visit member => ?_⟩
  refine UInt64.lt_of_le_of_ne (since child visit member) fun same => ?_
  have inDoc : visit ∈ (left child).inside doc :=
    Visits.mem_inside.mpr ⟨member, same.symm⟩
  rw [none] at inDoc
  exact absurd inDoc List.not_mem_nil

end Nearness

namespace Lineup

open Nearness

variable {σ : Type} [Cursor σ] {fails : Prop} {serves : Visits → σ → Prop}
  {lineup : Lineup σ size} {left : Fin size → Visits} {doc : DocId}

/-! ## Catching up -/

omit [Cursor σ] in
/-- The head of a child is in a document exactly if it has visits there. -/
theorem Lists.inside_eq_nil_iff (lists : Lists serves left lineup)
    (since : From doc left) (child : Fin size) :
    (left child).inside doc = [] ↔ lineup.heads[child].doc ≠ doc := by
  obtain ⟨visit, rest, isLeft, span⟩ := lists.exists_eq_cons child
  constructor
  · intro none inDoc
    have member : visit ∈ (left child).inside doc := by
      rw [Visits.mem_inside, isLeft]
      refine ⟨List.mem_cons_self, ?_⟩
      change visit.span.doc = doc
      rw [span]
      exact inDoc
    rw [none] at member
    exact absurd member List.not_mem_nil
  · intro elsewhere
    refine List.filter_eq_nil_iff.mpr fun other member => ?_
    rw [decide_eq_true_eq]
    rintro rfl
    refine elsewhere (UInt64.le_antisymm (lists.le_doc member) ?_)
    have isFirst : visit ∈ left child := by
      rw [isLeft]
      exact List.mem_cons_self
    rw [← span]
    exact since child visit isFirst

/-- A head that passes its visits goes on to a later span. -/
theorem lists_advanceBeyond (does : Serves fails serves)
    (lists : Lists serves left lineup) {child : Fin size} {head : Span}
    (isHead : lineup.heads[child] = head) :
    (advanceBeyond child head).Meets lineup
      (fun later? reached => Arrives serves left child (left child).tail
        (later?.map Subtype.val) reached)
      (fun _ reached => fails ∧ Lists serves left reached) := by
  simp only [advanceBeyond, Attempt.meets_bind]
  apply (lists_advance does lists child).imp_answer
  rintro (_ | next) reached arrives
  · exact arrives
  · have beyond : head < next := by
      obtain ⟨listsOn, rfl⟩ := arrives
      obtain ⟨visit, rest, isLeft, span⟩ := lists.exists_eq_cons child
      obtain ⟨later, others, isNext, same⟩ := listsOn.exists_eq_cons child
      have ordered := lists.ordered child
      rw [Function.update_self, isLeft, List.tail_cons] at isNext
      rw [isLeft, isNext] at ordered
      rw [← isHead, ← span, ← same]
      exact ordered.head_lt List.mem_cons_self
    simp only [Cursor.demandBeyond, beyond, ↓reduceDIte]
    exact arrives

/-- A child passed only visits that start too early in a document. -/
structure Catches (doc : DocId) (floor : Position) (before passed : Visits) :
    Prop where
  sublist : passed.Sublist before
  beyond : passed.beyond doc = before.beyond doc
  inside : (passed.inside doc).startingAt floor =
    (before.inside doc).startingAt floor

/-- What catching up comes to. -/
def CaughtUp (serves : Visits → σ → Prop) (doc : DocId) (floor : Position)
    (child : Fin size) (left : Fin size → Visits) (finding : Finding Span)
    (reached : Lineup σ size) : Prop :=
  match finding with
  | .hit head => ∃ passed, Catches doc floor (left child) passed ∧
      (passed.inside doc).startingAt floor = passed.inside doc ∧
      (passed.inside doc).head?.map Visit.span = some head ∧
        Lists serves (Function.update left child passed) reached
  | .left => ∃ passed, Catches doc floor (left child) passed ∧
      passed.inside doc = [] ∧
        Lists serves (Function.update left child passed) reached
  | .ended => (left child).beyond doc = [] ∧
      ((left child).inside doc).startingAt floor = []

/-- What catching up comes to when it fails. -/
def Stuck (serves : Visits → σ → Prop) (doc : DocId) (floor : Position)
    (child : Fin size) (left : Fin size → Visits) (reached : Lineup σ size) :
    Prop :=
  ∃ passed, Catches doc floor (left child) passed ∧ passed.inside doc ≠ [] ∧
    Lists serves (Function.update left child passed) reached

section

variable {floor : Position} {child : Fin size} {visit : Visit}
  {rest : Visits}

theorem Catches.refl (visits : Visits) : Catches doc floor visits visits :=
  ⟨List.Sublist.refl _, rfl, rfl⟩

/-- A visit in the document that starts too early may be passed. -/
theorem Catches.cons {passed : Visits} (visitIn : visit.doc = doc)
    (early : visit.span.start < floor)
    (catches : Catches doc floor rest passed) :
    Catches doc floor (visit :: rest) passed := by
  constructor
  · exact catches.sublist.cons visit
  · rw [catches.beyond, Visits.beyond_cons_of_eq visitIn]
  · rw [catches.inside, Visits.inside_cons_of_eq visitIn,
      Visits.startingAt_cons_of_lt early]

omit [Cursor σ] in
/-- To catch up past a visit that starts too early is to catch up. -/
theorem CaughtUp.of_pass (isLeft : left child = visit :: rest)
    (visitIn : visit.doc = doc) (early : visit.span.start < floor)
    {finding : Finding Span} {reached : Lineup σ size}
    (caught : CaughtUp serves doc floor child (pass child left) finding
      reached) :
    CaughtUp serves doc floor child left finding reached := by
  have isRest : pass child left child = rest := by
    rw [pass_self, isLeft, List.tail_cons]
  have again : ∀ visits, Function.update (pass child left) child visits =
      Function.update left child visits := fun visits =>
    Function.update_idem _ _ _
  cases finding with
  | hit head =>
      obtain ⟨passed, catches, starts, first, lists⟩ := caught
      rw [isRest] at catches
      rw [again] at lists
      refine ⟨passed, ?_, starts, first, lists⟩
      rw [isLeft]
      exact catches.cons visitIn early
  | left =>
      obtain ⟨passed, catches, none, lists⟩ := caught
      rw [isRest] at catches
      rw [again] at lists
      refine ⟨passed, ?_, none, lists⟩
      rw [isLeft]
      exact catches.cons visitIn early
  | ended =>
      obtain ⟨noLater, none⟩ := caught
      rw [isRest] at noLater none
      constructor
      · rw [isLeft, Visits.beyond_cons_of_eq visitIn]
        exact noLater
      · rw [isLeft, Visits.inside_cons_of_eq visitIn,
          Visits.startingAt_cons_of_lt early]
        exact none

omit [Cursor σ] in
/-- The same holds where catching up fails. -/
theorem Stuck.of_pass (isLeft : left child = visit :: rest)
    (visitIn : visit.doc = doc) (early : visit.span.start < floor)
    {reached : Lineup σ size}
    (stuck : Stuck serves doc floor child (pass child left) reached) :
    Stuck serves doc floor child left reached := by
  obtain ⟨passed, catches, visited, lists⟩ := stuck
  rw [pass_self, isLeft, List.tail_cons] at catches
  refine ⟨passed, ?_, visited, ?_⟩
  · rw [isLeft]
    exact catches.cons visitIn early
  · rw [Nearness.pass, Function.update_idem] at lists
    exact lists

end

theorem caughtUp_catchUp {lineup : Lineup σ size} {left : Fin size → Visits}
    (does : Serves fails serves) (lists : Lists serves left lineup)
    (since : From doc left) (floor : Position) {child : Fin size}
    {head : Span} (isHead : lineup.heads[child] = head) :
    (catchUp doc floor child head).Meets lineup
      (CaughtUp serves doc floor child left)
      (fun _ reached => fails ∧ Stuck serves doc floor child left reached) := by
  obtain ⟨visit, rest, isLeft, span⟩ := lists.exists_eq_cons child
  rw [isHead] at span
  have unmoved : Lists serves (Function.update left child (left child))
      lineup := by
    rw [Function.update_eq_self]
    exact lists
  unfold catchUp
  split
  · rename_i inDoc
    have visitIn : visit.doc = doc := by
      change visit.span.doc = doc
      rw [span]
      exact inDoc
    have inside : (left child).inside doc =
        visit :: Visits.inside doc rest := by
      rw [isLeft]
      exact Visits.inside_cons_of_eq visitIn
    split
    · rename_i early
      rw [← span] at early
      simp only [Attempt.meets_bind]
      apply (lists_advanceBeyond does lists isHead).mono
      · rintro (_ | ⟨next, beyond⟩) middle arrives
        · have none : (left child).tail = [] := arrives
          change CaughtUp serves doc floor child left .ended middle
          apply CaughtUp.of_pass isLeft visitIn early
          constructor
          · rw [pass_self, none]
            rfl
          · rw [pass_self, none]
            rfl
        · have := Span.room_lt_room beyond
          obtain ⟨listsOn, placed⟩ := arrives
          apply (caughtUp_catchUp does listsOn
            ((passes_pass child left).from since) floor placed).mono
          · intro _ _ caught
            exact caught.of_pass isLeft visitIn early
          · rintro _ _ ⟨mayFail, stuck⟩
            exact ⟨mayFail, stuck.of_pass isLeft visitIn early⟩
      · rintro _ reached ⟨mayFail, still⟩
        refine ⟨mayFail, left child, .refl _, ?_, ?_⟩
        · rw [inside]
          exact List.cons_ne_nil _ _
        · rw [Function.update_eq_self]
          exact still
    · rename_i late
      rw [← span] at late
      refine ⟨left child, .refl _, ?_, ?_, unmoved⟩
      · rw [inside]
        exact Visits.startingAt_cons_of_not_lt late
      · rw [inside, ← span]
        rfl
  · rename_i elsewhere
    refine ⟨left child, .refl _, ?_, unmoved⟩
    rw [lists.inside_eq_nil_iff since, isHead]
    exact elsewhere
termination_by head.room

/-- What stretching comes to. -/
def Stretched (serves : Visits → σ → Prop) (doc : DocId) (floor : Position)
    (children : List (Fin size)) (left : Fin size → Visits)
    (finding : Finding Unit) (reached : Lineup σ size) : Prop :=
  match finding with
  | .hit () => ∃ ready, Trims doc left ready ∧
      Nearness.stretch floor children (within doc left) =
        some (within doc ready) ∧
      (∀ child, child ∉ children → ready child = left child) ∧
        Lists serves ready reached
  | .left => Nearness.stretch floor children (within doc left) = none ∧
      ∃ ready, Trims doc left ready ∧ Past doc ready ∧
        Lists serves ready reached
  | .ended => Nearness.stretch floor children (within doc left) = none ∧
      ∃ child, (left child).beyond doc = []

/-- What stretching comes to when it fails. -/
def Halted (serves : Visits → σ → Prop) (doc : DocId) (floor : Position)
    (children : List (Fin size)) (left : Fin size → Visits)
    (reached : Lineup σ size) : Prop :=
  ∃ ready, Trims doc left ready ∧
    Nearness.stretch floor children (within doc ready) =
      Nearness.stretch floor children (within doc left) ∧
    (∀ child, child ∉ children → ready child = left child) ∧
    (∀ child, (left child).inside doc ≠ [] →
      (ready child).inside doc ≠ []) ∧
    Lists serves ready reached

section

variable {floor : Position} {child : Fin size} {rest : List (Fin size)}
  {visit : Visit} {passed others : Visits} {reached : Lineup σ size}

omit [Cursor σ] in
/-- Stretching begins with the same visits when the first child caught up. -/
theorem Catches.stretch_eq (catches : Catches doc floor (left child) passed)
    (rest : List (Fin size)) :
    Nearness.stretch floor (child :: rest)
        (within doc (Function.update left child passed)) =
      Nearness.stretch floor (child :: rest) (within doc left) := by
  rw [within_update]
  simp only [Nearness.stretch, Function.update_self, catches.inside,
    Function.update_idem, within]

omit [Cursor σ] in
/-- Stretching goes on from where the first child caught up. -/
theorem Catches.stretch_cons (catches : Catches doc floor (left child) passed)
    (starts : (passed.inside doc).startingAt floor = passed.inside doc)
    (isPassed : passed.inside doc = visit :: others)
    (rest : List (Fin size)) :
    Nearness.stretch floor (child :: rest) (within doc left) =
      Nearness.stretch visit.span.stop rest
        (within doc (Function.update left child passed)) := by
  have isStarting : ((left child).inside doc).startingAt floor =
      visit :: others := by
    rw [← catches.inside, starts, isPassed]
  rw [within_update, isPassed]
  exact stretch_of_cons isStarting

omit [Cursor σ] in
/-- A child that stays in the document leaves the others there. -/
theorem inside_update_ne_nil (visited : passed.inside doc ≠ [])
    (other : Fin size) (stays : (left other).inside doc ≠ []) :
    (Function.update left child passed other).inside doc ≠ [] := by
  by_cases isChild : other = child
  · subst isChild
    rw [Function.update_self]
    exact visited
  · rw [Function.update_of_ne isChild]
    exact stays

omit [Cursor σ] in
/-- When a child is stuck, so is stretching that begins with it. -/
theorem Halted.of_stuck (stuck : Stuck serves doc floor child left reached) :
    Halted serves doc floor (child :: rest) left reached := by
  obtain ⟨passed, catches, visited, lists⟩ := stuck
  refine ⟨_, trims_update catches.sublist catches.beyond,
    catches.stretch_eq rest, ?_, inside_update_ne_nil visited, lists⟩
  intro other notMember
  rw [List.mem_cons, not_or] at notMember
  rw [Function.update_of_ne notMember.1]

omit [Cursor σ] in
/-- Stretching that fails once the first child caught up. -/
theorem Halted.of_caught (notLater : child ∉ rest)
    (catches : Catches doc floor (left child) passed)
    (starts : (passed.inside doc).startingAt floor = passed.inside doc)
    (isPassed : passed.inside doc = visit :: others)
    (halted : Halted serves doc visit.span.stop rest
      (Function.update left child passed) reached) :
    Halted serves doc floor (child :: rest) left reached := by
  obtain ⟨ready, trims, same, kept, stays, lists⟩ := halted
  have isReady : ready child = passed := by
    rw [kept child notLater, Function.update_self]
  refine ⟨ready, (trims_update catches.sublist catches.beyond).trans trims,
    ?_, ?_, ?_, lists⟩
  · -- Where it is, the first child would be stretched to the same visits.
    have again : Catches doc floor (ready child) passed := by
      rw [isReady]
      exact .refl passed
    have unmoved : Function.update ready child passed = ready := by
      rw [← isReady]
      exact Function.update_eq_self child ready
    rw [again.stretch_cons starts isPassed, unmoved, same,
      catches.stretch_cons starts isPassed]
  · intro other notMember
    rw [List.mem_cons, not_or] at notMember
    rw [kept other notMember.2, Function.update_of_ne notMember.1]
  · intro other visited
    apply stays
    exact inside_update_ne_nil (by rw [isPassed]; exact List.cons_ne_nil _ _)
      other visited

omit [Cursor σ] in
/-- Stretching that is done once the first child caught up. -/
theorem Stretched.of_caught
    (catches : Catches doc floor (left child) passed)
    (starts : (passed.inside doc).startingAt floor = passed.inside doc)
    (isPassed : passed.inside doc = visit :: others)
    {finding : Finding Unit}
    (stretched : Stretched serves doc visit.span.stop rest
      (Function.update left child passed) finding reached) :
    Stretched serves doc floor (child :: rest) left finding reached := by
  have goesOn := catches.stretch_cons starts isPassed rest
  have trims := trims_update catches.sublist catches.beyond
  cases finding with
  | hit _ =>
      obtain ⟨ready, trimsOn, isReady, same, lists⟩ := stretched
      refine ⟨ready, trims.trans trimsOn, goesOn.trans isReady, ?_, lists⟩
      intro other notMember
      rw [List.mem_cons, not_or] at notMember
      rw [same other notMember.2, Function.update_of_ne notMember.1]
  | left =>
      obtain ⟨none, ready, trimsOn, past, lists⟩ := stretched
      exact ⟨goesOn.trans none, ready, trims.trans trimsOn, past, lists⟩
  | ended =>
      obtain ⟨none, other, noLater⟩ := stretched
      refine ⟨goesOn.trans none, other, ?_⟩
      exact (congrFun trims.after_eq other).symm.trans noLater

end

theorem stretched_stretch (does : Serves fails serves)
    (lists : Lists serves left lineup) (since : From doc left)
    (floor : Position) {children : List (Fin size)} (once : children.Nodup) :
    (Lineup.stretch doc floor children).Meets lineup
      (Stretched serves doc floor children left)
      (fun _ reached => fails ∧ Halted serves doc floor children left
        reached) := by
  induction children generalizing lineup left floor with
  | nil => exact ⟨left, .refl, rfl, fun _ _ => rfl, lists⟩
  | cons child rest ih =>
      obtain ⟨notLater, onceOn⟩ := List.nodup_cons.mp once
      simp only [Lineup.stretch, Attempt.meets_bind, Attempt.meets_look]
      apply (caughtUp_catchUp does lists since floor rfl).mono
      · rintro (_ | _ | _) middle caught
        · obtain ⟨passed, catches, starts, first, listsOn⟩ := caught
          obtain ⟨visit, isFirst, rfl⟩ := Option.map_eq_some_iff.mp first
          obtain ⟨others, isPassed⟩ := List.head?_eq_some_iff.mp isFirst
          have trims := trims_update catches.sublist catches.beyond
          apply (ih listsOn (trims.passes.from since) _ onceOn).mono
          · intro _ _ stretched
            exact stretched.of_caught catches starts isPassed
          · rintro _ _ ⟨mayFail, halted⟩
            exact ⟨mayFail,
              halted.of_caught notLater catches starts isPassed⟩
        · obtain ⟨passed, catches, none, listsOn⟩ := caught
          have trims := trims_update catches.sublist catches.beyond
          refine ⟨?_, _, trims, past_of_inside_eq_nil child
            (trims.passes.from since) ?_, listsOn⟩
          · have ended : ((left child).inside doc).startingAt floor = [] := by
              rw [← catches.inside, none]
              rfl
            exact stretch_of_nil ended
          · rw [Function.update_self]
            exact none
        · obtain ⟨noLater, none⟩ := caught
          exact ⟨stretch_of_nil none, child, noLater⟩
      · rintro _ _ ⟨mayFail, stuck⟩
        exact ⟨mayFail, .of_stuck stuck⟩

/-! ## Arrangements of one document -/

/-- A match was answered, and other matches are to come. -/
structure Hit (rule : Nearness) (filled : 0 < size)
    (serves : Visits → σ → Prop) (doc : DocId) (last? : Option Span)
    (left : Fin size → Visits) (found : Match size)
    (reached : Lineup σ size) (lined : Lined size) : Prop where
  lists : Lists serves lined.left reached
  trims : Trims doc left lined.left
  stays : (∀ child, (left child).inside doc ≠ []) →
    ∀ child, (lined.left child).inside doc ≠ []
  inDoc : found.span.doc = doc
  pivotIn : reached.heads[found.pivot].doc = doc
  starts : reached.heads[found.pivot].start = found.span.start
  leads : rule.arrangement = .inOrder → found.pivot = ⟨0, filled⟩
  outlook : rule.outlook filled doc last? left =
    ⟨found.span, rule.paid lined⟩ :: rule.prospects filled doc
      (some found.span) found.pivot (pass found.pivot lined.left)

/-- What the search of one document comes to. -/
def Searched (rule : Nearness) (filled : 0 < size)
    (serves : Visits → σ → Prop) (doc : DocId) (last? : Option Span)
    (left : Fin size → Visits) (finding : Finding (Match size))
    (reached : Lineup σ size) : Prop :=
  match finding with
  | .hit found => ∃ lined,
      Hit rule filled serves doc last? left found reached lined
  | .left => rule.slide filled doc last? (rule.seen doc left) = [] ∧
      ∃ ready, Trims doc left ready ∧ Past doc ready ∧
        Lists serves ready reached
  | .ended => rule.outlook filled doc last? left = []

/-- What the search of one document comes to when it fails. -/
def Delayed (rule : Nearness) (filled : 0 < size)
    (serves : Visits → σ → Prop) (doc : DocId) (last? : Option Span)
    (left : Fin size → Visits) (reached : Lineup σ size) : Prop :=
  ∃ ready, Skips rule filled doc last? left ready ∧
    Lists serves ready reached

variable {rule : Nearness} {filled : 0 < size} {last? : Option Span}
  {ready : Fin size → Visits}

omit [Cursor σ] in
/-- A search goes on after visits that make no match were passed. -/
theorem Searched.of_skips {finding : Finding (Match size)}
    {reached : Lineup σ size} (skips : Skips rule filled doc last? left ready)
    (searched : Searched rule filled serves doc last? ready finding reached) :
    Searched rule filled serves doc last? left finding reached := by
  cases finding with
  | hit found =>
      obtain ⟨lined, hit⟩ := searched
      exact ⟨lined, hit.lists, skips.trims.trans hit.trims,
        hit.stays ∘ skips.stays, hit.inDoc, hit.pivotIn, hit.starts, hit.leads,
        skips.outlook_eq.symm.trans hit.outlook⟩
  | left =>
      obtain ⟨none, last, trims, past, lists⟩ := searched
      exact ⟨skips.slide_eq.symm.trans none, last, skips.trims.trans trims,
        past, lists⟩
  | ended => exact skips.outlook_eq.symm.trans searched

omit [Cursor σ] in
theorem Delayed.of_skips {reached : Lineup σ size}
    (skips : Skips rule filled doc last? left ready)
    (delayed : Delayed rule filled serves doc last? ready reached) :
    Delayed rule filled serves doc last? left reached := by
  obtain ⟨last, further, lists⟩ := delayed
  exact ⟨last, skips.trans further, lists⟩

omit [Cursor σ] in
/-- An arrangement of what is seen has the heads of the children. -/
theorem Lists.exists_shown (lists : Lists serves left lineup)
    {group : Fin size → Visits}
    (same : ∀ child, (group child).head? = (left child).head?) :
    ∃ lined shown : Lined size, lined.left = left ∧
      shown.spans = lineup.heads ∧ Lined.of? group = some shown ∧
        shown.left = group ∧ shown.payloads = lined.payloads := by
  have filled : ∀ child, left child ≠ [] := by
    intro child none
    obtain ⟨_, _, isLeft, _⟩ := lists.exists_eq_cons child
    rw [none] at isLeft
    cases isLeft
  refine ⟨.ofFilled left filled, (Lined.ofFilled left filled).before group
    same, rfl, ?_, Lined.of?_eq_some_iff.mpr rfl, rfl, rfl⟩
  ext place inside : 1
  have isHead := lists.heads ⟨place, inside⟩
  rw [List.head?_eq_some_head (filled _)] at isHead
  simp only [Lined.spans, Lined.before, Lined.ofFilled, Vector.getElem_map,
    Vector.getElem_ofFn]
  exact Option.some.inj isHead

omit [Cursor σ] in
/-- A match in order is followed by those with a later first visit. -/
theorem seen_of_inOrder (inOrder : rule.arrangement = .inOrder)
    (left : Fin size → Visits) : rule.seen doc left = within doc left := by
  funext child
  simp only [seen, inOrder, within]

omit [Cursor σ] in
theorem Lists.head?_any (lists : Lists serves left lineup) {child : Fin size}
    (inDoc : lineup.heads[child].doc = doc) :
    (left child).head?.any (·.doc = doc) := by
  obtain ⟨visit, rest, isLeft, span⟩ := lists.exists_eq_cons child
  rw [isLeft]
  change decide (visit.span.doc = doc) = true
  rw [span]
  exact decide_eq_true inDoc

/-- An arrangement is tried with what the children have left then. -/
structure Tried (rule : Nearness) (filled : 0 < size) (doc : DocId)
    (left : Fin size → Visits) (lined shown : Lined size) : Prop where
  found : rule.lineUp? filled (rule.seen doc left) = some shown
  shows : shown.left = rule.seen doc lined.left
  payloads : shown.payloads = lined.payloads
  trims : Trims doc left lined.left
  stays : (∀ child, (left child).inside doc ≠ []) →
    ∀ child, (lined.left child).inside doc ≠ []
  pivotIn :
    (lined.left (rule.pivot filled shown)).head?.any (·.doc = doc)

section

omit [Cursor σ]

variable {lined shown : Lined size}

/-- A new match is answered, and those after it are to come. -/
theorem Tried.outlook_eq (tried : Tried rule filled doc left lined shown)
    {span : Span}
    (hits : (rule.fitting? filled doc shown).filter (isNew last?) =
      some span) :
    rule.outlook filled doc last? left =
      ⟨span, rule.paid lined⟩ :: rule.prospects filled doc (some span)
        (rule.pivot filled shown)
        (pass (rule.pivot filled shown) lined.left) := by
  rw [outlook, slide_of_hit tried.found hits, ← tried.trims.after_eq,
    List.cons_append, tried.shows, prospects_pass tried.pivotIn, paid,
    tried.payloads]

/-- The pivot stays in the document and passes its visit. -/
theorem Tried.skips (tried : Tried rule filled doc left lined shown)
    (misses : (rule.fitting? filled doc shown).filter (isNew last?) = none)
    (visited : (pass (rule.pivot filled shown) lined.left
      (rule.pivot filled shown)).inside doc ≠ []) :
    Skips rule filled doc last? left
      (pass (rule.pivot filled shown) lined.left) := by
  refine ⟨tried.trims.trans (trims_pass tried.pivotIn), ?_, ?_⟩
  · intro stays other
    by_cases isPivot : other = rule.pivot filled shown
    · subst isPivot
      exact visited
    · rw [pass_of_ne isPivot]
      exact tried.stays stays other
  · rw [slide_of_miss tried.found misses, tried.shows,
      pass_seen tried.pivotIn visited]

/-- The pivot leaves the document, and with it goes the last match. -/
theorem Tried.slide_eq_nil (tried : Tried rule filled doc left lined shown)
    (misses : (rule.fitting? filled doc shown).filter (isNew last?) = none)
    (none : (pass (rule.pivot filled shown) lined.left
      (rule.pivot filled shown)).inside doc = []) :
    rule.slide filled doc last? (rule.seen doc left) = [] := by
  rw [slide_of_miss tried.found misses, tried.shows]
  exact Nearness.slide_eq_nil _
    ((pass_seen_self tried.pivotIn).trans none)

/-- The pivot has no more visits, so there are no more matches at all. -/
theorem Tried.outlook_eq_nil (tried : Tried rule filled doc left lined shown)
    (misses : (rule.fitting? filled doc shown).filter (isNew last?) = none)
    {pivot : Fin size} (isPivot : rule.pivot filled shown = pivot)
    (noNext : (lined.left pivot).tail = []) :
    rule.outlook filled doc last? left = [] := by
  subst isPivot
  have none : pass (rule.pivot filled shown) lined.left
      (rule.pivot filled shown) = [] := by
    rw [pass_self]
    exact noNext
  have noInside : (pass (rule.pivot filled shown) lined.left
      (rule.pivot filled shown)).inside doc = [] := by
    rw [none]
    rfl
  rw [outlook, tried.slide_eq_nil misses noInside, ← tried.trims.after_eq,
    ← after_pass tried.pivotIn, List.nil_append]
  exact allMatches_after_eq_nil (rule.pivot filled shown)
    (by rw [none]; rfl) rule

/-- A new match of the heads is answered. -/
theorem Tried.searched_hit (tried : Tried rule filled doc left lined shown)
    {span : Span}
    (hits : (rule.fitting? filled doc shown).filter (isNew last?) = some span)
    {pivot : Fin size} (isPivot : rule.pivot filled shown = pivot)
    {reached : Lineup σ size} (lists : Lists serves lined.left reached)
    (inDoc : reached.heads[pivot].doc = doc) {stop : Position}
    (bounded : Span.ofBounds? doc reached.heads[pivot].start stop =
      some span) :
    Searched rule filled serves doc last? left (.hit ⟨pivot, span⟩)
      reached := by
  obtain ⟨isDoc, isStart, _⟩ := Span.ofBounds?_eq_some bounded
  have outlook := tried.outlook_eq hits
  subst isPivot
  refine ⟨lined, lists, tried.trims, tried.stays, isDoc, inDoc, isStart.symm,
    ?_, outlook⟩
  intro inOrder
  simp only [Nearness.pivot, inOrder]

/-- Once the pivot has passed its visit the search goes on, or has left. -/
theorem Tried.of_next (tried : Tried rule filled doc left lined shown)
    (misses : (rule.fitting? filled doc shown).filter (isNew last?) = none)
    (since : From doc left) {pivot : Fin size}
    (isPivot : rule.pivot filled shown = pivot) {reached : Lineup σ size}
    {later : Span} (arrives : Arrives serves lined.left pivot
      (lined.left pivot).tail (some later) reached) :
    From doc (pass pivot lined.left) ∧
      (later.doc = doc →
        Skips rule filled doc last? left (pass pivot lined.left)) ∧
      (later.doc ≠ doc →
        Searched rule filled serves doc last? left .left reached) := by
  subst isPivot
  obtain ⟨lists, rfl⟩ := arrives
  have sinceOn : From doc (pass (rule.pivot filled shown) lined.left) :=
    (passes_pass _ _).from (tried.trims.passes.from since)
  have leaves := lists.inside_eq_nil_iff sinceOn (rule.pivot filled shown)
  refine ⟨sinceOn, fun inDoc => ?_, fun elsewhere => ?_⟩
  · exact tried.skips misses fun none => leaves.mp none inDoc
  · have none := leaves.mpr elsewhere
    exact ⟨tried.slide_eq_nil misses none, _,
      tried.trims.trans (trims_pass tried.pivotIn),
      past_of_inside_eq_nil _ sinceOn none, lists⟩

end

/-- A child that may go on answers a later span, or none. -/
theorem served_nextBeyond (does : Serves fails serves) {visit : Visit}
    {rest : Visits} {cursor : σ} (served : serves (visit :: rest) cursor)
    (ordered : Visits.Ordered (visit :: rest)) :
    (Cursor.nextBeyond visit.span).Meets cursor
      (fun later? reached => Served serves rest (later?.map Subtype.val)
        reached)
      (fun _ reached => fails ∧ serves (visit :: rest) reached) := by
  simp only [Cursor.nextBeyond, Attempt.meets_bind]
  apply (does.next served ordered).imp_answer
  rintro span? reached ⟨rfl, moved⟩
  cases rest with
  | nil => exact ⟨rfl, moved⟩
  | cons later others =>
      have beyond := ordered.head_lt List.mem_cons_self
      simp only [List.head?_cons, Option.map_some, Cursor.demandBeyond,
        beyond, ↓reduceDIte]
      exact ⟨rfl, moved⟩

omit [Cursor σ] in
/-- In order an arrangement is found by stretching from the first head. -/
theorem Lists.lineUp?_of_inOrder (lists : Lists serves left lineup)
    (inOrder : rule.arrangement = .inOrder) {first : Span}
    (isFirst : lineup.heads[(⟨0, filled⟩ : Fin size)] = first)
    (inDoc : first.doc = doc)
    (same : ready ⟨0, filled⟩ = left ⟨0, filled⟩) :
    rule.lineUp? filled (rule.seen doc ready) =
      (Nearness.stretch first.stop (List.finRange size).tail
        (within doc ready)).bind Lined.of? := by
  obtain ⟨visit, rest, isLeft, span⟩ := lists.exists_eq_cons ⟨0, filled⟩
  rw [isFirst] at span
  subst span
  have isHead : (within doc ready ⟨0, filled⟩).head? = some visit := by
    rw [within, same, isLeft, Visits.inside_cons_of_eq inDoc]
    rfl
  simp only [lineUp?, inOrder, seen_of_inOrder inOrder, isHead]
  rfl

omit [Cursor σ] in
/-- Stretched children make an arrangement of their heads in order. -/
theorem tried_of_stretch {first : Span} {reached : Lineup σ size}
    (inOrder : rule.arrangement = .inOrder) (since : From doc left)
    (lists : Lists serves left lineup)
    (isFirst : lineup.heads[(⟨0, filled⟩ : Fin size)] = first)
    (inDoc : first.doc = doc) (trims : Trims doc left ready)
    (stretched : Nearness.stretch first.stop (List.finRange size).tail
      (within doc left) = some (within doc ready))
    (same : ready ⟨0, filled⟩ = left ⟨0, filled⟩)
    (listsOn : Lists serves ready reached) :
    ∃ lined shown, Tried rule filled doc left lined shown ∧
      lined.left = ready ∧ shown.spans = reached.heads ∧
        InOrder reached.heads.toList := by
  have firstIn : (left ⟨0, filled⟩).inside doc ≠ [] := fun none =>
    (lists.inside_eq_nil_iff since _).mp none (isFirst ▸ inDoc)
  have visited : ∀ child, (ready child).inside doc ≠ [] := by
    intro child
    rcases eq_or_mem_tail filled child with rfl | later
    · rw [same]
      exact firstIn
    · exact stretch_ne_nil stretched nodup_tail_finRange later
  have shows : ∀ child, (within doc ready child).head? =
      (ready child).head? := fun child =>
    (listsOn.ordered child).head?_inside
      (trims.passes.from since child) (visited child)
  obtain ⟨lined, shown, isLeft, spans, isShown, isGroup, payloads⟩ :=
    listsOn.exists_shown shows
  have pivotIn : (ready ⟨0, filled⟩).head?.any (·.doc = doc) := by
    rw [same]
    exact lists.head?_any (isFirst ▸ inDoc)
  refine ⟨lined, shown, ⟨?_, ?_, payloads, ?_, ?_, ?_⟩, isLeft, spans, ?_⟩
  · rw [lists.lineUp?_of_inOrder inOrder isFirst inDoc rfl, stretched]
    exact isShown
  · rw [isGroup, isLeft, seen_of_inOrder inOrder]
  · rw [isLeft]
    exact trims
  · rw [isLeft]
    exact fun _ => visited
  · rw [isLeft]
    simp only [pivot, inOrder]
    exact pivotIn
  · have chain := inOrder_of_stretch (fun child => reached.heads[child])
      stretched nodup_tail_finRange rfl
      fun child _ => by rw [shows child]; exact listsOn.heads child
    have stays := listsOn.head_eq lists same
    rw [isFirst] at stays
    rw [toList_eq_cons reached.heads filled, stays]
    exact chain

omit [Cursor σ] in
/-- A failure while children are stretched passes nothing that matters. -/
theorem Halted.delayed {first : Span} {reached : Lineup σ size}
    (halted : Halted serves doc first.stop (List.finRange size).tail left
      reached)
    (inOrder : rule.arrangement = .inOrder)
    (lists : Lists serves left lineup)
    (isFirst : lineup.heads[(⟨0, filled⟩ : Fin size)] = first)
    (inDoc : first.doc = doc) :
    Delayed rule filled serves doc last? left reached := by
  obtain ⟨ready, trims, same, kept, stays, listsOn⟩ := halted
  have isReady := kept _ (first_not_mem_tail filled)
  refine ⟨ready, ⟨trims, ?_, slide_congr ?_⟩, listsOn⟩
  · exact fun visited child => stays child (visited child)
  · rw [lists.lineUp?_of_inOrder inOrder isFirst inDoc rfl,
      lists.lineUp?_of_inOrder inOrder isFirst inDoc isReady, same]

/-- The next match in order, and what is left then. -/
theorem searched_inOrder {lineup : Lineup σ size} {left : Fin size → Visits}
    (does : Serves fails serves) (inOrder : rule.arrangement = .inOrder)
    (filled : 0 < size) (last? : Option Span) (since : From doc left)
    (lists : Lists serves left lineup) {first : Span}
    (isFirst : lineup.heads[(⟨0, filled⟩ : Fin size)] = first)
    (inDoc : first.doc = doc) :
    (searchInOrder rule.slop last? doc filled first).Meets lineup
      (Searched rule filled serves doc last? left)
      (fun _ reached => fails ∧ Delayed rule filled serves doc last? left
        reached) := by
  have lineUp := lists.lineUp?_of_inOrder inOrder isFirst inDoc rfl
  rw [searchInOrder]
  simp only [Attempt.meets_bind]
  apply (stretched_stretch does lists since first.stop
    nodup_tail_finRange).mono
  · rintro (_ | _ | _) middle stretched
    · obtain ⟨ready, trims, isReady, kept, listsOn⟩ := stretched
      have same := kept _ (first_not_mem_tail filled)
      obtain ⟨lined, shown, tried, rfl, spans, chain⟩ := tried_of_stretch
        inOrder since lists isFirst inDoc trims isReady same listsOn
      obtain ⟨candidate, isCandidate⟩ := chain.exists_bounds filled doc
      obtain ⟨slack, isSlack⟩ := chain.exists_gaps
      have stays : middle.heads[(⟨0, filled⟩ : Fin size)] = first :=
        (listsOn.head_eq lists same).trans isFirst
      have isPivot : rule.pivot filled shown = ⟨0, filled⟩ := by
        simp only [pivot, inOrder]
      have found : (rule.fitting? filled doc shown).filter (isNew last?) =
          if slack ≤ rule.slop ∧ isNew last? candidate then some candidate
          else none := by
        rw [fitting?_of_inOrder inOrder (by rw [spans]; exact isCandidate)
          (by rw [spans]; exact isSlack), filter_isNew_ite]
      have bounded : Span.ofBounds? doc first.start
          middle.heads[lastPlace filled].stop = some candidate := by
        rw [← stays]
        exact isCandidate
      simp only [Attempt.meets_bind, Attempt.meets_look, bounded, isSlack,
        Attempt.meets_ofOption_some]
      split
      · rename_i isMatch
        exact tried.searched_hit (found.trans (if_pos isMatch)) isPivot
          listsOn ((congrArg Span.doc stays).trans inDoc) isCandidate
      · rename_i noMatch
        have misses := found.trans (if_neg noMatch)
        simp only [Attempt.meets_bind]
        apply (lists_advanceBeyond does listsOn stays).mono
        · rintro (_ | ⟨later, beyond⟩) reached arrives
          · exact tried.outlook_eq_nil misses isPivot arrives
          · obtain ⟨sinceOn, skips, leaves⟩ :=
              tried.of_next misses since isPivot arrives
            obtain ⟨listsNext, placed⟩ := arrives
            have := Span.room_lt_room beyond
            dsimp only
            split
            · rename_i stillIn
              apply (searched_inOrder does inOrder filled last? sinceOn
                listsNext placed stillIn).mono
              · intro _ _ searched
                exact searched.of_skips (skips stillIn)
              · rintro _ _ ⟨mayFail, delayed⟩
                exact ⟨mayFail, delayed.of_skips (skips stillIn)⟩
            · rename_i elsewhere
              exact leaves elsewhere
        · rintro _ reached ⟨mayFail, still⟩
          refine ⟨mayFail, lined.left, ⟨trims, tried.stays, ?_⟩, still⟩
          refine slide_congr ?_
          rw [lineUp, lists.lineUp?_of_inOrder inOrder isFirst inDoc same,
            isReady, stretch_of_stretched isReady nodup_tail_finRange]
    · obtain ⟨none, ready, trims, past, listsOn⟩ := stretched
      exact ⟨slide_of_none (by rw [lineUp, none]; rfl), ready, trims, past,
        listsOn⟩
    · obtain ⟨none, child, noLater⟩ := stretched
      change rule.outlook filled doc last? left = []
      rw [outlook, slide_of_none (by rw [lineUp, none]; rfl),
        allMatches_after_eq_nil child noLater, List.nil_append]
  · rintro _ reached ⟨mayFail, halted⟩
    exact ⟨mayFail, halted.delayed inOrder lists isFirst inDoc⟩
termination_by first.room

omit [Cursor σ] in
/-- The least head is in a document that some head is in and none is before. -/
theorem Lists.leastChild_doc (lists : Lists serves left lineup)
    (filled : 0 < size) (since : From doc left)
    (reaches : ∃ child : Fin size, lineup.heads[child].doc = doc) :
    lineup.heads[leastChild lineup.heads filled].doc = doc := by
  obtain ⟨child, inDoc⟩ := reaches
  obtain ⟨visit, rest, isLeft, span⟩ :=
    lists.exists_eq_cons (leastChild lineup.heads filled)
  refine UInt64.le_antisymm ?_ ?_
  · rw [← inDoc]
    exact Span.doc_le_of_le (leastChild_le lineup.heads filled child)
  · rw [← span]
    exact since _ visit (isLeft ▸ List.mem_cons_self)

omit [Cursor σ] in
/-- In any order the heads are shown wherever they are. -/
theorem tried_of_anyOrder (anyOrder : rule.arrangement = .anyOrder)
    (filled : 0 < size) (since : From doc left)
    (lists : Lists serves left lineup)
    (reaches : ∃ child : Fin size, lineup.heads[child].doc = doc) :
    ∃ lined shown, Tried rule filled doc left lined shown ∧
      lined.left = left ∧ shown.spans = lineup.heads := by
  have shows : ∀ child, (rule.seen doc left child).head? =
      (left child).head? := by
    intro child
    simp only [seen, anyOrder]
    split
    · cases left child <;> rfl
    · rename_i visited
      exact (lists.ordered child).head?_inside (since child) visited
  obtain ⟨lined, shown, rfl, spans, isShown, isGroup, payloads⟩ :=
    lists.exists_shown shows
  have isPivot : rule.pivot filled shown =
      leastChild lineup.heads filled := by
    simp only [pivot, anyOrder, spans]
  have pivotIn := lists.head?_any
    (lists.leastChild_doc filled since reaches)
  rw [← isPivot] at pivotIn
  refine ⟨lined, shown, ⟨?_, isGroup, payloads, .refl, id, pivotIn⟩,
    rfl, spans⟩
  simp only [lineUp?, anyOrder]
  exact isShown

/-- The next match in any order, and what is left then. -/
theorem searched_anyOrder {lineup : Lineup σ size} {left : Fin size → Visits}
    (does : Serves fails serves) (anyOrder : rule.arrangement = .anyOrder)
    (filled : 0 < size) (last? : Option Span) (since : From doc left)
    (lists : Lists serves left lineup)
    (reaches : ∃ child : Fin size, lineup.heads[child].doc = doc) :
    (searchAnyOrder rule.slop last? doc filled).Meets lineup
      (Searched rule filled serves doc last? left)
      (fun _ reached => fails ∧ Delayed rule filled serves doc last? left
        reached) := by
  obtain ⟨lined, shown, tried, rfl, spans⟩ :=
    tried_of_anyOrder anyOrder filled since lists reaches
  obtain ⟨pivot, isLeast⟩ : ∃ pivot, leastChild lineup.heads filled = pivot :=
    ⟨_, rfl⟩
  have isPivot : rule.pivot filled shown = pivot := by
    simp only [Nearness.pivot, anyOrder, spans, isLeast]
  have pivotIn := lists.leastChild_doc filled since reaches
  rw [isLeast] at pivotIn
  obtain ⟨window, bounded⟩ := exists_window lineup.heads pivot doc
  have found : (rule.fitting? filled doc shown).filter (isNew last?) =
      if window.length ≤ rule.slop + covered lineup.heads ∧
        isNew last? window then some window else none := by
    rw [fitting?_of_anyOrder anyOrder (by
      rw [spans, isLeast]
      exact bounded), spans, filter_isNew_ite]
  by_cases accepted : window.length ≤ rule.slop + covered lineup.heads ∧
      isNew last? window
  · rw [Attempt.meets_of_ok (searchAnyOrder_of_accepted isLeast bounded
      accepted)]
    exact tried.searched_hit (found.trans (if_pos accepted)) isPivot lists
      pivotIn bounded
  · have misses := found.trans (if_neg accepted)
    obtain ⟨visit, rest, isLeft, span⟩ := lists.exists_eq_cons pivot
    have served := lists.served pivot
    have ordered := lists.ordered pivot
    have passed : pass pivot lined.left =
        Function.update lined.left pivot rest := by
      rw [Nearness.pass, isLeft, List.tail_cons]
    rw [isLeft] at served ordered
    have moved := served_nextBeyond does served ordered
    rw [span] at moved
    rw [Attempt.meets_congr (searchAnyOrder_of_refused isLeast bounded
      accepted)]
    simp only [Attempt.meets_bind, Attempt.meets_within]
    apply moved.mono
    · rintro (_ | ⟨later, beyond⟩) cursor ⟨isNext, servedOn⟩
      · have none := Option.map_eq_none_iff.mp isNext.symm
        apply tried.outlook_eq_nil misses isPivot
        rw [isLeft]
        exact List.head?_eq_none_iff.mp none
      · obtain ⟨second, isSecond, rfl⟩ :=
          Option.map_eq_some_iff.mp isNext.symm
        obtain ⟨others, rfl⟩ := List.head?_eq_some_iff.mp isSecond
        have placed := lists.place pivot (servedOn (List.cons_ne_nil _ _))
          ordered.tail
        have isHead : (lineup.place pivot cursor second.span).heads[pivot] =
            second.span := by
          simp [Lineup.place]
        obtain ⟨sinceOn, skips, leaves⟩ := tried.of_next misses since isPivot
          ⟨by rw [isLeft]; exact placed, isHead⟩
        rw [← passed] at placed
        have := lineup.room_place_lt pivot cursor beyond
        simp only [Option.elim_some, Attempt.meets_bind, Attempt.meets_update]
        split
        · rename_i inDoc
          apply (searched_anyOrder does anyOrder filled last? sinceOn placed
            ⟨pivot, isHead.symm ▸ inDoc⟩).mono
          · intro _ _ searched
            exact searched.of_skips (skips inDoc)
          · rintro _ _ ⟨mayFail, delayed⟩
            exact ⟨mayFail, delayed.of_skips (skips inDoc)⟩
        · rename_i elsewhere
          exact leaves elsewhere
    · rintro _ cursor ⟨mayFail, still⟩
      have kept := lists.keep pivot still (by rw [isLeft]) ordered
      rw [← isLeft, Function.update_eq_self] at kept
      exact ⟨mayFail, lined.left, .refl, kept⟩
termination_by lineup.room

end Lineup

end PositionalSearch
