import PositionalSearch.Proofs.Order.Discipline
import PositionalSearch.Proximity.Arrangement

/-!
# Lineups go onward

Whatever is done to a lineup, its heads are the last spans of its children and
only move on.  An alignment that succeeds has all heads in one document, and a
match is found without moving a head out of the document searched.
-/

namespace PositionalSearch

open Cursor (Disciplined Advances)

namespace Lineup

variable {σ : Type} {size : Nat} {keeps : Option Span → σ → Prop}
  {lineup middle reached : Lineup σ size}

/-! ## Conditions on heads -/

/-- Each head is the last span of its child. -/
def Kept (keeps : Option Span → σ → Prop) (lineup : Lineup σ size) : Prop :=
  ∀ child : Fin size, keeps (some lineup.heads[child]) lineup.cursors[child]

/-- No head is in an earlier document. -/
def Since (doc : DocId) (lineup : Lineup σ size) : Prop :=
  ∀ child : Fin size, doc ≤ lineup.heads[child].doc

/-- All heads are in one document. -/
def Together (doc : DocId) (lineup : Lineup σ size) : Prop :=
  ∀ child : Fin size, lineup.heads[child].doc = doc

/-- Work that keeps the lineup and moves heads on only. -/
structure Onward (keeps : Option Span → σ → Prop)
    (lineup reached : Lineup σ size) : Prop where
  kept : Kept keeps reached
  order : reached.order = lineup.order
  heads : ∀ child : Fin size, lineup.heads[child] ≤ reached.heads[child]

/-- Heads in a document have not left it. -/
def Stays (doc : DocId) (lineup reached : Lineup σ size) : Prop :=
  ∀ child : Fin size, lineup.heads[child].doc = doc →
    reached.heads[child].doc = doc

theorem Together.since {doc : DocId} (together : Together doc lineup) :
    Since doc lineup := fun child => UInt64.le_of_eq (together child).symm

theorem Onward.refl (kept : Kept keeps lineup) :
    Onward keeps lineup lineup :=
  ⟨kept, rfl, fun _ => le_refl _⟩

theorem Onward.trans (first : Onward keeps lineup middle)
    (second : Onward keeps middle reached) : Onward keeps lineup reached :=
  ⟨second.kept, second.order.trans first.order,
    fun child => le_trans (first.heads child) (second.heads child)⟩

theorem Onward.since (onward : Onward keeps lineup reached) {doc : DocId}
    (since : Since doc lineup) : Since doc reached := fun child =>
  UInt64.le_trans (since child) (Span.doc_le_of_le (onward.heads child))

/-- Heads that are together in the end were so from the start. -/
theorem Onward.together_before (onward : Onward keeps lineup reached)
    {doc : DocId} (since : Since doc lineup)
    (together : Together doc reached) : Together doc lineup := fun child => by
  have notAfter := Span.doc_le_of_le (onward.heads child)
  rw [together child] at notAfter
  exact UInt64.le_antisymm notAfter (since child)

theorem Stays.trans {doc : DocId} (first : Stays doc lineup middle)
    (second : Stays doc middle reached) : Stays doc lineup reached :=
  fun child inDoc => second child (first child inDoc)

/-! ## One child moves -/

/-- Only the place that is set changes. -/
theorem getElem_set_fin {α : Type} (items : Vector α size)
    (child other : Fin size) (item : α) :
    (items.set child item child.isLt)[other] =
      if child = other then item else items[other] := by
  simp only [getElem_place, Vector.getElem_set, Fin.ext_iff]

/-- A child moved to a later span, or ended. -/
structure Moved (keeps : Option Span → σ → Prop) (child : Fin size)
    (span? : Option Span) (lineup reached : Lineup σ size) : Prop where
  onward : Onward keeps lineup reached
  heads : reached.heads = span?.elim lineup.heads
    fun head => lineup.heads.set child head child.isLt

/-- A child that moved to a span has it as its head. -/
theorem Moved.head_eq {child : Fin size} {span : Span}
    (moved : Moved keeps child (some span) lineup reached) :
    reached.heads[child] = span := by
  have heads : reached.heads = lineup.heads.set child span := moved.heads
  rw [heads, getElem_set_fin, if_pos rfl]

theorem onward_keep (kept : Kept keeps lineup) {child : Fin size}
    {cursor : σ} (placed : keeps (some lineup.heads[child]) cursor) :
    Onward keeps lineup (lineup.keep child cursor) := by
  refine ⟨fun other => ?_, rfl, fun _ => le_refl _⟩
  simp only [keep, getElem_set_fin]
  split
  · rename_i same
    exact same ▸ placed
  · exact kept other

theorem Kept.place (kept : Kept keeps lineup) {child : Fin size} {cursor : σ}
    {span : Span} (placed : keeps (some span) cursor) :
    Kept keeps (lineup.place child cursor span) := by
  intro other
  simp only [Lineup.place, getElem_set_fin]
  split
  · exact placed
  · exact kept other

theorem onward_place (kept : Kept keeps lineup) {child : Fin size}
    {cursor : σ} {span : Span} (placed : keeps (some span) cursor)
    (later : lineup.heads[child] < span) :
    Onward keeps lineup (lineup.place child cursor span) := by
  refine ⟨kept.place placed, rfl, fun other => ?_⟩
  simp only [Lineup.place, getElem_set_fin]
  split
  · rename_i same
    exact same ▸ le_of_lt later
  · exact le_refl _

/-- A move to a span of the document leaves no head out of it. -/
theorem Moved.stays {child : Fin size} {span : Span} {doc : DocId}
    (moved : Moved keeps child (some span) lineup reached)
    (inDoc : span.doc = doc) :
    Stays doc lineup reached ∧ reached.heads[child].doc = doc := by
  have heads : reached.heads = lineup.heads.set child span := moved.heads
  refine ⟨fun other otherIn => ?_, ?_⟩
  · rw [heads, getElem_set_fin]
    split
    · exact inDoc
    · exact otherIn
  · rw [heads, getElem_set_fin]
    simpa using inDoc

/-- A head behind the document is not one that is in it. -/
theorem Moved.stays_of_lt {child : Fin size} {span? : Option Span}
    {doc : DocId} (moved : Moved keeps child span? lineup reached)
    (behind : lineup.heads[child].doc < doc) : Stays doc lineup reached := by
  intro other otherIn
  cases span? with
  | none =>
      have heads : reached.heads = lineup.heads := moved.heads
      rw [heads]
      exact otherIn
  | some span =>
      have heads : reached.heads = lineup.heads.set child span := moved.heads
      rw [heads, getElem_set_fin]
      split
      · rename_i same
        rw [same, otherIn] at behind
        exact absurd behind (UInt64.lt_irrefl _)
      · exact otherIn

variable {ι : Type} [Cursor σ] {disturb : ι → σ → σ}

/-- What a move of one child comes to. -/
theorem meets_move (below : Disciplined disturb keeps)
    (kept : Kept keeps lineup) (child : Fin size) (move : Move) :
    (Lineup.move child (Cursor.go move)).Meets lineup
      (fun span? reached => Moved keeps child span? lineup reached ∧
        ∀ span ∈ span?, lineup.heads[child] < span ∧
          ∀ target ∈ move.target?, target ≤ span.doc)
      (fun _ reached => Onward keeps lineup reached) := by
  have moves := below.moves (kept child) move
  simp only [Attempt.Meets, Attempt.run, Lineup.move] at moves ⊢
  cases outcome : (Cursor.go move : Attempt Failure σ _)
      lineup.cursors[child] with
  | mk result cursor =>
      rw [outcome] at moves
      cases result with
      | error failure => exact onward_keep kept moves
      | ok span? =>
          cases span? with
          | none => exact ⟨⟨onward_keep kept moves.2, rfl⟩, by simp⟩
          | some span =>
              obtain ⟨after, floor, _, placed⟩ := moves
              refine ⟨⟨onward_place kept placed (after _ rfl), rfl⟩, ?_⟩
              rintro _ ⟨rfl⟩
              exact ⟨after _ rfl, floor⟩

/-- What a move beyond its head comes to, for one child. -/
theorem meets_advanceBeyond (below : Disciplined disturb keeps)
    (kept : Kept keeps lineup) (child : Fin size) (head : Span) :
    (advanceBeyond child head).Meets lineup
      (fun later? reached =>
        Moved keeps child (later?.map Subtype.val) lineup reached)
      (fun _ reached => Onward keeps lineup reached) := by
  simp only [advanceBeyond, advance, Attempt.meets_bind]
  apply (meets_move below kept child .next).imp_answer
  rintro span? reached ⟨moved, _⟩
  unfold Cursor.demandBeyond
  cases span? with
  | none => exact moved
  | some later =>
      dsimp only
      split
      · exact moved
      · exact moved.onward

/-! ## Alignment -/

theorem meets_agree (below : Disciplined disturb keeps)
    (kept : Kept keeps lineup) (target : DocId)
    (children : List (Fin size)) :
    (agree target children).Meets lineup
      (fun agreement reached => Onward keeps lineup reached ∧
        Stays target lineup reached ∧
          (agreement = .agreed → ∀ child ∈ children,
            reached.heads[child].doc = target))
      (fun _ reached => Onward keeps lineup reached) := by
  induction children generalizing lineup with
  | nil =>
      exact ⟨.refl kept, fun _ inDoc => inDoc, fun _ _ member =>
        absurd member List.not_mem_nil⟩
  | cons child rest ih =>
      simp only [agree, Attempt.meets_bind, Attempt.meets_look]
      split
      · exact ⟨.refl kept, fun _ inDoc => inDoc, by simp⟩
      · rename_i notBeyond
        split
        · rename_i inDoc
          apply (ih kept).imp_answer
          rintro agreement reached ⟨onward, stays, agreed⟩
          refine ⟨onward, stays, fun isAgreed other member => ?_⟩
          rcases List.mem_cons.mp member with rfl | later
          · exact stays _ inDoc
          · exact agreed isAgreed other later
        · rename_i elsewhere
          have behind : lineup.heads[child].doc < target := by grind
          simp only [Attempt.meets_bind]
          apply (meets_move below kept child (.seek target)).imp_answer
          rintro (_ | landed) middle ⟨moved, landing⟩
          · exact ⟨moved.onward, moved.stays_of_lt behind, by simp⟩
          · dsimp only
            split
            · exact ⟨moved.onward, moved.stays_of_lt behind, by simp⟩
            · rename_i notPassed
              have inDoc : landed.doc = target :=
                UInt64.le_antisymm (UInt64.not_lt.mp notPassed)
                  ((landing landed rfl).2 target rfl)
              obtain ⟨stays, placed⟩ := moved.stays inDoc
              refine (ih moved.onward.kept).mono ?_ fun _ _ onward =>
                moved.onward.trans onward
              rintro agreement reached ⟨onward, staysOn, agreed⟩
              refine ⟨moved.onward.trans onward, stays.trans staysOn,
                fun isAgreed other member => ?_⟩
              rcases List.mem_cons.mp member with rfl | later
              · exact staysOn _ placed
              · exact agreed isAgreed other later

/-- Aligned children that all take part have their heads in one document. -/
theorem meets_alignAt {lineup : Lineup σ size}
    (below : Disciplined disturb keeps) (kept : Kept keeps lineup)
    (all : ∀ child, child ∈ lineup.order)
    (target : DocId) :
    (alignAt target).Meets lineup
      (fun doc? reached => Onward keeps lineup reached ∧
        ∀ doc ∈ doc?, Together doc reached)
      (fun _ reached => Onward keeps lineup reached) := by
  rw [alignAt]
  simp only [Attempt.meets_bind, Attempt.meets_look]
  apply (meets_agree below kept target lineup.order).imp_answer
  rintro agreement reached ⟨onward, _, agreed⟩
  cases agreement with
  | agreed =>
      refine ⟨onward, ?_⟩
      rintro _ ⟨rfl⟩ child
      exact agreed rfl child (all child)
  | ended => exact ⟨onward, by simp⟩
  | ahead later beyond =>
      have := DocId.room_lt_room beyond
      refine (meets_alignAt below onward.kept
        (fun child => onward.order ▸ all child) later).mono ?_
        fun _ _ further => onward.trans further
      rintro doc? last ⟨further, together⟩
      exact ⟨onward.trans further, together⟩
termination_by target.room

theorem meets_align (below : Disciplined disturb keeps)
    (kept : Kept keeps lineup) (all : ∀ child, child ∈ lineup.order) :
    Lineup.align.Meets lineup
      (fun doc? reached => Onward keeps lineup reached ∧
        ∀ doc ∈ doc?, Together doc reached)
      (fun _ reached => Onward keeps lineup reached) := by
  simp only [Lineup.align, Attempt.meets_bind, Attempt.meets_look]
  cases lineup.latestDocument? with
  | none => exact ⟨.refl kept, by simp⟩
  | some target => exact meets_alignAt below kept all target

/-- Children that lag behind a document are brought to it or beyond. -/
theorem meets_seekLagging (below : Disciplined disturb keeps)
    (kept : Kept keeps lineup) (target : DocId)
    (children : List (Fin size)) :
    (seekLagging target children).Meets lineup
      (fun all reached => Onward keeps lineup reached ∧
        (all = true → ∀ child ∈ children,
          target ≤ reached.heads[child].doc))
      (fun _ reached => Onward keeps lineup reached) := by
  induction children generalizing lineup with
  | nil => exact ⟨.refl kept, fun _ _ member =>
      absurd member List.not_mem_nil⟩
  | cons child rest ih =>
      simp only [seekLagging, Attempt.meets_bind, Attempt.meets_look]
      split
      · simp only [Attempt.meets_bind]
        apply (meets_move below kept child (.seek target)).imp_answer
        rintro (_ | landed) middle ⟨moved, landing⟩
        · exact ⟨moved.onward, by simp⟩
        · refine (ih moved.onward.kept).mono ?_ fun _ _ onward =>
            moved.onward.trans onward
          rintro all reached ⟨onward, ahead⟩
          refine ⟨moved.onward.trans onward, fun isAll other member => ?_⟩
          rcases List.mem_cons.mp member with rfl | later
          · have placed := (moved.stays rfl).2
            have landedAt := (landing landed rfl).2 target rfl
            rw [← placed] at landedAt
            exact UInt64.le_trans landedAt
              (Span.doc_le_of_le (onward.heads other))
          · exact ahead isAll other later
      · rename_i notBehind
        apply (ih kept).imp_answer
        rintro all reached ⟨onward, ahead⟩
        refine ⟨onward, fun isAll other member => ?_⟩
        rcases List.mem_cons.mp member with rfl | later
        · exact UInt64.le_trans (UInt64.not_lt.mp notBehind)
            (Span.doc_le_of_le (onward.heads _))
        · exact ahead isAll other later

theorem meets_seek (below : Disciplined disturb keeps)
    (kept : Kept keeps lineup) (all : ∀ child, child ∈ lineup.order)
    (target : DocId) :
    (Lineup.seek target).Meets lineup
      (fun doc? reached => Onward keeps lineup reached ∧
        ∀ doc ∈ doc?, Together doc reached ∧ Since target reached)
      (fun _ reached => Onward keeps lineup reached) := by
  simp only [Lineup.seek, Attempt.meets_bind, Attempt.meets_look]
  apply (meets_seekLagging below kept target lineup.order).imp_answer
  rintro isAll middle ⟨onward, ahead⟩
  cases isAll with
  | false => exact ⟨onward, by simp⟩
  | true =>
      have since : Since target middle := fun child =>
        ahead rfl child (all child)
      refine (meets_align below onward.kept
        fun child => onward.order ▸ all child).mono ?_
        fun _ _ further => onward.trans further
      rintro doc? reached ⟨further, together⟩
      exact ⟨onward.trans further, fun doc isDoc =>
        ⟨together doc isDoc, further.since since⟩⟩

/-- The pivot stays in the document, or all children go to another one. -/
theorem meets_resume (below : Disciplined disturb keeps)
    (kept : Kept keeps lineup) (all : ∀ child, child ∈ lineup.order)
    (pivot : Fin size) (doc : DocId) :
    (Lineup.resume pivot doc).Meets lineup
      (fun doc? reached => Onward keeps lineup reached ∧
        ∀ next ∈ doc?, Together next reached ∨
          next = doc ∧ Stays doc lineup reached ∧
            reached.heads[pivot].doc = doc)
      (fun _ reached => Onward keeps lineup reached) := by
  simp only [Lineup.resume, advance, Attempt.meets_bind]
  apply (meets_move below kept pivot .next).imp_answer
  rintro (_ | head) middle ⟨moved, _⟩
  · exact ⟨moved.onward, by simp⟩
  · dsimp only
    split
    · rename_i inDoc
      refine ⟨moved.onward, ?_⟩
      rintro _ ⟨rfl⟩
      exact .inr ⟨rfl, moved.stays inDoc⟩
    · refine (meets_align below moved.onward.kept
        fun child => moved.onward.order ▸ all child).mono ?_
        fun _ _ further => moved.onward.trans further
      rintro doc? reached ⟨further, together⟩
      exact ⟨moved.onward.trans further, fun next isNext =>
        .inl (together next isNext)⟩

/-! ## Search -/

/-- A child that catches up inside a document is the only one to move. -/
theorem meets_catchUp {lineup : Lineup σ size}
    (below : Disciplined disturb keeps) (kept : Kept keeps lineup)
    (doc : DocId) (floor : Position) {child : Fin size} {head : Span}
    (placed : lineup.heads[child] = head) :
    (catchUp doc floor child head).Meets lineup
      (fun finding reached => Onward keeps lineup reached ∧
        ∀ found, finding = .hit found → Stays doc lineup reached ∧
          (∀ other, other ≠ child →
            reached.heads[other] = lineup.heads[other]) ∧
          reached.heads[child] = found ∧ found.doc = doc)
      (fun _ reached => Onward keeps lineup reached) := by
  rw [catchUp]
  split
  · rename_i inDoc
    split
    · simp only [Attempt.meets_bind]
      apply (meets_advanceBeyond below kept child head).imp_answer
      rintro (_ | ⟨later, beyond⟩) middle moved
      · exact ⟨moved.onward, by simp⟩
      · have := Span.room_lt_room beyond
        have heads : middle.heads = lineup.heads.set child later :=
          moved.heads
        refine (meets_catchUp below moved.onward.kept doc floor
          moved.head_eq).mono ?_ fun _ _ onward => moved.onward.trans onward
        rintro finding reached ⟨onward, hit⟩
        refine ⟨moved.onward.trans onward, fun found isHit => ?_⟩
        obtain ⟨stays, others, reachedAt, landed⟩ := hit found isHit
        refine ⟨fun other otherIn => ?_, fun other apart => ?_, reachedAt,
          landed⟩
        · by_cases same : other = child
          · rw [same, reachedAt, landed]
          · rw [others other same, heads, getElem_set_fin,
              if_neg (Ne.symm same)]
            exact otherIn
        · rw [others other apart, heads, getElem_set_fin,
            if_neg (Ne.symm apart)]
    · refine ⟨.refl kept, ?_⟩
      rintro found ⟨rfl⟩
      exact ⟨fun _ inside => inside, fun _ _ => rfl, placed, inDoc⟩
  · exact ⟨.refl kept, by simp⟩
termination_by head.room

/-- Children that catch up one after the other stay in the document. -/
theorem meets_stretch (below : Disciplined disturb keeps)
    (kept : Kept keeps lineup) (doc : DocId) (floor : Position)
    (children : List (Fin size)) :
    (stretch doc floor children).Meets lineup
      (fun finding reached => Onward keeps lineup reached ∧
        (finding = .hit () → Stays doc lineup reached ∧
          (∀ other, other ∉ children →
            reached.heads[other] = lineup.heads[other]) ∧
          ∀ child ∈ children, reached.heads[child].doc = doc))
      (fun _ reached => Onward keeps lineup reached) := by
  induction children generalizing lineup floor with
  | nil =>
      exact ⟨.refl kept, fun _ => ⟨fun _ inside => inside, fun _ _ => rfl,
        fun _ member => absurd member List.not_mem_nil⟩⟩
  | cons child rest ih =>
      simp only [stretch, Attempt.meets_bind, Attempt.meets_look]
      apply (meets_catchUp below kept doc floor rfl).imp_answer
      rintro finding middle ⟨onward, hit⟩
      cases finding with
      | left => exact ⟨onward, by simp⟩
      | ended => exact ⟨onward, by simp⟩
      | hit head =>
          obtain ⟨stays, others, placed, landed⟩ := hit head rfl
          refine (ih onward.kept head.stop).mono ?_
            fun _ _ further => onward.trans further
          rintro finding reached ⟨further, hitOn⟩
          refine ⟨onward.trans further, fun isHit => ?_⟩
          obtain ⟨staysOn, othersOn, placedOn⟩ := hitOn isHit
          refine ⟨stays.trans staysOn, fun other apart => ?_,
            fun other member => ?_⟩
          · rw [List.mem_cons, not_or] at apart
            rw [othersOn other apart.2, others other apart.1]
          · rcases List.mem_cons.mp member with rfl | later
            · exact staysOn other (by rw [placed, landed])
            · exact placedOn other later

/-- The heads lie as an arrangement asks, and the match is read off them. -/
def Fits (arrangement : Arrangement) (slop : Nat) (heads : Vector Span size)
    (found : Match size) : Prop :=
  ∃ filled : 0 < size,
    match arrangement with
    | .inOrder =>
        found.pivot = ⟨0, filled⟩ ∧ found.span.start = heads[0].start ∧
          found.span.stop = heads[lastPlace filled].stop ∧
            ∃ slack, gaps? heads.toList = some slack ∧ slack ≤ slop
    | .anyOrder =>
        found.pivot = leastChild heads filled ∧
          found.span.start = heads[found.pivot].start ∧
            found.span.stop = latestStop heads ∧
              found.span.length ≤ slop + covered heads

/-- A search in one document found a match there, read off the heads. -/
structure Found (arrangement : Arrangement) (slop : Nat) (last : Option Span)
    (doc : DocId) (reached : Lineup σ size) (found : Match size) :
    Prop where
  fits : Fits arrangement slop reached.heads found
  doc_eq : found.span.doc = doc
  isNew : isNew last found.span

theorem first_not_mem_tail (filled : 0 < size) :
    (⟨0, filled⟩ : Fin size) ∉ (List.finRange size).tail := by
  obtain ⟨count, rfl⟩ := Nat.exists_eq_succ_of_ne_zero (Nat.ne_of_gt filled)
  simp [List.finRange_succ, Fin.ext_iff]

theorem meets_searchInOrder {lineup : Lineup σ size}
    (below : Disciplined disturb keeps) (kept : Kept keeps lineup)
    (slop : Nat) (last : Option Span) (doc : DocId) (filled : 0 < size)
    {first : Span} (placed : lineup.heads[(⟨0, filled⟩ : Fin size)] = first) :
    (searchInOrder slop last doc filled first).Meets lineup
      (fun finding reached => Onward keeps lineup reached ∧
        ∀ found, finding = .hit found → Stays doc lineup reached ∧
          Found .inOrder slop last doc reached found)
      (fun _ reached => Onward keeps lineup reached) := by
  rw [searchInOrder]
  simp only [Attempt.meets_bind]
  apply (meets_stretch below kept doc first.stop _).imp_answer
  rintro finding middle ⟨onward, hit⟩
  cases finding with
  | left => exact ⟨onward, by simp⟩
  | ended => exact ⟨onward, by simp⟩
  | hit _ =>
      obtain ⟨stays, others, inside⟩ := hit rfl
      have firstAt := others ⟨0, filled⟩ (first_not_mem_tail filled)
      simp only [Attempt.meets_bind, Attempt.meets_ofOption]
      refine ⟨fun candidate bounded => ⟨fun slack gaps => ?_,
        fun _ => onward⟩, fun _ => onward⟩
      obtain ⟨isDoc, isStart, isStop⟩ := Span.ofBounds?_eq_some bounded
      split
      · rename_i accepted
        refine ⟨onward, ?_⟩
        rintro found ⟨rfl⟩
        refine ⟨stays, ⟨filled, rfl, ?_, isStop, slack, gaps, accepted.1⟩,
          isDoc, accepted.2⟩
        rw [isStart, ← placed]
        exact congrArg Span.start firstAt.symm
      · simp only [Attempt.meets_bind]
        refine (meets_advanceBeyond below onward.kept ⟨0, filled⟩ first).mono
          ?_ fun _ _ further => onward.trans further
        rintro (_ | ⟨later, beyond⟩) next moved
        · exact ⟨onward.trans moved.onward, by simp⟩
        · have := Span.room_lt_room beyond
          dsimp only
          split
          · rename_i inDoc
            have staysOn := (moved.stays inDoc).1
            refine (meets_searchInOrder below moved.onward.kept slop last doc
              filled moved.head_eq).mono ?_ fun _ _ further =>
                (onward.trans moved.onward).trans further
            rintro finding reached ⟨further, hitOn⟩
            refine ⟨(onward.trans moved.onward).trans further,
              fun found isHit => ?_⟩
            obtain ⟨staysLast, isFound⟩ := hitOn found isHit
            exact ⟨(stays.trans staysOn).trans staysLast, isFound⟩
          · exact ⟨onward.trans moved.onward, by simp⟩
termination_by first.room

theorem meets_searchAnyOrder {lineup : Lineup σ size}
    (below : Disciplined disturb keeps) (kept : Kept keeps lineup)
    (slop : Nat) (last : Option Span) (doc : DocId) (filled : 0 < size) :
    (searchAnyOrder slop last doc filled).Meets lineup
      (fun finding reached => Onward keeps lineup reached ∧
        ∀ found, finding = .hit found → Stays doc lineup reached ∧
          Found .anyOrder slop last doc reached found)
      (fun _ reached => Onward keeps lineup reached) := by
  cases bounded : Span.ofBounds? doc
      lineup.heads[leastChild lineup.heads filled].start
      (latestStop lineup.heads) with
  | none =>
      rw [Attempt.meets_of_error (searchAnyOrder_of_unbounded rfl bounded)]
      exact .refl kept
  | some window =>
      obtain ⟨isDoc, isStart, isStop⟩ := Span.ofBounds?_eq_some bounded
      by_cases accepted : window.length ≤ slop + covered lineup.heads ∧
          isNew last window
      · rw [Attempt.meets_of_ok (searchAnyOrder_of_accepted rfl bounded
          accepted)]
        refine ⟨.refl kept, ?_⟩
        rintro found ⟨rfl⟩
        exact ⟨fun _ inside => inside,
          ⟨filled, rfl, isStart, isStop, accepted.1⟩, isDoc, accepted.2⟩
      · rw [Attempt.meets_congr (searchAnyOrder_of_refused rfl bounded
          accepted)]
        simp only [Attempt.meets_bind, Attempt.meets_within]
        apply (below.meets_nextBeyond (kept _)).mono
        · rintro (_ | ⟨later, beyond⟩) cursor placed
          · exact ⟨onward_keep kept placed, by simp⟩
          · have onward := onward_place kept placed beyond
            have moved : Moved keeps _ (some later) lineup _ := ⟨onward, rfl⟩
            have := lineup.room_place_lt _ cursor beyond
            simp only [Option.elim_some, Attempt.meets_bind,
              Attempt.meets_update]
            split
            · rename_i inDoc
              apply (meets_searchAnyOrder below onward.kept slop last doc
                filled).mono
              · intro finding reached searched
                obtain ⟨further, hit⟩ := searched
                constructor
                · exact onward.trans further
                · intro found isHit
                  obtain ⟨stays, isFound⟩ := hit found isHit
                  exact ⟨(moved.stays inDoc).1.trans stays, isFound⟩
              · intro _ _ further
                exact onward.trans further
            · exact ⟨onward, by simp⟩
        · intro _ _ placed
          exact onward_keep kept placed
termination_by lineup.room

/-- A match in one document is found without leaving the document. -/
theorem meets_searchIn (below : Disciplined disturb keeps)
    (kept : Kept keeps lineup) (arrangement : Arrangement) (slop : Nat)
    (last : Option Span) (doc : DocId) :
    (searchIn arrangement slop last doc).Meets lineup
      (fun finding reached => Onward keeps lineup reached ∧
        ∀ found, finding = .hit found → Stays doc lineup reached ∧
          Found arrangement slop last doc reached found)
      (fun _ reached => Onward keeps lineup reached) := by
  unfold searchIn
  split
  · rename_i filled
    cases arrangement with
    | inOrder =>
        simp only [Attempt.meets_bind, Attempt.meets_look]
        exact meets_searchInOrder below kept slop last doc filled rfl
    | anyOrder => exact meets_searchAnyOrder below kept slop last doc filled
  · exact ⟨.refl kept, by simp⟩

/--
A match is found in the document searched first, or in one that all children
went to together.
-/
theorem meets_search {lineup : Lineup σ size}
    (below : Disciplined disturb keeps) (kept : Kept keeps lineup)
    (all : ∀ child, child ∈ lineup.order) (arrangement : Arrangement)
    (slop : Nat) (last : Option Span) (doc : DocId) :
    (Lineup.search arrangement slop last doc).Meets lineup
      (fun found? reached => Onward keeps lineup reached ∧
        ∀ found ∈ found?, Found arrangement slop last found.span.doc reached
            found ∧
          (found.span.doc = doc ∧ Stays doc lineup reached ∨
            doc < found.span.doc ∧ Together found.span.doc reached))
      (fun _ reached => Onward keeps lineup reached) := by
  rw [Lineup.search]
  simp only [Attempt.meets_bind]
  apply (meets_searchIn below kept arrangement slop last doc).imp_answer
  rintro finding middle ⟨onward, hit⟩
  cases finding with
  | ended => exact ⟨onward, by simp⟩
  | hit found =>
      obtain ⟨stays, isFound⟩ := hit found rfl
      refine ⟨onward, ?_⟩
      rintro _ ⟨rfl⟩
      exact ⟨⟨isFound.fits, rfl, isFound.isNew⟩,
        .inl ⟨isFound.doc_eq, stays⟩⟩
  | left =>
      simp only [Attempt.meets_bind]
      refine (meets_align below onward.kept
        fun child => onward.order ▸ all child).mono ?_
        fun _ _ further => onward.trans further
      rintro (_ | later) aligned ⟨further, together⟩
      · exact ⟨onward.trans further, by simp⟩
      · have through := onward.trans further
        dsimp only
        split
        · rename_i beyond
          have := DocId.room_lt_room beyond
          refine (meets_search below further.kept
            (fun child => through.order ▸ all child) arrangement slop last
            later).mono ?_ fun _ _ next => through.trans next
          rintro found? reached ⟨next, hitOn⟩
          refine ⟨through.trans next, fun found isFound => ?_⟩
          obtain ⟨isHit, ⟨rfl, stays⟩ | ⟨after, gathered⟩⟩ :=
            hitOn found isFound
          · exact ⟨isHit, .inr ⟨beyond, fun child =>
              stays child (together _ rfl child)⟩⟩
          · exact ⟨isHit, .inr ⟨UInt64.lt_trans beyond after, gathered⟩⟩
        · exact through
termination_by doc.room

end Lineup

end PositionalSearch
