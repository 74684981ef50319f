import Mathlib.Algebra.BigOperators.Fin
import Mathlib.Algebra.Order.BigOperators.Group.Finset
import PositionalSearch.Proofs.Lasting.Nodes
import PositionalSearch.Proofs.Order.Proximity
import PositionalSearch.Proofs.Search
import PositionalSearch.Proofs.Stock.Basic

/-!
# The stock of a proximity node

A head was paid for when its child answered it.  In a document ahead of the
node it counts as stock, for a match is answered there at the cost of all
heads; within the document of a match each further match costs a span of the
child that moves on.
-/

namespace PositionalSearch

open Cursor (Affords Orderly Paid Rationed)

variable {σ : Type} {size : Nat} {stock : σ → Nat} {called : Nat → σ → Prop}
  {budget : Nat} {left : Fin size → Nat} {due? : Option (Fin size)}
  {standing : Standing}

/-- The document of a head lies ahead of a node. -/
def Standing.awaits : Standing → Span → Bool
  | .unstarted, _ => true
  | .on span, head => span.doc < head.doc
  | .atDocument _, _ | .exhausted, _ | .closed, _ => false

/-- What a head counts for. -/
def Standing.credit (standing : Standing) (head? : Option Span) : Nat :=
  (head?.any standing.awaits).toNat

/-- At its end a node awaits no head. -/
theorem Standing.credit_exhausted (head? : Option Span) :
    Standing.exhausted.credit head? = 0 := by
  cases head? <;> rfl

/-- To enter a child is to make its first move and note what it answers. -/
theorem Gathering.meets_enter_iff [Cursor σ] {gathering : Gathering σ size}
    {target? : Option DocId} {child : Fin size}
    {answered : Option Span → Gathering σ size → Prop}
    {failed : Failure → Gathering σ size → Prop} :
    (enter target? child).Meets gathering answered failed ↔
      (Cursor.enter target?).Meets gathering.cursors[child]
        (fun span? cursor => answered span? { gathering with
          cursors := gathering.cursors.set child cursor
          found := span?.elim gathering.found
            fun span => gathering.found.set child (some span) })
        (fun failure cursor => failed failure { gathering with
          cursors := gathering.cursors.set child cursor }) := by
  simp only [Attempt.Meets, Attempt.run, enter]
  cases Cursor.enter target? gathering.cursors[child] with
  | mk outcome cursor =>
      cases outcome with
      | error failure => rfl
      | ok span? => cases span? <;> rfl

namespace Alignment

variable {alignment reached : Alignment σ size}

/-- The head of a child, as long as the alignment is not over. -/
def head? : Alignment σ size → Fin size → Option Span
  | .starting gathering, child => gathering.found[child]
  | .running lineup, child => some lineup.heads[child]
  | .ended _, _ => none

/-- What is left of a child, its head included. -/
def share (stock : σ → Nat) (standing : Standing) (alignment : Alignment σ size)
    (child : Fin size) : Nat :=
  stock alignment.cursors[child] + standing.credit (alignment.head? child)

/--
Each child is within the budget, and has no more left than it had; the one that
is due moved on.
-/
structure Within (stock : σ → Nat) (called : Nat → σ → Prop)
    (standing : Standing) (budget : Nat) (left : Fin size → Nat)
    (due? : Option (Fin size)) (alignment : Alignment σ size) : Prop where
  affords : Each (fun _ => Affords stock called budget) alignment.cursors
  share_le : ∀ child, alignment.share stock standing child ≤ left child
  paid : ∀ child ∈ due?, stock alignment.cursors[child] < left child

namespace Within

variable
  (within : Within stock called standing budget left due? alignment)
  {child : Fin size} {cursor : σ}
include within

theorem stock_le (child : Fin size) :
    stock alignment.cursors[child] ≤ left child :=
  Nat.le_trans (Nat.le_add_right _ _) (within.share_le child)

/-- A child answered a span, whatever its head is now. -/
theorem answers
    (paid : Paid stock called budget (stock alignment.cursors[child]) true
      cursor)
    (cursors : reached.cursors = alignment.cursors.set child cursor)
    (others : ∀ other, other ≠ child →
      reached.head? other = alignment.head? other) :
    Within stock called standing budget left due? reached := by
  have cursorAt : ∀ other : Fin size, reached.cursors[other] =
      if child = other then cursor else alignment.cursors[other] := by
    intro other
    rw [cursors, Lineup.getElem_set_fin]
  have before := within.stock_le child
  have lowers : stock cursor < stock alignment.cursors[child] := paid.2
  refine ⟨cursors ▸ within.affords.set paid.1, fun other => ?_,
    fun other isDue => ?_⟩
  · by_cases same : child = other
    · subst same
      have credit := Bool.toNat_le ((reached.head? child).any standing.awaits)
      simp only [share, Standing.credit, cursorAt, ↓reduceIte]
      omega
    · have other_le := within.share_le other
      simpa only [share, cursorAt, if_neg same, others other (Ne.symm same)]
        using other_le
  · rw [cursorAt]
    split
    · rename_i same
      exact same ▸ Nat.lt_of_lt_of_le lowers before
    · exact within.paid other isDue

/-- A child was called and answered no span; no head is another one. -/
theorem stops
    (paid : Paid stock called budget (stock alignment.cursors[child]) false
      cursor)
    (cursors : reached.cursors = alignment.cursors.set child cursor)
    (heads : ∀ other, ∀ head ∈ reached.head? other,
      alignment.head? other = some head) :
    Within stock called standing (budget + 1) left none reached := by
  have cursorAt : ∀ other : Fin size, reached.cursors[other] =
      if child = other then cursor else alignment.cursors[other] := by
    intro other
    rw [cursors, Lineup.getElem_set_fin]
  have affords : Each (fun _ => Affords stock called (budget + 1))
      alignment.cursors := fun other => (within.affords other).mono
    (Nat.le_succ _)
  refine ⟨cursors ▸ affords.set paid.1, fun other => ?_, nofun⟩
  have lowers : stock reached.cursors[other] ≤
      stock alignment.cursors[other] := by
    rw [cursorAt]
    split
    · rename_i same
      exact same ▸ paid.2
    · exact Nat.le_refl _
  refine Nat.le_trans (Nat.add_le_add lowers ?_) (within.share_le other)
  cases isHead : reached.head? other with
  | none => exact Nat.zero_le _
  | some head => rw [heads other head isHead]

/-- A child ended, and with it the alignment. -/
theorem ends
    (paid : Paid stock called budget (stock alignment.cursors[child]) false
      cursor) :
    Within stock called standing (budget + 1) left none
      (.ended (alignment.cursors.set child cursor)) := by
  refine within.stops paid rfl fun other head isHead => ?_
  cases isHead

/-- Without another call nothing more is due. -/
theorem relax : Within stock called standing (budget + 1) left none
    alignment :=
  ⟨fun child => (within.affords child).mono (Nat.le_succ _), within.share_le,
    nofun⟩

end Within

/-- A child of a lineup answered its next head. -/
theorem Within.placed {lineup : Lineup σ size} {child : Fin size} {cursor : σ}
    (within : Within stock called standing budget left due? (.running lineup))
    (paid : Paid stock called budget (stock lineup.cursors[child]) true cursor)
    (head : Span) :
    Within stock called standing budget left due?
      (.running (lineup.place child cursor head)) := by
  refine within.answers paid rfl fun other isOther => ?_
  simp only [head?, Lineup.place]
  rw [Lineup.getElem_set_fin, if_neg (Ne.symm isOther)]

/-- What an answer leaves for further calls, and no answer for those to come. -/
def Went {α : Type} (stock : σ → Nat) (called : Nat → σ → Prop)
    (standing : Standing) (budget : Nat) (left : Fin size → Nat)
    (due? : Option (Fin size)) : Option α → Alignment σ size → Prop
  | some _ => Within stock called standing budget left due?
  | none => Within stock called standing (budget + 1) left none

variable [Cursor σ] (below : Rationed stock called)
include below

/-- Each move of a child is within the budget until one has ended. -/
theorem led : Lineup.Led
    (fun lineup : Lineup σ size =>
      Within stock called standing budget left due? (.running lineup))
    (fun lineup => Within stock called standing (budget + 1) left none
      (.ended lineup.cursors))
    (fun failure lineup => failure.Ordinary →
      Within stock called standing (budget + 1) left none
        (.running lineup)) where
  moves lineup child move within _ := by
    rw [Lineup.meets_move_iff]
    refine Attempt.Meets.mono (below.bills_go (within.affords child) move)
      ?_ ?_
    · intro head? cursor paid
      cases head? with
      | none => exact within.ends paid
      | some head => exact within.placed paid head
    · exact fun failure cursor paid ordinary =>
        within.stops (paid ordinary) rfl fun _ _ isHead => isHead
  ends within := ⟨within.relax.affords, within.stock_le, nofun⟩

omit [Cursor σ] below in
/-- No cursor of a lineup is billed for a breach. -/
theorem accounts : Lineup.Accounts
    (fun lineup : Lineup σ size =>
      Within stock called standing budget left due? (.running lineup))
    (fun lineup => Within stock called standing (budget + 1) left none
      (.ended lineup.cursors))
    (fun failure lineup => failure.Ordinary →
      Within stock called standing (budget + 1) left none
        (.running lineup)) where
  noted _ _ ordinary := absurd rfl (ordinary _)
  unnoted _ _ ordinary := absurd rfl (ordinary _)

omit [Cursor σ] below in
theorem charges_onLineup {α : Type} {lineup : Lineup σ size}
    {work : Attempt Failure (Lineup σ size) (Option α)}
    (meets : work.Meets lineup
      (Lineup.Leaves
        (fun lineup =>
          Within stock called standing budget left due? (.running lineup))
        fun lineup => Within stock called standing (budget + 1) left none
          (.ended lineup.cursors))
      fun failure lineup => failure.Ordinary →
        Within stock called standing (budget + 1) left none
          (.running lineup)) :
    (onLineup work).Meets (.running lineup)
      (Went stock called standing budget left due?)
      fun failure reached => failure.Ordinary →
        Within stock called standing (budget + 1) left none reached := by
  refine (meets_onLineup meets).mono ?_ ?_
  · rintro value? _ (⟨rfl, further, rfl, ended⟩ |
      ⟨value, further, rfl, rfl, within⟩)
    · exact ended
    · exact within
  · rintro failure _ ⟨further, rfl, fails⟩
    exact fails

/-- The children are placed within the budget. -/
theorem charges_placeAll {gathering : Gathering σ size}
    (within : Within stock called standing budget left due?
      (.starting gathering))
    (target? : Option DocId) (children : List (Fin size)) :
    (Gathering.placeAll target? children).Meets gathering
      (fun all reached =>
        (all = true → Within stock called standing budget left due?
          (.starting reached)) ∧
        (all = false → Within stock called standing (budget + 1) left none
          (.ended reached.cursors)))
      fun failure reached => failure.Ordinary →
        Within stock called standing (budget + 1) left none
          (.starting reached) := by
  induction children generalizing gathering with
  | nil => exact ⟨fun _ => within, nofun⟩
  | cons child rest ih =>
      simp only [Gathering.placeAll, Attempt.meets_bind, Attempt.meets_look]
      cases gathering.found[child] with
      | some span => exact ih within
      | none =>
          simp only [Attempt.meets_bind]
          rw [Gathering.meets_enter_iff]
          refine Attempt.Meets.mono
            (below.bills_enter (within.affords child) target?) ?_ ?_
          · intro span? cursor paid
            cases span? with
            | none => exact ⟨nofun, fun _ => within.ends paid⟩
            | some span =>
                refine ih (within.answers paid rfl fun other isOther => ?_)
                simp only [head?, Option.elim_some]
                rw [Lineup.getElem_set_fin, if_neg (Ne.symm isOther)]
          · exact fun failure cursor paid ordinary =>
              within.stops (paid ordinary) rfl fun _ _ isHead => isHead

/-- The children are placed and aligned within the budget. -/
theorem charges_start {gathering : Gathering σ size}
    (within : Within stock called standing budget left due?
      (.starting gathering))
    (target? : Option DocId) :
    (start target?).Meets (.starting gathering)
      (Went stock called standing budget left due?)
      fun failure reached => failure.Ordinary →
        Within stock called standing (budget + 1) left none reached := by
  apply meets_starting
  apply (charges_placeAll below within target? gathering.order).imp_answer
  rintro all placed ⟨goesOn, ended⟩
  refine ⟨fun isEnded => ended isEnded,
    fun _ _ ordinary => absurd rfl (ordinary _), ?_⟩
  intro isAll lineup isLineup
  have within := goesOn isAll
  have running : Within stock called standing budget left due?
      (.running lineup) := by
    rw [Option.mem_def, Gathering.lineup?] at isLineup
    split at isLineup
    · cases isLineup
      refine ⟨within.affords, fun child => ?_, within.paid⟩
      simpa [share, head?, cursors] using within.share_le child
    · cases isLineup
  exact charges_onLineup ((led below).meets_align running)

/-- The child that moves on is paid for, and then the others are aligned. -/
theorem charges_resume {lineup : Lineup σ size}
    (within : Within stock called standing budget left none (.running lineup))
    (pivot : Fin size) (doc : DocId) :
    (onLineup (Lineup.resume pivot doc)).Meets (.running lineup)
      (Went stock called standing budget left (some pivot))
      fun failure reached => failure.Ordinary →
        Within stock called standing (budget + 1) left none reached := by
  apply charges_onLineup
  rw [Lineup.resume, Attempt.meets_bind, Lineup.advance, Lineup.meets_move_iff]
  refine Attempt.Meets.mono (below.bills_go (within.affords pivot) .next) ?_ ?_
  · intro head? cursor paid
    cases head? with
    | none => exact within.ends paid
    | some head =>
        have moved := within.placed paid head
        have due : Within stock called standing budget left (some pivot)
            (.running (lineup.place pivot cursor head)) := by
          refine ⟨moved.affords, moved.share_le, ?_⟩
          rintro _ ⟨rfl⟩
          have lowers : stock cursor < stock lineup.cursors[pivot] := paid.2
          simp only [cursors, Lineup.place]
          rw [Lineup.getElem_set_fin, if_pos rfl]
          exact Nat.lt_of_lt_of_le lowers (within.stock_le pivot)
        dsimp only
        split
        · exact due
        · exact (led below).meets_align due
  · exact fun failure cursor paid ordinary =>
      within.stops (paid ordinary) rfl fun _ _ isHead => isHead

end Alignment

namespace Proximity

variable {node reached : Proximity σ size}

/-- What the node may still answer. -/
def supply (stock : σ → Nat) (node : Proximity σ size) : Nat :=
  ∑ child, node.alignment.share stock node.standing child

theorem supply_ofCursors [Cursor σ] (arrangement : Arrangement) (slop : Nat)
    (collects : Bool) (cursors : Vector σ size) :
    (ofCursors arrangement slop collects cursors).supply stock =
      ∑ child : Fin size, stock cursors[child] := by
  refine Finset.sum_congr rfl fun child _ => ?_
  have noHead : (Alignment.ofCursors cursors).head? child = none := by
    simp [Alignment.head?, Alignment.ofCursors]
  simp only [ofCursors, Alignment.share, noHead]
  rfl

/-- The children are within the budget, and the node went on in order. -/
structure Called {ι : Type} [Cursor σ] (disturb : ι → σ → σ) (stock : σ → Nat)
    (called : Nat → σ → Prop) (budget : Nat) (node : Proximity σ size) :
    Prop where
  kept : ∃ arrangement slop last?,
    Keeps (Orderly disturb) arrangement slop last? node
  children : Each (fun _ => Affords stock called budget) node.alignment.cursors

/-- A move goes on with the children within the budget. -/
structure Going (stock : σ → Nat) (called : Nat → σ → Prop)
    (standing : Standing) (budget : Nat) (left : Fin size → Nat)
    (due? : Option (Fin size)) (node : Proximity σ size) : Prop where
  within : node.alignment.Within stock called standing budget left due?
  stands : node.standing = standing

/-- What an answer leaves for the search, and no answer for the end. -/
def Prepared (stock : σ → Nat) (called : Nat → σ → Prop) (standing : Standing)
    (budget : Nat) (left : Fin size → Nat)
    (owes : Option (Fin size) → Prop) :
    Option DocId → Proximity σ size → Prop
  | some _, reached => ∃ due?, owes due? ∧
      Going stock called standing budget left due? reached
  | none, reached => Going stock called standing (budget + 1) left none reached

/-- What a match leaves, and the end. -/
def Answers (stock : σ → Nat) (called : Nat → σ → Prop) (standing : Standing)
    (budget : Nat) (left : Fin size → Nat)
    (owes : Option (Fin size) → Prop) :
    Option Span → Proximity σ size → Prop
  | some span, reached => reached.standing = .on span ∧ ∃ due?, owes due? ∧
      reached.alignment.Within stock called standing budget left due?
  | none, reached => reached.standing = .exhausted ∧
      reached.alignment.Within stock called standing (budget + 1) left none

/--
After a match in a document the child that moves on is due, unless the move
goes on to a later document.
-/
structure Owes (origin : Proximity σ size) (move : Move)
    (due? : Option (Fin size)) : Prop where
  goes : origin.standing.planNext = .ok true
  owed : ∀ span, origin.standing = .on span →
    (∃ pivot ∈ origin.pivot?, due? = some pivot) ∨
      ∃ target ∈ move.target?, span.doc < target

section

variable {owes : Option (Fin size) → Prop}

theorem charges_aligning {α : Type}
    {work : Attempt Failure (Alignment σ size) (Option α)}
    (stands : node.standing = standing)
    (meets : work.Meets node.alignment
      (Alignment.Went stock called standing budget left due?)
      fun failure reached => failure.Ordinary →
        reached.Within stock called standing (budget + 1) left none) :
    (aligning work).Meets node
      (fun value? reached => reached.standing = standing ∧
        Alignment.Went stock called standing budget left due? value?
          reached.alignment)
      fun failure reached => failure.Ordinary →
        Going stock called standing (budget + 1) left none reached := by
  rw [aligning, Attempt.meets_within]
  exact meets.mono (fun _ _ went => ⟨stands, went⟩)
    fun _ _ fails ordinary => ⟨fails ordinary, stands⟩

/-- Children of which one has ended are not called. -/
theorem meets_aligning_of_ended {cursors : Vector σ size}
    (ended : node.alignment = .ended cursors)
    {work : Attempt Failure (Lineup σ size) (Option DocId)}
    {answered : Option DocId → Proximity σ size → Prop}
    {failed : Failure → Proximity σ size → Prop} :
    (aligning (Alignment.onLineup work)).Meets node answered failed ↔
      answered none node := by
  apply Attempt.meets_of_ok
  obtain ⟨arrangement, slop, collects, alignment⟩ := node
  cases ended
  rfl

variable [Cursor σ] (below : Rationed stock called)
include below

theorem charges_searchFrom
    (going : Going stock called standing budget left due? node)
    (isDue : owes due?) (doc : DocId) :
    (searchFrom doc).Meets node
      (Answers stock called standing budget left owes)
      fun failure reached => failure.Ordinary →
        Going stock called standing (budget + 1) left none reached := by
  simp only [searchFrom, Attempt.meets_bind, Attempt.meets_look]
  have searches : (Alignment.onLineup (Lineup.search node.arrangement node.slop
      node.standing.span? doc)).Meets node.alignment
        (Alignment.Went stock called standing budget left due?)
        fun failure reached => failure.Ordinary →
          reached.Within stock called standing (budget + 1) left none := by
    have within := going.within
    cases which : node.alignment with
    | starting gathering => exact fun ordinary => absurd rfl (ordinary _)
    | running lineup =>
        rw [which] at within
        exact Alignment.charges_onLineup ((Alignment.led below).meets_search
          Alignment.accounts within _ _ _ _)
    | ended cursors =>
        rw [which] at within
        exact within.relax
  apply (charges_aligning going.stands searches).imp_answer
  rintro found? reached ⟨stands, went⟩
  cases found? with
  | none => exact ⟨rfl, went⟩
  | some found =>
      simp only [Attempt.meets_bind, Attempt.meets_update, Attempt.meets_pure]
      refine meets_collect.mono ?_ ?_
      · rintro _ _ ⟨payloads, rfl⟩
        exact ⟨rfl, due?, isDue, went⟩
      · rintro _ _ ⟨payloads, rfl⟩ _
        exact ⟨went.relax, stands⟩

theorem charges_settle {doc? : Option DocId}
    (prepared : Prepared stock called standing budget left owes doc? node) :
    (settle doc?).Meets node
      (Answers stock called standing budget left owes)
      fun failure reached => failure.Ordinary →
        Going stock called standing (budget + 1) left none reached := by
  cases doc? with
  | none => exact ⟨rfl, prepared.within⟩
  | some doc =>
      obtain ⟨due?, isDue, going⟩ := prepared
      exact charges_searchFrom below going isDue doc

/-- The child that is due pays for the match after the last one. -/
theorem charges_resume
    (going : Going stock called standing budget left none node)
    (placed : ∀ gathering, node.alignment = .starting gathering →
      ∀ span, standing ≠ .on span) :
    resume.Meets node
      (Prepared stock called standing budget left fun due? =>
        ∀ span, standing = .on span → ∃ pivot ∈ node.pivot?, due? = some pivot)
      fun failure reached => failure.Ordinary →
        Going stock called standing (budget + 1) left none reached := by
  have failed : ∀ failure : Failure, failure.Ordinary →
      Going stock called standing (budget + 1) left none node :=
    fun _ _ => ⟨going.within.relax, going.stands⟩
  have within := going.within
  simp only [resume, Attempt.meets_bind, Attempt.meets_look]
  cases which : node.alignment with
  | starting gathering =>
      rw [which] at within
      apply (charges_aligning going.stands
        (which ▸ Alignment.charges_start below within none)).imp_answer
      rintro doc? reached ⟨stands, went⟩
      cases doc? with
      | none => exact ⟨went, stands⟩
      | some doc =>
          exact ⟨none, fun span isOn =>
            absurd isOn (placed gathering which span), went, stands⟩
  | running lineup =>
      rw [which] at within
      simp only [Attempt.meets_bind, Attempt.meets_ofExcept,
        Attempt.meets_ofOption]
      refine ⟨fun doc _ => ⟨fun pivot isPivot => ?_, fun _ => failed _⟩,
        fun _ _ => failed _⟩
      apply (charges_aligning going.stands
        (which ▸ Alignment.charges_resume below within pivot doc)).imp_answer
      rintro first? reached ⟨stands, went⟩
      cases first? with
      | none => exact ⟨went, stands⟩
      | some first =>
          exact ⟨some pivot, fun _ _ => ⟨pivot, isPivot, rfl⟩, went, stands⟩
  | ended cursors =>
      rw [which] at within
      simp only [Attempt.meets_bind, Attempt.meets_ofExcept,
        Attempt.meets_ofOption]
      refine ⟨fun doc _ => ⟨fun pivot isPivot => ?_, fun _ => failed _⟩,
        fun _ _ => failed _⟩
      rw [meets_aligning_of_ended which]
      exact ⟨going.within.relax, going.stands⟩

theorem charges_resumeAt
    (going : Going stock called standing budget left none node)
    (isDue : owes none) (target : DocId) :
    (resumeAt target).Meets node
      (Prepared stock called standing budget left owes)
      fun failure reached => failure.Ordinary →
        Going stock called standing (budget + 1) left none reached := by
  have prepares : ∀ (doc? : Option DocId) (reached : Proximity σ size),
      reached.standing = standing ∧ Alignment.Went stock called standing budget
        left none doc? reached.alignment →
        Prepared stock called standing budget left owes doc? reached := by
    rintro doc? reached ⟨stands, went⟩
    cases doc? with
    | none => exact ⟨went, stands⟩
    | some doc => exact ⟨none, isDue, went, stands⟩
  have within := going.within
  simp only [resumeAt, Attempt.meets_bind, Attempt.meets_look]
  cases which : node.alignment with
  | starting gathering =>
      rw [which] at within
      exact (charges_aligning going.stands (which ▸
        Alignment.charges_start below within (some target))).imp_answer prepares
  | running lineup =>
      rw [which] at within
      have seeks := Alignment.charges_onLineup
        ((Alignment.led below).meets_seek within target)
      exact (charges_aligning going.stands (which ▸ seeks)).imp_answer prepares
  | ended cursors =>
      rw [meets_aligning_of_ended which]
      exact ⟨going.within.relax, going.stands⟩

/-- What a move of the node costs. -/
theorem charges_go
    (placed : ∀ gathering, node.alignment = .starting gathering →
      ∀ span, node.standing ≠ .on span)
    (affords : Each (fun _ => Affords stock called budget)
      node.alignment.cursors)
    (move : Move) :
    (Cursor.go move).Meets node
      (Answers stock called node.standing budget
        (node.alignment.share stock node.standing) (Owes node move))
      fun failure reached => failure.Ordinary →
        Going stock called node.standing (budget + 1)
          (node.alignment.share stock node.standing) none reached := by
  have going : Going stock called node.standing budget
      (node.alignment.share stock node.standing) none node :=
    ⟨⟨affords, fun _ => Nat.le_refl _, nofun⟩, rfl⟩
  have refused : ∀ failure : Failure, failure.Ordinary →
      Going stock called node.standing (budget + 1)
        (node.alignment.share stock node.standing) none node :=
    fun _ _ => ⟨going.within.relax, rfl⟩
  have onward : node.standing.planNext = .ok true →
      (do settle (← resume) : Attempt Failure (Proximity σ size) _).Meets node
        (Answers stock called node.standing budget
          (node.alignment.share stock node.standing) (Owes node move))
        fun failure reached => failure.Ordinary →
          Going stock called node.standing (budget + 1)
            (node.alignment.share stock node.standing) none reached := by
    intro goes
    rw [Attempt.meets_bind]
    apply (charges_resume below going placed).imp_answer
    intro doc? reached prepared
    refine charges_settle below ?_
    cases doc? with
    | none => exact prepared
    | some doc =>
        obtain ⟨due?, owed, goingOn⟩ := prepared
        exact ⟨due?, ⟨goes, fun span isOn => .inl (owed span isOn)⟩, goingOn⟩
  cases move with
  | next =>
      exact planned.meets_next (fun _ => refused _)
        (fun isExhausted => ⟨isExhausted, going.within.relax⟩) onward
  | seek target =>
      refine planned.meets_seek (fun _ => refused _)
        (fun isExhausted => ⟨isExhausted, going.within.relax⟩)
        (fun _ _ _ => refused _) (fun span isOn _ => onward ?_)
        fun goes => ?_
      · change node.standing = .on span at isOn
        rw [isOn]
        rfl
      · have isDue : Owes node (.seek target) none := by
          refine ⟨Standing.planNext_of_planSeek goes, fun span isOn => ?_⟩
          exact .inr ⟨target, rfl, Standing.doc_lt_of_planSeek (isOn ▸ goes)⟩
        rw [Attempt.meets_bind]
        exact (charges_resumeAt below going isDue target).imp_answer
          fun _ _ prepared => charges_settle below prepared

end

/-! ## A match costs a span -/

section

variable {lineup : Lineup σ size} {span : Span}

theorem share_running (child : Fin size) :
    (Alignment.running lineup).share stock standing child =
      stock lineup.cursors[child] +
        (standing.awaits lineup.heads[child]).toNat := rfl

/-- A head in the document of the last match counts for nothing. -/
theorem share_of_inside {child : Fin size}
    (inside : lineup.heads[child].doc = span.doc) :
    (Alignment.running lineup).share stock (.on span) child =
      stock lineup.cursors[child] := by
  have behind : (Standing.on span).awaits lineup.heads[child] = false := by
    rw [Standing.awaits, inside]
    exact decide_eq_false (UInt64.lt_irrefl _)
  rw [share_running, behind]
  rfl

/-- A match with heads that the node was before uses up all of them. -/
theorem share_lt_of_awaits
    (within : (Alignment.running lineup).Within stock called standing budget
      left due?)
    (together : lineup.Together span.doc) {child : Fin size}
    (awaits : standing.awaits lineup.heads[child]) :
    (Alignment.running lineup).share stock (.on span) child < left child := by
  have share_le := within.share_le child
  rw [share_running, awaits] at share_le
  rw [share_of_inside (together child)]
  exact share_le

/-- A match leaves less than there was. -/
theorem supply_lt {keeps : Option Span → σ → Prop}
    {arrangement : Arrangement} {slop : Nat} {last? : Option Span}
    {origin : Proximity σ size} {move : Move}
    (kept : Keeps keeps arrangement slop last? origin)
    (owes : Owes origin move due?)
    (within : (Alignment.running lineup).Within stock called origin.standing
      budget left due?)
    (primed : Primed keeps origin span.doc lineup) (filled : 0 < size)
    (after : ∀ last ∈ last?, last < span)
    (floor : ∀ target ∈ move.target?, target ≤ span.doc) :
    ∑ child, (Alignment.running lineup).share stock (.on span) child <
      ∑ child, left child := by
  -- No share grows.  In a document that the node was before all heads count no
  -- longer; in that of the last match the child that moved on has less in stock.
  suffices spends :
      (∀ child, (Alignment.running lineup).share stock (.on span) child ≤
        left child) ∧
      ∃ child, (Alignment.running lineup).share stock (.on span) child <
        left child by
    obtain ⟨atMost, child, less⟩ := spends
    exact Finset.sum_lt_sum (fun child _ => atMost child)
      ⟨child, Finset.mem_univ child, less⟩
  have ahead : lineup.Together span.doc →
      (∀ child : Fin size, origin.standing.awaits lineup.heads[child]) →
        (∀ child, (Alignment.running lineup).share stock (.on span) child ≤
          left child) ∧
        ∃ child, (Alignment.running lineup).share stock (.on span) child <
          left child := fun together awaits =>
    ⟨fun child => Nat.le_of_lt
      (share_lt_of_awaits within together (awaits child)),
      ⟨0, filled⟩, share_lt_of_awaits within together (awaits _)⟩
  have last := kept.span?_eq owes.goes
  have goes := owes.goes
  cases stands : origin.standing with
  | exhausted =>
      rw [stands] at goes
      cases goes
  | closed =>
      rw [stands] at goes
      cases goes
  | atDocument doc =>
      have standsAt := kept.stands
      simp only [StandsAt, stands] at standsAt
  | unstarted =>
      rcases primed.gathered with together | ⟨_, old, _, isOn, _⟩
      · exact ahead together fun child => by rw [stands]; rfl
      · rw [stands] at isOn
        cases isOn
  | on old =>
      rw [stands] at last
      have notAfter : old.doc ≤ span.doc :=
        Span.doc_le_of_lt (after old last.symm)
      by_cases before : old.doc < span.doc
      · rcases primed.gathered with together | ⟨_, same, _, isOn, inDoc, _⟩
        · refine ahead together fun child => ?_
          rw [stands, Standing.awaits, together child]
          exact decide_eq_true before
        · rw [stands] at isOn
          cases isOn
          exact absurd inDoc (UInt64.ne_of_lt before)
      · have same : old.doc = span.doc :=
          UInt64.le_antisymm notAfter (UInt64.not_lt.mp before)
        obtain ⟨pivot, isPivot, rfl⟩ : ∃ pivot ∈ origin.pivot?,
            due? = some pivot := by
          refine (owes.owed old stands).resolve_right ?_
          rintro ⟨target, isTarget, later⟩
          exact before (UInt64.lt_of_lt_of_le later (floor target isTarget))
        have inside : lineup.heads[pivot].doc = span.doc := by
          rcases primed.gathered with together | ⟨_, _, _, _, _, _, stays⟩
          · exact together pivot
          · exact stays pivot isPivot
        refine ⟨fun child => ?_, pivot, ?_⟩
        · have share_le := within.share_le child
          rw [share_running, stands, Standing.awaits, same] at share_le
          exact share_le
        · rw [share_of_inside inside]
          exact within.paid pivot rfl

end

theorem rationed {ι : Type} [Cursor σ] {disturb : ι → σ → σ}
    (below : Rationed stock called) (bound : Nat) :
    Rationed (supply stock : Proximity σ size → Nat)
      fun calls => Called disturb stock called (bound + calls) := by
  intro calls node isCalled move
  obtain ⟨⟨arrangement, slop, last?, kept⟩, children⟩ := isCalled
  have placed : ∀ gathering, node.alignment = .starting gathering →
      ∀ span, node.standing ≠ .on span := by
    intro gathering starting span isOn
    have stands := kept.stands
    simp only [StandsAt, isOn, starting] at stands
    exact stands.2
  refine Attempt.Meets.mono ((charges_go below placed children move).and
    (meets_go Orderly.disciplined kept move)) ?_ ?_
  · rintro span? reached ⟨answers, advances, matched⟩
    cases span? with
    | none =>
        obtain ⟨stands, within⟩ := answers
        refine ⟨⟨⟨arrangement, slop, last?, advances.2⟩, within.affords⟩, ?_⟩
        show reached.supply stock ≤ node.supply stock
        refine Finset.sum_le_sum fun child _ => ?_
        rw [stands, Alignment.share, Standing.credit_exhausted]
        exact within.stock_le child
    | some span =>
        obtain ⟨stands, due?, owes, within⟩ := answers
        obtain ⟨after, floor, _, keptOn⟩ := advances
        obtain ⟨lineup, pivot, running, primed, filled, _⟩ :=
          matched span rfl
        refine ⟨⟨⟨arrangement, slop, some span, keptOn⟩,
          within.relax.affords⟩, ?_⟩
        rw [running] at within
        have less := supply_lt kept owes within primed filled after floor
        rw [supply, stands, running]
        exact less
  · rintro failure reached ⟨charged, keptOn⟩ ordinary
    obtain ⟨within, stands⟩ := charged ordinary
    refine ⟨⟨⟨arrangement, slop, last?, keptOn⟩, within.affords⟩, ?_⟩
    show reached.supply stock ≤ node.supply stock
    refine Finset.sum_le_sum fun child _ => ?_
    rw [stands]
    exact within.share_le child

end Proximity

end PositionalSearch
