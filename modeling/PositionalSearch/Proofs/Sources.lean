import PositionalSearch.Proofs.Lasting.LeadsTo
import PositionalSearch.Proofs.Order.Query

/-!
# Where payloads come from

A term and a proximity node keep the payloads of the span they stand on; other
nodes show those of a child.  What is kept is not changed by a failed move.  A
child that is shown may have gone on to a later span before the move failed,
and then shows the payloads stored there, although the node stands where it
stood.
-/

namespace PositionalSearch

/--
Where the payloads shown come from: where the node stands and, unless it keeps
them itself, the place of the child that is shown and where its own come from.
-/
inductive Source
  | own (standing : Standing)
  | child (standing : Standing) (place : Nat) (source : Source)
deriving DecidableEq

namespace Level

variable {σ : Type} [Cursor σ]

/-- Where the payloads of a level come from. -/
def source (below : σ → Source) : Level σ → Source
  | .union node =>
      match node.queue.least? with
      | some head =>
          .child node.standing head.child (below node.children[head.child])
      | none => .own node.standing
  | .without node => .child node.standing 0 (below node.included)
  | .region node => .child node.standing 0 (below node.child)
  | .metered node => below node.child
  | level => .own (Cursor.standing level)

variable {below : σ → Source} {size : Nat} {node : Union σ size}

theorem source_union_of_none (least : node.queue.least? = none) :
    (Level.union node).source below = .own node.standing := by
  simp only [source, least]

theorem source_union_of_some {head : Head (Fin size)}
    (least : node.queue.least? = some head) :
    (Level.union node).source below =
      .child node.standing head.child (below node.children[head.child]) := by
  simp only [source, least]

end Level

namespace Union

variable {σ : Type} [Cursor σ] {size : Nat} {node : Union σ size}

theorem payloads_of_none (least : node.queue.least? = none) :
    Cursor.payloads node =
      (node.standing.requireSpan >>= fun _ => .ok []) := by
  simp only [Cursor.payloads, least]
  rfl

theorem payloads_of_some {head : Head (Fin size)}
    (least : node.queue.least? = some head) :
    Cursor.payloads node = (node.standing.requireSpan >>= fun _ =>
      Cursor.payloads node.children[head.child]) := by
  simp only [Cursor.payloads, least]

end Union

namespace Tree

/-- Where the payloads of a tree come from. -/
def source : {height : Nat} → Tree height → Source
  | 0, tree => nomatch tree
  | _ + 1, level => Level.source source level

end Tree

/-! ## Cursors that keep their payloads -/

namespace Cursor

variable {ι σ : Type} [Cursor σ] {spared : Failure → Prop} {holds : σ → Prop}

/--
Only where the cursor stood on a span before, a failed move leaves it on one,
and if the failure is spared with the payloads it had.
-/
structure Retains (spared : Failure → Prop) (holds : σ → Prop) : Prop where
  lasting : Lasting (fun _ => True) holds
  failed : ∀ {cursor : σ}, holds cursor → ∀ move : Move,
    (go move).Meets cursor (fun _ _ => True) fun failure reached =>
      ∀ span, standing reached = .on span → standing cursor = .on span ∧
        (spared failure → payloads reached = payloads cursor)

/-- The cursor goes on in order, and a span it stands on is its last one. -/
def Placed (disturb : ι → σ → σ) (cursor : σ) : Prop :=
  ∃ last?, Orderly disturb last? cursor ∧
    ∀ span, standing cursor = .on span → last? = some span

/--
The cursor has got to a span or beyond; as long as it stands on that span it
has the given payloads.
-/
def Remembers (disturb : ι → σ → σ) (span : Span)
    (shown : Except Failure (List Payload)) (cursor : σ) : Prop :=
  ∃ last, span ≤ last ∧ Orderly disturb (some last) cursor ∧
    (∀ current, standing cursor = .on current → last = current) ∧
    (standing cursor = .on span → payloads cursor = shown)

variable {disturb : ι → σ → σ}

namespace Retains

variable (retains : Retains spared holds)
include retains

theorem lasting_placed : Lasting (fun _ => True) fun cursor =>
    holds cursor ∧ Placed disturb cursor := by
  rintro cursor ⟨held, last?, orderly, stands⟩ move
  refine ((retains.lasting held move).and ((retains.failed held move).and
    (Orderly.disciplined.moves orderly move))).mono ?_ ?_
  · rintro (_ | span) reached ⟨heldOn, _, advances⟩
    · obtain ⟨ended, kept⟩ := advances
      refine ⟨heldOn, last?, kept, fun current isOn => ?_⟩
      rw [ended] at isOn
      cases isOn
    · obtain ⟨_, _, isOn, kept⟩ := advances
      refine ⟨heldOn, some span, kept, fun current isCurrent => ?_⟩
      rw [isOn] at isCurrent
      cases isCurrent
      rfl
  · rintro failure reached ⟨heldOn, still, kept⟩ _
    exact ⟨heldOn trivial, last?, kept, fun current isOn =>
      stands current (still current isOn).1⟩

/-- Once past a span the cursor does not come back to it. -/
theorem lasting_remembers (span : Span)
    (shown : Except Failure (List Payload)) : Lasting spared fun cursor =>
    holds cursor ∧ Remembers disturb span shown cursor := by
  rintro cursor ⟨held, last, reaches, orderly, stands, shows⟩ move
  refine ((retains.lasting held move).and ((retains.failed held move).and
    (Orderly.disciplined.moves orderly move))).mono ?_ ?_
  · rintro (_ | later) reached ⟨heldOn, _, advances⟩
    · obtain ⟨ended, kept⟩ := advances
      refine ⟨heldOn, last, reaches, kept, fun current isOn => ?_,
        fun isOn => ?_⟩
      · rw [ended] at isOn
        cases isOn
      · rw [ended] at isOn
        cases isOn
    · obtain ⟨after, _, isOn, kept⟩ := advances
      have beyond : span < later := lt_of_le_of_lt reaches (after last rfl)
      refine ⟨heldOn, later, beyond.le, kept, fun current isCurrent => ?_,
        fun isSpan => ?_⟩
      · rw [isOn] at isCurrent
        cases isCurrent
        rfl
      · rw [isOn] at isSpan
        cases isSpan
        exact absurd beyond (lt_irrefl span)
  · rintro failure reached ⟨heldOn, still, kept⟩ isSpared
    refine ⟨heldOn trivial, last, reaches, kept, fun current isOn =>
      stands current (still current isOn).1, fun isOn => ?_⟩
    obtain ⟨stood, same⟩ := still span isOn
    exact (same isSpared).trans (shows stood)

/-- Standing where it stood before, the cursor has the payloads it had. -/
theorem payloads_eq {stored : σ → Except Failure (List Payload)}
    (shows : ∀ cursor : σ, payloads cursor =
      ((standing cursor).requireSpan >>= fun _ => stored cursor))
    {first before reached : σ} (held : holds first)
    (placed : Placed disturb first)
    (opened : LeadsTo (fun _ => True) first before)
    (later : LeadsTo spared before reached)
    (same : standing reached = standing before) :
    payloads reached = payloads before := by
  cases stands : standing before with
  | on span =>
      obtain ⟨heldOn, last?, orderly, isLast⟩ :
          holds before ∧ Placed disturb before :=
        opened.holds retains.lasting_placed ⟨held, placed⟩
      rw [isLast span stands] at orderly
      have remembers : Remembers disturb span (payloads before) before := by
        refine ⟨span, le_refl span, orderly, fun current isOn => ?_,
          fun _ => rfl⟩
        rw [stands] at isOn
        cases isOn
        rfl
      obtain ⟨_, _, _, _, _, remembered⟩ :=
        later.holds (retains.lasting_remembers span (payloads before))
          ⟨heldOn, remembers⟩
      exact remembered (same.trans stands)
  | unstarted => rw [shows, shows, same, stands]; rfl
  | atDocument doc => rw [shows, shows, same, stands]; rfl
  | exhausted => rw [shows, shows, same, stands]; rfl
  | closed => rw [shows, shows, same, stands]; rfl

end Retains

end Cursor

open Attempt (Sustains sustains_look_bind sustains_ofExcept sustains_ofOption
  sustains_true sustains_within)
open Cursor (Lasting Orderly Placed LeadsTo Retains lasting_leadsTo)

/-! ## Terms -/

namespace Term

variable {π : Type} [Postings π] {original term : Term π}

/-- A term on a span stood there before, with the payload it has. -/
def Recalls (original term : Term π) : Prop :=
  ∀ span, term.standing = .on span →
    original.standing = .on span ∧ term.payload? = original.payload?

omit [Postings π] in
theorem sustains_reading_recalls {α : Type} (call : Attempt ReadFault π α)
    (recalls : original.Recalls term) :
    (reading call).Sustains (fun _ => True) (original.Recalls) term := by
  simp only [Sustains, reading, Attempt.meets_mapFailure]
  exact (sustains_within (sustains_true call term.postings)
    fun _ _ => recalls).imp_failure fun _ _ kept _ => kept trivial

/-- A term that has just reached a document is on no span. -/
theorem recalls_standAt (doc : DocId) (term : Term π) :
    original.Recalls (standAt doc term) := by
  intro span isOn
  cases isOn

theorem recalls_advance {term : Term π} (recalls : original.Recalls term)
    (doc : DocId) :
    (advance doc).Meets term (fun _ _ => True)
      fun _ reached => original.Recalls reached := by
  rw [advance]
  simp only [Attempt.meets_bind, Attempt.meets_look]
  split
  · simp only [takePosition, Attempt.meets_bind]
    refine (sustains_reading_recalls _ recalls).mono ?_ ?_
    · exact fun _ _ _ => trivial
    · exact fun _ _ kept => kept trivial
  · simp only [Attempt.meets_bind]
    refine (sustains_reading_recalls _ recalls).mono ?_ ?_
    · intro later? reached recallsOn
      cases later? with
      | none => trivial
      | some later =>
          dsimp only
          split
          · rename_i forward
            have := DocId.room_lt_room forward
            exact recalls_advance (recalls_standAt later reached) later
          · exact recallsOn
    · exact fun _ _ kept => kept trivial
termination_by doc.room

theorem recalls_arrive (doc? : Option DocId) :
    (arrive doc?).Meets term (fun _ _ => True)
      fun _ reached => original.Recalls reached := by
  cases doc? with
  | none => exact trivial
  | some doc =>
      exact recalls_advance (recalls_standAt doc term) doc

theorem recalls_onward (recalls : original.Recalls term) :
    onward.Meets term (fun _ _ => True)
      fun _ reached => original.Recalls reached := by
  cases stands : term.standing with
  | on span =>
      rw [Attempt.meets_congr (show onward term = advance span.doc term by
        simp only [onward, stands])]
      exact recalls_advance recalls span.doc
  | atDocument doc =>
      rw [Attempt.meets_congr (show onward term = advance doc term by
        simp only [onward, stands])]
      exact recalls_advance recalls doc
  | unstarted =>
      rw [Attempt.meets_congr (show onward term =
        (do arrive (← reading Postings.nextDocument) :
          Attempt Failure (Term π) _) term by simp only [onward, stands])]
      rw [Attempt.meets_bind]
      exact (sustains_reading_recalls _ recalls).mono
        (fun doc? _ _ => recalls_arrive doc?) fun _ _ kept => kept trivial
  | exhausted =>
      exact (Attempt.meets_of_ok (show onward term = (.ok none, term) by
        simp only [onward, stands])).mpr trivial
  | closed =>
      exact (Attempt.meets_of_ok (show onward term = (.ok none, term) by
        simp only [onward, stands])).mpr trivial

theorem recalls_forward (recalls : original.Recalls term) (target : DocId) :
    (forward target).Meets term (fun _ _ => True)
      fun _ reached => original.Recalls reached := by
  simp only [forward, Attempt.meets_bind, Attempt.meets_look]
  split
  · exact recalls_advance recalls target
  · rw [Attempt.meets_bind]
    exact (sustains_reading_recalls _ recalls).mono
      (fun doc? _ _ => recalls_arrive doc?) fun _ _ kept => kept trivial

/-- No failed move of a term changes the payload it has. -/
theorem retains : Retains (fun _ => True) fun _ : Term π => True where
  lasting _ _ move := sustains_true (Cursor.go move) _
  failed := by
    intro term _ move
    have here : term.Recalls term := fun _ isOn => ⟨isOn, rfl⟩
    have recalls : (Cursor.go move).Meets term (fun _ _ => True)
        fun _ reached => term.Recalls reached := by
      cases move with
      | next =>
          exact planned.meets_next (fun _ => here) (fun _ => trivial)
            fun _ => recalls_onward here
      | seek target =>
          exact planned.meets_seek (fun _ => here) (fun _ => trivial)
            (fun _ _ _ => here) (fun _ _ _ => recalls_onward here)
            fun _ => recalls_forward here target
    refine recalls.imp_failure fun failure reached still span isOn => ?_
    obtain ⟨stood, same⟩ := still span isOn
    refine ⟨stood, fun _ => ?_⟩
    change reached.standing = .on span at isOn
    simp only [Cursor.payloads, isOn, stood, same]

/-- A term that stands where it stood has the payload it had. -/
theorem payloads_eq {spared : Failure → Prop} {postings : π}
    (orderly : Orderly (fun (_ : Unit) (term : Term π) => term) none
      (ofPostings postings)) {before reached : Term π}
    (opened : LeadsTo (fun _ => True) (ofPostings postings) before)
    (later : LeadsTo spared before reached)
    (same : Cursor.standing reached = Cursor.standing before) :
    Cursor.payloads reached = Cursor.payloads before := by
  have shows : ∀ term : Term π, Cursor.payloads term =
      ((Cursor.standing term).requireSpan >>= fun _ =>
        .ok term.payload?.toList) := fun _ => rfl
  exact retains.payloads_eq shows trivial ⟨none, orderly, nofun⟩ opened
    (later.weaken fun _ _ => trivial) same

end Term

/-! ## Proximity nodes -/

namespace Proximity

variable {σ : Type} [Cursor σ] {size : Nat} {holds : Fin size → σ → Prop}
  {node : Proximity σ size}

/-- Collecting fails only where a child refuses to show its payloads. -/
theorem collectFrom_of_refuses {cursors : List σ}
    (refuses : ∀ cursor ∈ cursors, ∀ failure,
      Cursor.payloads cursor = .error failure → failure = .notPositioned)
    (collected : List Payload) :
    (collectFrom cursors).Meets collected (fun _ _ => True)
      fun failure _ => failure = .notPositioned := by
  induction cursors generalizing collected with
  | nil => exact trivial
  | cons cursor rest ih =>
      obtain ⟨ofFirst, ofRest⟩ := List.forall_mem_cons.mp refuses
      simp only [collectFrom, Attempt.meets_bind, Attempt.meets_update]
      refine Attempt.meets_ofExcept.mpr ⟨fun stored _ => ih ofRest _, ?_⟩
      exact fun failure refused => ofFirst failure refused

/-- What was collected for the last match is as given. -/
def Shows (payloads : List Payload) (node : Proximity σ size) : Prop :=
  node.payloads = payloads

omit [Cursor σ] in
theorem sustains_aligning_shows {α : Type} {payloads : List Payload}
    (work : Attempt Failure (Alignment σ size) α)
    (shows : node.Shows payloads) :
    (aligning work).Sustains (fun _ => True) (Shows payloads) node :=
  sustains_within (sustains_true work node.alignment) fun _ _ => shows

theorem sustains_resume_shows {payloads : List Payload}
    (shows : node.Shows payloads) :
    resume.Sustains (fun _ => True) (Shows payloads) node := by
  apply sustains_look_bind
  split
  · exact sustains_aligning_shows _ shows
  · refine (sustains_ofExcept shows _).bind fun doc middle showsDoc => ?_
    refine (sustains_ofOption showsDoc _ _).bind fun pivot reached showsOn => ?_
    exact sustains_aligning_shows _ showsOn

theorem sustains_resumeAt_shows {payloads : List Payload}
    (shows : node.Shows payloads) (target : DocId) :
    (resumeAt target).Sustains (fun _ => True) (Shows payloads) node := by
  apply sustains_look_bind
  split
  · exact sustains_aligning_shows _ shows
  · exact sustains_aligning_shows _ shows

section

variable (refuses : ∀ (child : Fin size) (cursor : σ), holds child cursor →
  ∀ failure, Cursor.payloads cursor = .error failure →
    failure = .notPositioned)
include refuses

theorem collect_of_refuses (held : Each holds node.alignment.cursors) :
    collect.Meets node (fun _ _ => True)
      fun failure _ => failure = .notPositioned := by
  simp only [collect, Attempt.meets_bind, Attempt.meets_update,
    Attempt.meets_look]
  split
  · simp only [Attempt.meets_within]
    refine collectFrom_of_refuses ?_ _
    intro cursor member
    obtain ⟨place, inside, rfl⟩ := List.mem_iff_getElem.mp member
    have isChild := held ⟨place, by simpa [children] using inside⟩
    simp only [children] at inside ⊢
    exact refuses _ _ (by simpa using isChild)
  · exact trivial

variable (below : ∀ child, Lasting (fun _ => True) (holds child))
include below

/-- A search that fails before it collects leaves what was collected. -/
theorem settle_of_refuses (held : Each holds node.alignment.cursors)
    (doc? : Option DocId) :
    (settle doc?).Meets node (fun _ _ => True)
      fun failure reached => failure ≠ .notPositioned →
        reached.payloads = node.payloads := by
  cases doc? with
  | none => exact trivial
  | some doc =>
      simp only [settle, searchFrom, Attempt.meets_bind, Attempt.meets_look]
      have searched : (Alignment.onLineup (Lineup.search node.arrangement
          node.slop node.standing.span? doc)).Sustains (fun _ => True)
            (Alignment.Held holds) node.alignment :=
        Alignment.sustains_onLineup (fun lineup =>
          Lineup.sustains_search below lineup _ _ _ doc) held
      simp only [aligning, Attempt.meets_within]
      refine searched.mono ?_ fun _ _ _ _ => trivial
      intro found? alignment heldOn
      cases found? with
      | none => exact trivial
      | some found =>
          simp only [Attempt.meets_bind, Attempt.meets_update]
          refine (collect_of_refuses refuses ?_).mono (fun _ _ _ => trivial)
            fun _ _ refused placed => absurd refused placed
          exact heldOn

/-- So does work on the children before the search. -/
theorem bind_settle_of_refuses
    {work : Attempt Failure (Proximity σ size) (Option DocId)}
    (sustains : work.Sustains (fun _ => True)
      (Held holds node.estimate node.standing) node)
    (shows : work.Sustains (fun _ => True) (Shows node.payloads) node) :
    (do settle (← work) : Attempt Failure (Proximity σ size) _).Meets node
      (fun _ _ => True) fun failure reached => failure ≠ .notPositioned →
        reached.Shows node.payloads := by
  rw [Attempt.meets_bind]
  refine (Attempt.Meets.and sustains shows).mono ?_
    fun _ _ ⟨_, same⟩ _ => same trivial
  rintro doc? reached ⟨heldOn, same⟩
  refine (settle_of_refuses refuses below heldOn.children doc?).imp_failure ?_
  exact fun _ _ kept placed => (kept placed).trans same

/--
A failed move leaves the payloads of a match, unless it found another match and
a child refused to show its payloads for it.
-/
theorem retains : Retains (· ≠ .notPositioned) fun node : Proximity σ size =>
    Each holds node.alignment.cursors where
  lasting node held move :=
    (concludes_go below ⟨held, rfl, rfl⟩ move).sustains
      fun _ _ _ concluded => concluded.children
  failed := by
    intro node held move
    have concludes : Cursor.Concludes (fun _ => True)
        (Held holds node.estimate) node.standing (Cursor.go move) node :=
      concludes_go below ⟨held, rfl, rfl⟩ move
    have keeps : (Cursor.go move).Meets node (fun _ _ => True)
        fun failure reached => failure ≠ .notPositioned →
          reached.Shows node.payloads := by
      have here : Held holds node.estimate node.standing node :=
        ⟨held, rfl, rfl⟩
      have same : node.Shows node.payloads := rfl
      have goesOn := bind_settle_of_refuses refuses below
        (sustains_resume below here) (sustains_resume_shows same)
      cases move with
      | next =>
          exact planned.meets_next (fun _ _ => same) (fun _ => trivial)
            fun _ => goesOn
      | seek target =>
          exact planned.meets_seek (fun _ _ => same) (fun _ => trivial)
            (fun _ _ _ _ => same) (fun _ _ _ => goesOn) fun _ =>
              bind_settle_of_refuses refuses below
                (sustains_resumeAt below here target)
                (sustains_resumeAt_shows same target)
    refine (Attempt.Meets.and concludes keeps).mono (fun _ _ _ => trivial) ?_
    rintro failure reached ⟨concluded, same⟩ span isOn
    have stands := (concluded trivial).stands
    change reached.standing = .on span at isOn
    refine ⟨stands.symm.trans isOn, fun placed => ?_⟩
    have shown : reached.payloads = node.payloads := same placed
    simp only [Cursor.payloads, stands, shown]

end

/-- A proximity node that stands where it stood has the payloads it had. -/
theorem payloads_eq {ι : Type} (disturb : ι → σ → σ)
    {arrangement : Arrangement} {slop : Nat} {collects : Bool}
    {cursors : Vector σ size}
    (orderly : ∀ child : Fin size, Orderly disturb none cursors[child])
    (refuses : ∀ (child : Fin size) (cursor : σ),
      LeadsTo (fun _ => True) cursors[child] cursor → ∀ failure,
        Cursor.payloads cursor = .error failure → failure = .notPositioned)
    {before reached : Proximity σ size}
    (opened : LeadsTo (fun _ => True)
      (ofCursors arrangement slop collects cursors) before)
    (later : LeadsTo (· ≠ .notPositioned) before reached)
    (same : Cursor.standing reached = Cursor.standing before) :
    Cursor.payloads reached = Cursor.payloads before := by
  have shows : ∀ node : Proximity σ size, Cursor.payloads node =
      ((Cursor.standing node).requireSpan >>= fun _ => .ok node.payloads) :=
    fun _ => rfl
  exact (retains refuses (lasting_each cursors)).payloads_eq shows
    (fun _ => .refl) ⟨none, orderly_ofCursors orderly, nofun⟩ opened later same

end Proximity

/-! ## What is shown of children -/

/-- What is open refuses to show anything where it has no span. -/
theorem Standing.requireSpan_bind_error {α : Type} {standing : Standing}
    (isOpen : standing ≠ .closed) {rest : Unit → Except Failure α}
    {failure : Failure}
    (refused : (standing.requireSpan >>= rest) = .error failure) :
    failure = .notPositioned ∨ rest () = .error failure := by
  cases standing with
  | on span => exact .inr refused
  | closed => exact absurd rfl isOpen
  | unstarted => cases refused; exact .inl rfl
  | atDocument doc => cases refused; exact .inl rfl
  | exhausted => cases refused; exact .inl rfl

/-- From the same standing the same is shown. -/
theorem Standing.requireSpan_bind_congr {α : Type} {standing other : Standing}
    {shown otherShown : Except Failure α} (same : standing = other)
    (sameShown : shown = otherShown) :
    (standing.requireSpan >>= fun _ => shown) =
      (other.requireSpan >>= fun _ => otherShown) := by
  rw [same, sameShown]

/-- A union shows the same if the same child is shown, and shows the same. -/
theorem Union.payloads_eq_of_source_eq {σ : Type} [Cursor σ] {size : Nat}
    {below : σ → Source} {before reached : Union σ size}
    (each : ∀ child : Fin size,
      below reached.children[child] = below before.children[child] →
        Cursor.payloads reached.children[child] =
          Cursor.payloads before.children[child])
    (same : (Level.union reached).source below =
      (Level.union before).source below) :
    Cursor.payloads reached = Cursor.payloads before := by
  cases first : before.queue.least? with
  | none =>
      rw [Level.source_union_of_none first] at same
      cases second : reached.queue.least? with
      | none =>
          rw [Level.source_union_of_none second] at same
          rw [payloads_of_none first, payloads_of_none second]
          exact Standing.requireSpan_bind_congr (Source.own.inj same) rfl
      | some head =>
          rw [Level.source_union_of_some second] at same
          cases same
  | some head =>
      rw [Level.source_union_of_some first] at same
      cases second : reached.queue.least? with
      | none =>
          rw [Level.source_union_of_none second] at same
          cases same
      | some later =>
          rw [Level.source_union_of_some second] at same
          obtain ⟨stands, place, sameBelow⟩ := Source.child.inj same
          have isChild := Fin.ext place
          rw [isChild] at sameBelow
          rw [payloads_of_some first, payloads_of_some second, isChild]
          exact Standing.requireSpan_bind_congr stands (each _ sameBelow)

/-! ## Queries over terms -/

namespace Query

/-- The leaves of the query are terms. -/
inductive OverTerms : Query → Prop
  | term (occurrences : List Occurrence) : OverTerms (.term occurrences)
  | scripted (name : String) (script : Script)
      (occurrences : List Occurrence) :
      OverTerms (.scripted name script occurrences)
  | proximity (arrangement : Arrangement) (slop : Nat) (collects : Bool)
      {children : List Query} (below : ∀ child ∈ children, OverTerms child) :
      OverTerms (.proximity arrangement slop collects children)
  | union {children : List Query}
      (below : ∀ child ∈ children, OverTerms child) :
      OverTerms (.union children)
  | without (clash : Clash) {included excluded : Query}
      (ofIncluded : OverTerms included) (ofExcluded : OverTerms excluded) :
      OverTerms (.without clash included excluded)
  | region (low high : Position) (anchor : Anchor) {child : Query}
      (below : OverTerms child) : OverTerms (.region low high anchor child)
  | metered (name : String) {child : Query} (below : OverTerms child) :
      OverTerms (.metered name child)

/-- What is reached from an opened query is open. -/
theorem isOpen_of_leadsTo {levels : Nat} {query : Query}
    {fits : query.height ≤ levels} {spared : Failure → Prop}
    {tree : Tree levels}
    (reaches : LeadsTo spared (openAt levels query fits) tree) :
    tree.IsOpen :=
  have lasts : (openAt levels query fits).Lasts tree :=
    reaches.holds (Tree.lasting _) (.refl _)
  lasts.isOpen (isOpen_openAt levels query fits)

/-- A tree over terms refuses to show payloads only where it has no span. -/
theorem eq_of_payloads_error (levels : Nat) {query : Query}
    (overTerms : query.OverTerms) (fits : query.height ≤ levels)
    {tree : Tree levels}
    (reaches : LeadsTo (fun _ => True) (openAt levels query fits) tree)
    {failure : Failure} (refused : Cursor.payloads tree = .error failure) :
    failure = .notPositioned := by
  have isOpen := isOpen_of_leadsTo reaches
  induction levels generalizing query with
  | zero => exact absurd query.height_pos (Nat.not_lt.mpr fits)
  | succ levels ih =>
      cases overTerms with
      | term occurrences =>
          obtain ⟨term, rfl, _⟩ := reaches.of_carries Level.carries_term
          exact (Standing.requireSpan_bind_error isOpen refused).elim id nofun
      | scripted name script occurrences =>
          obtain ⟨term, rfl, _⟩ :=
            reaches.of_carries (Level.carries_scripted name)
          exact (Standing.requireSpan_bind_error isOpen refused).elim id nofun
      | proximity arrangement slop collects below =>
          obtain ⟨node, rfl, _⟩ := reaches.of_carries Level.carries_proximity
          exact (Standing.requireSpan_bind_error isOpen.1 refused).elim id nofun
      | union below =>
          obtain ⟨node, rfl, ofNode⟩ := reaches.of_carries Level.carries_union
          change Cursor.payloads node = .error failure at refused
          cases least : node.queue.least? with
          | none =>
              rw [Union.payloads_of_none least] at refused
              exact (Standing.requireSpan_bind_error isOpen.1 refused).elim id
                nofun
          | some head =>
              rw [Union.payloads_of_some least] at refused
              have ofChild := Union.leadsTo_children ofNode head.child
              rw [Union.ofCursors, getElem_pmap_openAt] at ofChild
              rcases Standing.requireSpan_bind_error isOpen.1 refused with
                off | refusedBelow
              · exact off
              · exact ih (below _ (List.get_mem _ _)) _ ofChild refusedBelow
                  (isOpen.2 head.child)
      | without clash ofIncluded ofExcluded =>
          obtain ⟨node, rfl, ofNode⟩ := reaches.of_carries Level.carries_without
          have ofChild := (Without.leadsTo_children ofNode).1
          rcases Standing.requireSpan_bind_error isOpen.1 refused with
            off | refusedBelow
          · exact off
          · exact ih ofIncluded _ ofChild refusedBelow isOpen.2.1
      | region low high anchor below =>
          obtain ⟨node, rfl, ofNode⟩ := reaches.of_carries Level.carries_region
          have ofChild := Region.leadsTo_child ofNode
          rcases Standing.requireSpan_bind_error isOpen.1 refused with
            off | refusedBelow
          · exact off
          · exact ih below _ ofChild refusedBelow isOpen.2
      | metered name below =>
          obtain ⟨node, rfl, ofNode⟩ := reaches.of_carries Level.carries_metered
          exact ih below _ (Metered.leadsTo_child ofNode) refused isOpen

/-- What is shown changes only if it comes from elsewhere. -/
theorem payloads_eq_of_source_eq (levels : Nat) {query : Query}
    (overTerms : query.OverTerms) (fits : query.height ≤ levels)
    {before reached : Tree levels}
    (opened : LeadsTo (fun _ => True) (openAt levels query fits) before)
    (later : LeadsTo (· ≠ .notPositioned) before reached)
    (same : reached.source = before.source) :
    Cursor.payloads reached = Cursor.payloads before := by
  induction levels generalizing query with
  | zero => exact absurd query.height_pos (Nat.not_lt.mpr fits)
  | succ levels ih =>
      cases overTerms with
      | term occurrences =>
          obtain ⟨term, rfl, ofTerm⟩ := opened.of_carries Level.carries_term
          obtain ⟨last, rfl, ofLast⟩ := later.of_carries Level.carries_term
          exact Term.payloads_eq (Term.orderly_ofPostings
            StoredPostings.steady_marks
            (StoredPostings.marks_ofOccurrences occurrences))
            ofTerm ofLast (Source.own.inj same)
      | scripted name script occurrences =>
          obtain ⟨term, rfl, ofTerm⟩ :=
            opened.of_carries (Level.carries_scripted name)
          obtain ⟨last, rfl, ofLast⟩ :=
            later.of_carries (Level.carries_scripted name)
          exact Term.payloads_eq (Term.orderly_ofPostings
            ScriptedPostings.steady_marks
            (ScriptedPostings.marks_ofOccurrences script occurrences))
            ofTerm ofLast (Source.own.inj same)
      | proximity arrangement slop collects below =>
          obtain ⟨node, rfl, ofNode⟩ :=
            opened.of_carries Level.carries_proximity
          obtain ⟨last, rfl, ofLast⟩ :=
            later.of_carries Level.carries_proximity
          refine Proximity.payloads_eq Tree.armed (fun child => ?_)
            (fun child tree ofTree failure refused => ?_) ofNode ofLast
            (Source.own.inj same)
          · rw [getElem_pmap_openAt]
            exact orderly_openAt _ _ _
          · rw [getElem_pmap_openAt] at ofTree
            exact eq_of_payloads_error _ (below _ (List.get_mem _ _)) _ ofTree
              refused
      | union below =>
          obtain ⟨node, rfl, ofNode⟩ := opened.of_carries Level.carries_union
          obtain ⟨last, rfl, ofLast⟩ := later.of_carries Level.carries_union
          refine Union.payloads_eq_of_source_eq (fun child sameBelow => ?_) same
          have ofChild := Union.leadsTo_children ofNode child
          rw [Union.ofCursors, getElem_pmap_openAt] at ofChild
          exact ih (below _ (List.get_mem _ _)) _ ofChild
            (Union.leadsTo_children ofLast child) sameBelow
      | without clash ofIncluded ofExcluded =>
          obtain ⟨node, rfl, ofNode⟩ := opened.of_carries Level.carries_without
          obtain ⟨last, rfl, ofLast⟩ := later.of_carries Level.carries_without
          obtain ⟨stands, _, sameBelow⟩ := Source.child.inj same
          have shown := ih ofIncluded _ (Without.leadsTo_children ofNode).1
            (Without.leadsTo_children ofLast).1 sameBelow
          exact Standing.requireSpan_bind_congr stands shown
      | region low high anchor below =>
          obtain ⟨node, rfl, ofNode⟩ := opened.of_carries Level.carries_region
          obtain ⟨last, rfl, ofLast⟩ := later.of_carries Level.carries_region
          obtain ⟨stands, _, sameBelow⟩ := Source.child.inj same
          have shown := ih below _ (Region.leadsTo_child ofNode)
            (Region.leadsTo_child ofLast) sameBelow
          exact Standing.requireSpan_bind_congr stands shown
      | metered name below =>
          obtain ⟨node, rfl, ofNode⟩ := opened.of_carries Level.carries_metered
          obtain ⟨last, rfl, ofLast⟩ := later.of_carries Level.carries_metered
          exact ih below _ (Metered.leadsTo_child ofNode)
            (Metered.leadsTo_child ofLast) same

/-- The root of the query keeps payloads itself, but for meters around it. -/
def keepsPayloads : Query → Bool
  | .term _ => true
  | .scripted _ _ _ => true
  | .proximity _ _ _ _ => true
  | .metered _ child => child.keepsPayloads
  | .nothing => false
  | .listed _ => false
  | .probe _ _ _ => false
  | .union _ => false
  | .without _ _ _ => false
  | .region _ _ _ _ => false

theorem source_of_keepsPayloads (levels : Nat) {query : Query}
    (keeps : query.keepsPayloads) (fits : query.height ≤ levels)
    {spared : Failure → Prop} {tree : Tree levels}
    (reaches : LeadsTo spared (openAt levels query fits) tree) :
    tree.source = .own (Cursor.standing tree) := by
  induction levels generalizing query with
  | zero => exact absurd query.height_pos (Nat.not_lt.mpr fits)
  | succ levels ih =>
      cases query with
      | term occurrences =>
          obtain ⟨term, rfl, _⟩ := reaches.of_carries Level.carries_term
          rfl
      | scripted name script occurrences =>
          obtain ⟨term, rfl, _⟩ :=
            reaches.of_carries (Level.carries_scripted name)
          rfl
      | proximity arrangement slop collects children =>
          obtain ⟨node, rfl, _⟩ := reaches.of_carries Level.carries_proximity
          rfl
      | metered name child =>
          obtain ⟨node, rfl, ofNode⟩ :=
            reaches.of_carries Level.carries_metered
          exact @ih child keeps _ _ (Metered.leadsTo_child ofNode)
      | nothing => cases keeps
      | listed listing => cases keeps
      | probe name listing fault? => cases keeps
      | union children => cases keeps
      | without clash included excluded => cases keeps
      | region low high anchor child => cases keeps

/--
A move that fails, and leaves the root on the span it stood on, leaves the
payloads that are shown: always if the root is a term or a proximity node, and
otherwise if they still come from where they came from, that is, if the child
shown stands where it stood.  Only if payloads could not be collected, for want
of a child's span, nothing is said.
-/
theorem failed_move_keeps_payloads {query : Query}
    (overTerms : query.OverTerms) (moves : List Move) (move : Move)
    {before reached : Tree query.height} {span : Span} {failure : Failure}
    (moved : (Cursor.runs moves query.openTree).2 = before)
    (stands : Cursor.standing before = .on span)
    (failed : (Cursor.go move before).1 = .error failure)
    (left : (Cursor.go move before).2 = reached)
    (stays : Cursor.standing reached = .on span)
    (collected : failure ≠ .notPositioned) :
    (query.keepsPayloads →
      Cursor.payloads reached = Cursor.payloads before) ∧
    (reached.source = before.source →
      Cursor.payloads reached = Cursor.payloads before) := by
  have opened : LeadsTo (fun _ => True) query.openTree before :=
    moved ▸ Cursor.leadsTo_runs moves query.openTree
  have later : LeadsTo (· ≠ .notPositioned) before reached := by
    refine .go .refl move (Prod.ext failed left) ?_
    rintro _ ⟨rfl⟩
    exact collected
  have keeps := payloads_eq_of_source_eq _ overTerms _ opened later
  refine ⟨fun keepsPayloads => keeps ?_, keeps⟩
  have reaches := opened.trans (later.weaken fun _ _ => trivial)
  rw [source_of_keepsPayloads _ keepsPayloads _ reaches,
    source_of_keepsPayloads _ keepsPayloads _ opened, stands, stays]

/-- The first two positions of documents with a term, one call of which fails. -/
def opening (call : PostingsCall) (occasion : Nat) : Query :=
  .within 2 (.scripted "torn"
    ⟨[⟨call, occasion, ⟨.other, "torn page"⟩⟩], [], none⟩
    [⟨1, 0, some ⟨#[1]⟩⟩, ⟨1, 5, some ⟨#[2]⟩⟩, ⟨2, 0, some ⟨#[3]⟩⟩])

theorem overTerms_opening (call : PostingsCall) (occasion : Nat) :
    (opening call occasion).OverTerms := .region _ _ _ (.scripted _ _ _)

/-- The opening on its first span. -/
def openingBefore (call : PostingsCall) (occasion : Nat) :
    Tree (opening call occasion).height :=
  (Cursor.runs [.next] (opening call occasion).openTree).2

/-- The opening after one more move. -/
def openingAfter (call : PostingsCall) (occasion : Nat) :
    Tree (opening call occasion).height :=
  (Cursor.go .next (openingBefore call occasion)).2

/-- If the next position cannot be read, what is shown does not change. -/
theorem opening_keeps_payloads :
    (opening .nextPosition 2).OverTerms ∧
      Cursor.standing (openingBefore .nextPosition 2) = .on (.ofToken 1 0) ∧
      (Cursor.go .next (openingBefore .nextPosition 2)).1 =
        .error (.unreadable ⟨.other, "torn page"⟩) ∧
      Cursor.standing (openingAfter .nextPosition 2) = .on (.ofToken 1 0) ∧
      Tree.source (openingAfter .nextPosition 2) =
        Tree.source (openingBefore .nextPosition 2) ∧
      Cursor.payloads (openingAfter .nextPosition 2) =
        Cursor.payloads (openingBefore .nextPosition 2) := by
  have stands : Cursor.standing (openingBefore .nextPosition 2) =
      .on (.ofToken 1 0) := by
    cbv
  have failed : (Cursor.go .next (openingBefore .nextPosition 2)).1 =
      .error (.unreadable ⟨.other, "torn page"⟩) := by
    cbv
  have stays : Cursor.standing (openingAfter .nextPosition 2) =
      .on (.ofToken 1 0) := by
    cbv
  have same : Tree.source (openingAfter .nextPosition 2) =
      Tree.source (openingBefore .nextPosition 2) := by
    cbv
  have collected :
      Failure.unreadable ⟨.other, "torn page"⟩ ≠ .notPositioned := by
    simp
  have keeps := failed_move_keeps_payloads (overTerms_opening .nextPosition 2)
    [.next] .next rfl stands failed rfl stays collected
  exact ⟨overTerms_opening _ _, stands, failed, stays, same, keeps.2 same⟩

/--
If the next document cannot be read, the payloads shown are those of a span
that was passed by.
-/
theorem opening_changes_payloads :
    (opening .seekDocument 1).OverTerms ∧
      Cursor.standing (openingBefore .seekDocument 1) = .on (.ofToken 1 0) ∧
      Cursor.payloads (openingBefore .seekDocument 1) = .ok [⟨#[1]⟩] ∧
      (Cursor.go .next (openingBefore .seekDocument 1)).1 =
        .error (.unreadable ⟨.other, "torn page"⟩) ∧
      Cursor.standing (openingAfter .seekDocument 1) = .on (.ofToken 1 0) ∧
      Cursor.payloads (openingAfter .seekDocument 1) = .ok [⟨#[2]⟩] :=
  ⟨overTerms_opening _ _, by cbv, by cbv, by cbv, by cbv, by cbv⟩

end Query

end PositionalSearch
