import PositionalSearch.Proofs.Carrying
import PositionalSearch.Proofs.Failures.Lineup
import PositionalSearch.Proofs.Order.Query

/-!
# Failures of proximity nodes

A read of a proximity node fails with what one of its children failed with
during that read, or with what a child answers when it is asked for payloads.
There is one exception: a failure after all children were placed, but before
the first match, leaves the node stuck.  Then it stands nowhere and takes its
children for started, and each read fails without moving a child.
-/

namespace PositionalSearch

open Attempt (Blames Blamed blames_pure blames_look_bind blames_ofExcept_bind
  blames_ofOption_bind)
open Cursor (Disciplined Orderly)

variable {ι σ : Type} {size : Nat} [Cursor σ]
  {disturb : ι → Audited σ → Audited σ}
  {keeps : Option Span → Audited σ → Prop}

/-! ## Children on their way -/

namespace Gathering

/-- The failures of each child. -/
def logs (gathering : Gathering (Audited σ) size) : Fin size → List Failure :=
  Audited.logs gathering.cursors

variable {gathering : Gathering (Audited σ) size}

theorem blames_enter (target? : Option DocId) (child : Fin size) :
    (enter target? child).Blames logs gathering := by
  have met : (Cursor.enter target?).Meets gathering.cursors[child]
      (fun _ reached =>
        reached.failures = gathering.cursors[child].failures)
      (fun failure reached => reached.failures =
        failure :: gathering.cursors[child].failures) := by
    cases target? with
    | none => exact Audited.meets_go _ .next
    | some target => exact Audited.meets_go _ (.seek target)
  simp only [Blames, Attempt.Meets, Attempt.run, enter] at met ⊢
  cases outcome : Cursor.enter target? gathering.cursors[child] with
  | mk result cursor =>
      rw [outcome] at met
      cases result with
      | error failure => exact ⟨child, Audited.logs_set_self.trans met⟩
      | ok span? => cases span? <;> exact Audited.logs_set met

theorem blames_placeAll (target? : Option DocId) (children : List (Fin size)) :
    (placeAll target? children).Blames logs gathering := by
  induction children generalizing gathering with
  | nil => exact blames_pure _ _
  | cons child rest ih =>
      apply blames_look_bind
      cases gathering.found[child] with
      | some span => exact ih
      | none =>
          apply (blames_enter target? child).bind
          intro span? reached _
          cases span? with
          | none => exact blames_pure _ _
          | some span => exact ih

end Gathering

namespace Alignment

/-- The failures of each child. -/
def logs (alignment : Alignment (Audited σ) size) :
    Fin size → List Failure :=
  Audited.logs alignment.cursors

omit [Cursor σ] in
theorem blames_onLineup {α : Type} {lineup : Lineup (Audited σ) size}
    {work : Attempt Failure (Lineup (Audited σ) size) (Option α)}
    (blames : work.Blames Lineup.logs lineup) :
    (onLineup work).Blames logs (.running lineup) := by
  apply (meets_onLineup blames).mono
  · rintro value? _ (⟨_, further, rfl, same⟩ | ⟨_, further, _, rfl, same⟩)
    · exact same
    · exact same
  · rintro failure _ ⟨further, rfl, blamed⟩
    exact blamed

/-- Children that are placed and aligned fail as one of them does. -/
theorem blames_start (below : Disciplined disturb keeps)
    {gathering : Gathering (Audited σ) size} (kept : gathering.Kept keeps)
    (target? : Option DocId) :
    (start target?).Blames logs (.starting gathering) := by
  have placing := (Gathering.meets_placeAll below kept target?
    gathering.order).and (Gathering.blames_placeAll target? gathering.order)
  apply meets_starting
  apply placing.mono
  · rintro all placed ⟨placedAll, same⟩
    have lines (isAll : all = true) : ∃ lineup,
        placed.lineup? = some lineup ∧ lineup.cursors = placed.cursors := by
      obtain ⟨lineup, isLineup, cursors, _⟩ :=
        Gathering.lineup?_eq_some fun child => by
          obtain ⟨span, isSpan, _⟩ :=
            (placedAll isAll).2.found child (kept.all child)
          exact ⟨span, isSpan⟩
      exact ⟨lineup, isLineup, cursors⟩
    refine ⟨fun _ => same, fun isAll unplaced => ?_,
      fun isAll lineup isLineup => ?_⟩
    · obtain ⟨lineup, isLineup, _⟩ := lines isAll
      rw [unplaced] at isLineup
      cases isLineup
    · obtain ⟨lined, isLined, cursors⟩ := lines isAll
      have sameLined : lined = lineup :=
        Option.some.inj (isLined.symm.trans isLineup)
      subst sameLined
      have sameLogs : logs (.running lined) = logs (.starting gathering) :=
        (congrArg Audited.logs cursors).trans same
      apply (blames_onLineup Lineup.blames_align).mono
      · intro _ reached sameOn
        exact sameOn.trans sameLogs
      · intro failure reached blamed
        exact blamed.of_same sameLogs
  · exact fun failure placed failed => failed.2

/-- Not every child was placed yet. -/
def isStarting {σ : Type} {size : Nat} : Alignment σ size → Bool
  | .starting _ => true
  | .running _ => false
  | .ended _ => false

end Alignment

/-! ## The node -/

namespace Proximity

section

variable {α σ : Type} {size : Nat} {node : Proximity σ size}

/-- Only the alignment has changed. -/
def Realigned (node reached : Proximity σ size) : Prop :=
  ∃ alignment, reached = { node with alignment := alignment }

theorem realigned_aligning
    (work : Attempt Failure (Alignment σ size) α) :
    (aligning work).Meets node (fun _ reached => Realigned node reached)
      (fun _ reached => Realigned node reached) := by
  simp only [aligning, Attempt.meets_within]
  cases outcome : work node.alignment with
  | mk result reached =>
      cases result with
      | ok value => exact (Attempt.meets_of_ok outcome).mpr ⟨reached, rfl⟩
      | error failure =>
          exact (Attempt.meets_of_error outcome).mpr ⟨reached, rfl⟩

/--
All children were placed once, and the node still stands before its first
match.
-/
def Stuck (node : Proximity σ size) : Prop :=
  node.standing = .unstarted ∧ node.alignment.isStarting = false

instance : Decidable (Stuck node) := inferInstanceAs (Decidable (_ ∧ _))

/-- The node is open, and on a match it knows which child moves on. -/
structure Piloted (node : Proximity σ size) : Prop where
  isOpen : node.standing ≠ .closed
  pivot : ∀ span, node.standing = .on span →
    ∃ child, node.pivot? = some child

theorem Piloted.realigned {reached : Proximity σ size}
    (piloted : Piloted node) (realigned : Realigned node reached) :
    Piloted reached := by
  obtain ⟨alignment, rfl⟩ := realigned
  exact ⟨piloted.isOpen, piloted.pivot⟩

variable [Cursor σ]

theorem realigned_resume :
    resume.Meets node (fun _ reached => Realigned node reached)
      (fun _ reached => Realigned node reached) := by
  simp only [resume, Attempt.meets_bind, Attempt.meets_look]
  split
  · exact realigned_aligning _
  · simp only [Attempt.meets_bind, Attempt.meets_ofExcept,
      Attempt.meets_ofOption]
    refine ⟨fun doc _ => ⟨fun pivot _ => realigned_aligning _, fun _ => ?_⟩,
      fun _ _ => ?_⟩
    · exact ⟨node.alignment, rfl⟩
    · exact ⟨node.alignment, rfl⟩

theorem realigned_resumeAt (target : DocId) :
    (resumeAt target).Meets node (fun _ reached => Realigned node reached)
      (fun _ reached => Realigned node reached) := by
  simp only [resumeAt, Attempt.meets_bind, Attempt.meets_look]
  split
  · exact realigned_aligning _
  · exact realigned_aligning _

theorem piloted_settle (piloted : Piloted node) (doc? : Option DocId) :
    (settle doc?).Meets node (fun _ => Piloted) (fun _ => Piloted) := by
  have finished : ∀ node : Proximity σ size,
      finish.Meets node (fun _ => Piloted) (fun _ => Piloted) := by
    intro node
    constructor
    · intro isClosed
      cases isClosed
    · intro span isOn
      cases isOn
  cases doc? with
  | none => exact finished node
  | some doc =>
      simp only [settle, searchFrom, Attempt.meets_bind, Attempt.meets_look]
      refine (realigned_aligning _).mono ?_
        fun _ reached realigned => piloted.realigned realigned
      intro found? reached realigned
      cases found? with
      | none => exact finished reached
      | some found =>
          have still := piloted.realigned realigned
          simp only [Attempt.meets_bind, Attempt.meets_update,
            Attempt.meets_pure]
          apply meets_collect.mono
          · rintro _ _ ⟨payloads, rfl⟩
            exact ⟨by simp, fun _ _ => ⟨found.pivot, rfl⟩⟩
          · rintro _ _ ⟨payloads, rfl⟩
            exact ⟨still.isOpen, fun _ _ => ⟨found.pivot, rfl⟩⟩

theorem piloted_go (piloted : Piloted node) (move : Move) :
    (Cursor.go move).Meets node (fun _ => Piloted) (fun _ => Piloted) := by
  have settled : ∀ {resuming : Attempt Failure (Proximity σ size) _},
      resuming.Meets node (fun _ reached => Realigned node reached)
        (fun _ reached => Realigned node reached) →
      (do settle (← resuming) : Attempt Failure (Proximity σ size) _).Meets
        node (fun _ => Piloted) (fun _ => Piloted) := by
    intro resuming realigned
    rw [Attempt.meets_bind]
    exact realigned.mono
      (fun doc? _ same => piloted_settle (piloted.realigned same) doc?)
      fun _ _ same => piloted.realigned same
  cases move with
  | next =>
      exact planned.meets_next (fun _ => piloted) (fun _ => piloted)
        fun _ => settled realigned_resume
  | seek target =>
      exact planned.meets_seek (fun _ => piloted) (fun _ => piloted)
        (fun _ _ _ => piloted) (fun _ _ _ => settled realigned_resume)
        fun _ => settled (realigned_resumeAt target)

/-- A node that is stuck refuses to read and moves no child. -/
theorem Stuck.next_eq (stuck : Stuck node) :
    Cursor.next node = (.error .notPositioned, node) := by
  obtain ⟨unstarted, placed⟩ := stuck
  have refused : (resume : Attempt Failure (Proximity σ size) _).run node =
      (.error .notPositioned, node) := by
    cases alignment : node.alignment with
    | starting gathering =>
        rw [alignment] at placed
        cases placed
    | running lineup => simp [resume, alignment, unstarted, Standing.doc]
    | ended cursors => simp [resume, alignment, unstarted, Standing.doc]
  change Attempt.run Proximity.next node = _
  simp [Proximity.next, unstarted, Standing.planNext, refused]

/-- The node collects payloads, and some child refuses to give its own. -/
def Refuses (failure : Failure) (node : Proximity σ size) : Prop :=
  node.collects = true ∧
    ∃ cursor ∈ node.children, Cursor.payloads cursor = .error failure

theorem refuses_collectFrom (cursors : List σ) (stored : List Payload) :
    (collectFrom cursors).Meets stored (fun _ _ => True)
      (fun failure _ => ∃ cursor ∈ cursors,
        Cursor.payloads cursor = .error failure) := by
  induction cursors generalizing stored with
  | nil => trivial
  | cons cursor rest ih =>
      simp only [collectFrom, Attempt.meets_bind, Attempt.meets_ofExcept,
        Attempt.meets_update]
      constructor
      · intro found _
        apply (ih _).imp_failure
        rintro failure _ ⟨other, member, refuses⟩
        exact ⟨other, List.mem_cons_of_mem _ member, refuses⟩
      · exact fun failure refuses => ⟨cursor, List.mem_cons_self, refuses⟩

theorem refuses_collect :
    collect.Meets node (fun _ _ => True)
      (fun failure reached => Refuses failure reached) := by
  simp only [collect, Attempt.meets_bind, Attempt.meets_update,
    Attempt.meets_look]
  split
  · rename_i collects
    rw [Attempt.meets_within]
    apply (refuses_collectFrom node.children []).imp_failure
    exact fun failure _ refuses => ⟨collects, refuses⟩
  · trivial

end

section

variable {node : Proximity (Audited σ) size} {arrangement : Arrangement}
  {slop : Nat} {last? : Option Span}

/-- The failures of each child. -/
def logs (node : Proximity (Audited σ) size) : Fin size → List Failure :=
  node.alignment.logs

/-- The failure is one of a child: of a move that it made, or of its payloads. -/
def Charged (node : Proximity (Audited σ) size) (failure : Failure)
    (reached : Proximity (Audited σ) size) : Prop :=
  Blamed logs node failure reached ∨ Refuses failure reached

omit [Cursor σ] in
theorem blames_aligning {α : Type}
    {work : Attempt Failure (Alignment (Audited σ) size) α}
    (blames : work.Blames Alignment.logs node.alignment) :
    (aligning work).Blames logs node :=
  Attempt.blames_within (fun _ => rfl) rfl blames

/-- To resume a node that is not stuck fails as a child does. -/
theorem blames_resume (below : Disciplined disturb keeps)
    (kept : Keeps keeps arrangement slop last? node)
    (piloted : Piloted node) (goes : node.standing.planNext = .ok true)
    (free : ¬ Stuck node) : resume.Blames logs node := by
  apply blames_look_bind
  have started : node.alignment.isStarting = false →
      ∃ span pivot, node.standing = .on span ∧ node.pivot? = some pivot := by
    intro placed
    have stands := kept.stands
    unfold StandsAt at stands
    cases standing : node.standing with
    | unstarted => exact absurd ⟨standing, placed⟩ free
    | on span =>
        obtain ⟨pivot, isPivot⟩ := piloted.pivot span standing
        exact ⟨span, pivot, rfl, isPivot⟩
    | atDocument doc => simp only [standing] at stands
    | exhausted =>
        rw [standing] at goes
        cases goes
    | closed => exact absurd standing piloted.isOpen
  have alignment := kept.alignment
  cases which : node.alignment with
  | starting gathering =>
      rw [which] at alignment
      apply blames_aligning
      rw [which]
      exact Alignment.blames_start below alignment.1 none
  | running lineup =>
      obtain ⟨span, pivot, stands, isPivot⟩ := started (by rw [which]; rfl)
      refine blames_ofExcept_bind (congrArg Standing.doc stands) ?_
      refine blames_ofOption_bind isPivot (blames_aligning ?_)
      rw [which]
      exact Alignment.blames_onLineup (Lineup.blames_resume pivot span.doc)
  | ended cursors =>
      obtain ⟨span, pivot, stands, isPivot⟩ := started (by rw [which]; rfl)
      refine blames_ofExcept_bind (congrArg Standing.doc stands) ?_
      refine blames_ofOption_bind isPivot (blames_aligning ?_)
      rw [which]
      rfl

/-- To settle on what was resumed fails as a child does. -/
theorem charged_settle (below : Disciplined disturb keeps)
    {origin : Proximity (Audited σ) size} {doc? : Option DocId}
    (resumed : Resumed keeps arrangement slop last? origin doc? node) :
    (settle doc?).Meets node (fun _ _ => True) (Charged node) := by
  obtain ⟨_, _, ready⟩ := resumed
  cases doc? with
  | none => trivial
  | some doc =>
      obtain ⟨lineup, running, primed⟩ := ready doc rfl
      have searching : (aligning (Alignment.onLineup (Lineup.search
          node.arrangement node.slop node.standing.span? doc))).Blames logs
          node := by
        apply blames_aligning
        rw [running]
        exact Alignment.blames_onLineup (Lineup.blames_search below primed.kept
          primed.all node.arrangement node.slop _ primed.since)
      simp only [settle, searchFrom, Attempt.meets_bind, Attempt.meets_look]
      refine searching.mono ?_ fun _ _ blamed => .inl blamed
      intro found? reached _
      cases found? with
      | none => trivial
      | some found =>
          simp only [Attempt.meets_bind, Attempt.meets_update,
            Attempt.meets_pure]
          exact refuses_collect.imp_failure fun _ _ refuses => .inr refuses

/-- To settle on what was resumed in whatever way fails as a child does. -/
theorem charged_settle_bind (below : Disciplined disturb keeps)
    {resuming : Attempt Failure (Proximity (Audited σ) size) (Option DocId)}
    {failed : Failure → Proximity (Audited σ) size → Prop}
    (resumes : resuming.Meets node
      (Resumed keeps arrangement slop last? node) failed)
    (blames : resuming.Blames logs node) :
    (do settle (← resuming) : Attempt Failure _ _).Meets node
      (fun _ _ => True) (Charged node) := by
  rw [Attempt.meets_bind]
  refine (resumes.and blames).mono ?_ fun _ _ failed => .inl failed.2
  rintro doc? reached ⟨resumed, same⟩
  apply (charged_settle below resumed).imp_failure
  rintro failure last (blamed | refuses)
  · exact .inl (blamed.of_same same)
  · exact .inr refuses

/-- To go on from where a node stands fails as a child does. -/
theorem charged_onward (below : Disciplined disturb keeps)
    (kept : Keeps keeps arrangement slop last? node) (piloted : Piloted node)
    (goes : node.standing.planNext = .ok true) (free : ¬ Stuck node) :
    (do settle (← resume) : Attempt Failure _ _).Meets node
      (fun _ _ => True) (Charged node) :=
  charged_settle_bind below (meets_resume below kept)
    (blames_resume below kept piloted goes free)

/-- A read of a node that is not stuck fails as a child does. -/
theorem charged_next (below : Disciplined disturb keeps)
    (kept : Keeps keeps arrangement slop last? node) (piloted : Piloted node)
    (free : ¬ Stuck node) :
    (Cursor.next : Attempt Failure (Proximity (Audited σ) size) _).Meets node
      (fun _ _ => True) (Charged node) :=
  planned.meets_next (fun isClosed => absurd isClosed piloted.isOpen)
    (fun _ => trivial) fun goes => charged_onward below kept piloted goes free

omit [Cursor σ] in
theorem Piloted.disturbed (piloted : Piloted node) (event : ι) :
    Piloted (disturbed disturb event node) :=
  ⟨piloted.isOpen, piloted.pivot⟩

omit [Cursor σ] in
theorem stuck_disturbed {event : ι} :
    Stuck (disturbed disturb event node) ↔ Stuck node := by
  have same : (disturbed disturb event node).alignment.isStarting =
      node.alignment.isStarting := by
    unfold disturbed
    cases node.alignment <;> rfl
  unfold Stuck
  rw [same]
  rfl

/-- As long as no move fails, the node does not get stuck. -/
theorem free_undergo (below : Disciplined disturb keeps)
    (kept : Keeps keeps arrangement slop last? node) (free : ¬ Stuck node)
    {happenings : List (Cursor.Happening ι)}
    (answered : ∀ report ∈ Cursor.reports (disturbed disturb) happenings node,
      ∃ answer, report.outcome = .ok answer) :
    ¬ Stuck (Cursor.undergo (disturbed disturb) happenings node) := by
  induction happenings generalizing last? node with
  | nil => exact free
  | cons happening rest ih =>
      cases happening with
      | disturb event =>
          exact ih ((disciplined below).disturbed kept event).1
            (fun stuck => free (stuck_disturbed.mp stuck)) answered
      | move move =>
          have met := (disciplined below).moves kept move
          cases went : Cursor.go move node with
          | mk outcome reached =>
              simp only [Cursor.reports, Cursor.undergo,
                Cursor.make_of_go went] at answered ⊢
              cases outcome with
              | error failure =>
                  obtain ⟨answer, isOk⟩ := answered _ List.mem_cons_self
                  cases isOk
              | ok span? =>
                  have later := fun report member =>
                    answered report (List.mem_cons_of_mem _ member)
                  have advances := met.of_ok went
                  cases span? with
                  | none =>
                      obtain ⟨stands, keptOn⟩ := advances
                      refine ih keptOn (fun stuck => ?_) later
                      cases stands.symm.trans stuck.1
                  | some span =>
                      obtain ⟨_, _, stands, keptOn⟩ := advances
                      refine ih keptOn (fun stuck => ?_) later
                      cases stands.symm.trans stuck.1

end

end Proximity

/-! ## Queries -/

namespace Proximity

omit [Cursor σ] in
/-- To disturb carried children is to disturb what they carry. -/
theorem disturbed_carry {τ : Type} {wrap : σ → τ} {disturb : ι → σ → σ}
    {disturbOuter : ι → τ → τ}
    (disturbs : ∀ event cursor, disturbOuter event (wrap cursor) =
      wrap (disturb event cursor))
    (event : ι) (node : Proximity σ size) :
    disturbed disturbOuter event (carry wrap node) =
      carry wrap (disturbed disturb event node) := by
  have same : disturbOuter event ∘ wrap = wrap ∘ disturb event :=
    funext (disturbs event)
  unfold disturbed carry
  cases node.alignment <;>
    simp [Alignment.carry, Alignment.mapCursors, Gathering.carry,
      Lineup.carry, Lineup.mapCursors, same]

end Proximity

namespace Query

/-- Several queries, opened with room for the highest of them. -/
def openAll (queries : List Query) : List (Tree (greatestHeight queries)) :=
  queries.pmap (openAt (greatestHeight queries)) fun _ =>
    height_le_greatestHeight

/-- A proximity node over opened queries, each of them audited. -/
def openAudited (arrangement : Arrangement) (slop : Nat) (collects : Bool)
    (children : List Query) :
    Proximity (Audited (Tree (greatestHeight children)))
      (openAll children).toArray.size :=
  .ofCursors arrangement slop collects
    (Vector.map .fresh ⟨(openAll children).toArray, rfl⟩)

/-- Arm the probes below audited cursors. -/
def armAudited {height size : Nat} :
    String × Option ProbeFault → Proximity (Audited (Tree height)) size →
      Proximity (Audited (Tree height)) size :=
  Proximity.disturbed (Audited.disturbed Tree.armed)

variable (arrangement : Arrangement) (slop : Nat) (collects : Bool)
  (children : List Query)

/-- Auditing the children changes nothing in what a node reports. -/
theorem reports_openAudited
    (happenings : List (Cursor.Happening (String × Option ProbeFault))) :
    Cursor.reports armAudited happenings
        (openAudited arrangement slop collects children) =
      Cursor.reports Tree.armed happenings
        (proximity arrangement slop collects children).openTree := by
  have disturbs : ∀ (event : String × Option ProbeFault)
      (audited : Audited (Tree (greatestHeight children))),
      Tree.armed event audited.cursor =
        (Audited.disturbed Tree.armed event audited).cursor :=
    fun _ _ => rfl
  have erased := (Proximity.carries Audited.carries_cursor).reports_eq
    (Proximity.disturbed_carry disturbs) happenings
      (openAudited arrangement slop collects children)
  rw [openAudited, ← Proximity.ofCursors_map Audited.carries_cursor.estimate_eq,
    Vector.map_map, show (Audited.cursor ∘ Audited.fresh :
      Tree (greatestHeight children) → _) = id from rfl, Vector.map_id]
    at erased
  exact erased.symm.trans
    (Level.carries_proximity.reports_eq (fun _ _ => rfl) happenings _).symm

theorem keeps_openAudited :
    Proximity.Keeps (Orderly (Audited.disturbed Tree.armed)) arrangement slop
      none (openAudited arrangement slop collects children) := by
  refine Proximity.keeps_ofCursors fun place => ?_
  simp only [getElem_place, Vector.getElem_map]
  apply Audited.orderly_fresh
  have opened := getElem_pmap_openAt
    (fun _ => height_le_greatestHeight : ∀ child ∈ children, _) place
  exact opened ▸ orderly_openAt _ _ _

/--
Whatever happened to a proximity node, a read that fails does so with a
failure of one of its children in this very read, unless the node is stuck;
then reads fail for standing nowhere and change nothing.  No node gets stuck
before some move of it has failed.
-/
theorem near_read_fails_as_child
    (happenings : List (Cursor.Happening (String × Option ProbeFault))) :
    let node := openAudited arrangement slop collects children
    let reports := Cursor.reports armAudited happenings node
    let reached := Cursor.undergo armAudited happenings node
    reports = Cursor.reports Tree.armed happenings
      (proximity arrangement slop collects children).openTree ∧
    ((∀ report ∈ reports, ∃ answer, report.outcome = .ok answer) →
      ¬ reached.Stuck) ∧
    (reached.Stuck →
      Cursor.next reached = (.error .notPositioned, reached)) ∧
    (¬ reached.Stuck → ∀ failure,
      (Cursor.next reached).1 = .error failure →
        Proximity.Charged reached failure (Cursor.next reached).2) := by
  intro node reports reached
  have kept := keeps_openAudited arrangement slop collects children
  have below : Disciplined (Audited.disturbed Tree.armed)
      (Orderly (Audited.disturbed Tree.armed) :
        Option Span → Audited (Tree (greatestHeight children)) → Prop) :=
    Orderly.disciplined
  have unstarted : node.standing = .unstarted := rfl
  have piloted : reached.Piloted := by
    refine Cursor.holds_undergo Proximity.Piloted Proximity.piloted_go
      (fun piloted event => piloted.disturbed event) ⟨?_, ?_⟩ happenings
    · intro isClosed
      cases unstarted.symm.trans isClosed
    · intro span isOn
      cases unstarted.symm.trans isOn
  obtain ⟨last?, keptOn⟩ :=
    (Proximity.disciplined below).keeps_undergo kept happenings
  refine ⟨reports_openAudited arrangement slop collects children happenings,
    ?_, Proximity.Stuck.next_eq, fun free failure failed => ?_⟩
  · apply Proximity.free_undergo below kept
    intro stuck
    cases stuck.2
  · exact (Proximity.charged_next below keptOn piloted free).of_error
      (Prod.ext failed rfl)

/-- Two terms, the first of which cannot be moved to a document in once. -/
def haltedTerms : List Query :=
  [.scripted "a" ⟨[⟨.seekDocument, 1, ⟨.interrupted, "transient"⟩⟩], [], none⟩
      [⟨1, 0, none⟩, ⟨3, 0, none⟩],
    .scripted "b" ⟨[], [], none⟩ [⟨2, 0, none⟩, ⟨3, 1, none⟩]]

/-- The first read fails with what the first term fails with. -/
theorem first_read_fails_as_child :
    (Cursor.next (openAudited .inOrder 0 false haltedTerms)).1 =
      .error (.unreadable ⟨.interrupted, "transient"⟩) ∧
    Proximity.Charged (openAudited .inOrder 0 false haltedTerms)
      (.unreadable ⟨.interrupted, "transient"⟩)
      (Cursor.next (openAudited .inOrder 0 false haltedTerms)).2 := by
  have failed : (Cursor.next (openAudited .inOrder 0 false haltedTerms)).1 =
      .error (.unreadable ⟨.interrupted, "transient"⟩) := by
    cbv
  have free : ¬ (openAudited .inOrder 0 false haltedTerms).Stuck := by
    intro stuck
    cases stuck.2
  exact ⟨failed, (near_read_fails_as_child .inOrder 0 false haltedTerms
    []).2.2.2 free _ failed⟩

/--
The second read fails although no child fails in it: the first one failed to
align the terms after it had placed them, which left the node stuck.
-/
theorem second_read_fails_alone :
    let reached := (Cursor.next (openAudited .inOrder 0 false haltedTerms)).2
    reached.Stuck ∧ (Cursor.next reached).1 = .error .notPositioned ∧
      ¬ Proximity.Charged reached .notPositioned (Cursor.next reached).2 := by
  have stuck : (Cursor.next
      (openAudited .inOrder 0 false haltedTerms)).2.Stuck :=
    of_decide_eq_true (by cbv)
  have plain : (Cursor.next
      (openAudited .inOrder 0 false haltedTerms)).2.collects = false := by
    cbv
  intro reached
  refine ⟨stuck, congrArg Prod.fst stuck.next_eq, ?_⟩
  rintro (⟨child, logged⟩ | ⟨collects, _⟩)
  · rw [stuck.next_eq] at logged
    exact List.cons_ne_self _ _ logged.symm
  · rw [stuck.next_eq, plain] at collects
    cases collects

end Query

end PositionalSearch
