import PositionalSearch.Proofs.Follow.Documents
import PositionalSearch.Proofs.Follow.Entering

/-!
# Proximity nodes follow plain cursors

A proximity node yields the matches that are read off what its children yield.
Before its first match no child has been entered; on a match the children have
left what the later matches are read off, and the payloads of the match are
those of their first visits.
-/

namespace PositionalSearch

open Cursor (Follows FollowsUpon Mirrors Served Serves Takes)

/-- Cursors on the first of some visits hold its payloads. -/
def Cursor.Pays {σ : Type} [Cursor σ] (fails : Prop)
    (serves : Visits → σ → Prop) : Prop :=
  ∀ {visit rest cursor}, serves (visit :: rest) cursor →
    fails ∨ Cursor.payloads cursor = .ok visit.payloads

namespace Proximity

open Nearness
open Lineup (Lists Leads Answers Breaks Resumes)

variable {σ : Type} {size : Nat} {fails : Prop}
  {serves : Visits → σ → Prop} {rule : Nearness} {filled : 0 < size}
  {node reached : Proximity σ size} {left : Fin size → Visits}
  {lineup : Lineup σ size} {doc : DocId}

/-- What the node asks of a match. -/
def nearness (node : Proximity σ size) : Nearness :=
  ⟨node.arrangement, node.slop, node.collects⟩

/-- On a match, with what the later matches are read off. -/
structure Stands (rule : Nearness) (filled : 0 < size)
    (serves : Visits → σ → Prop) (span : Span) (pivot : Fin size)
    (left : Fin size → Visits) (node : Proximity σ size) : Prop where
  standing : node.standing = .on span
  nearness : node.nearness = rule
  isPivot : node.pivot? = some pivot
  isFirst : rule.arrangement = .inOrder → pivot = ⟨0, filled⟩
  since : From span.doc left
  lineup : ∃ lineup, node.alignment = .running lineup ∧
    Lists serves left lineup

/-- The matches to come after the one that a node is on. -/
abbrev remaining (rule : Nearness) (filled : 0 < size) (span : Span)
    (pivot : Fin size) (left : Fin size → Visits) : Visits :=
  rule.prospects filled span.doc (some span) pivot (pass pivot left)

/-- The children are ready for a search of a document, on what some left. -/
structure Ready (rule : Nearness) (filled : 0 < size)
    (serves : Visits → σ → Prop) (last? : Option Span)
    (before : Fin size → Visits) (visits : Visits) (doc : DocId)
    (left : Fin size → Visits) (lineup : Lineup σ size) : Prop where
  lists : Lists serves left lineup
  passes : Passes before left
  since : From doc left
  leads : Leads rule filled doc lineup
  earlier : ∀ last ∈ last?, last.doc ≤ doc
  outlook : rule.outlook filled doc last? left = visits

/-- The node can search for the first of some matches, if there are any. -/
def Readied (rule : Nearness) (serves : Visits → σ → Prop)
    (node : Proximity σ size) (before : Fin size → Visits) (visits : Visits)
    (doc? : Option DocId) (reached : Proximity σ size) : Prop :=
  reached.standing = node.standing ∧ reached.nearness = rule ∧
    reached.pivot? = node.pivot? ∧
    match doc? with
    | some doc => ∃ filled left lineup, reached.alignment = .running lineup ∧
        Ready rule filled serves node.standing.span? before visits doc left
          lineup
    | none => visits = []

/-- The first of some matches is answered. -/
def Yields (rule : Nearness) (fails : Prop) (serves : Visits → σ → Prop)
    (visits : Visits) (span? : Option Span)
    (reached : Proximity σ size) : Prop :=
  match span? with
  | some span => ∃ filled visit pivot left, visit.span = span ∧
      (fails ∨ reached.payloads = visit.payloads) ∧
      Stands rule filled serves span pivot left reached ∧
      (left pivot).head?.any (·.doc = span.doc) ∧
      (∀ first ∈ (left pivot).head?, first.span.start = span.start) ∧
      visits = visit :: remaining rule filled span pivot left
  | none => reached.standing = .exhausted ∧ visits = []

/-- What a failure of a search, or of collecting payloads after it, leaves. -/
def Broken (rule : Nearness) (filled : 0 < size) (serves : Visits → σ → Prop)
    (doc : DocId) (left : Fin size → Visits)
    (node reached : Proximity σ size) : Prop :=
  reached.standing = node.standing ∧ reached.nearness = rule ∧
    ∃ lineup, reached.alignment = .running lineup ∧
      (reached.pivot? = node.pivot? ∧
        Breaks rule filled serves doc node.standing.span? left lineup ∨
      ∃ found, reached.pivot? = some found.pivot ∧
        Answers rule filled serves doc node.standing.span? left (some found)
          lineup)

/-! ## Searching -/

variable [Cursor σ]

/-- Children that hold the payloads of some visits are asked for them. -/
theorem pays_collectFrom {cursors : List σ} {visits : Visits}
    (hold : List.Forall₂ (fun cursor visit =>
      fails ∨ Cursor.payloads cursor = .ok (Visit.payloads visit))
      cursors visits) (before : List Payload) :
    (collectFrom cursors).Meets before
      (fun _ after =>
        fails ∨ after = before ++ visits.flatMap Visit.payloads)
      (fun _ _ => fails) := by
  induction hold generalizing before with
  | nil => exact .inr (List.append_nil before).symm
  | @cons cursor visit cursors visits holds _ ih =>
      simp only [collectFrom, Attempt.meets_bind, Attempt.meets_ofExcept,
        Attempt.meets_update]
      constructor
      · intro stored isStored
        apply (ih (before ++ stored)).imp_answer
        rintro _ after (mayFail | rfl)
        · exact .inl mayFail
        · refine holds.imp_right fun same => ?_
          rw [same] at isStored
          cases isStored
          rw [List.flatMap_cons, List.append_assoc]
      · intro failure refused
        refine holds.resolve_right fun same => ?_
        rw [same] at refused
        cases refused

/-- The payloads of a match are those of the first visits of its children. -/
theorem pays_collect (pays : Cursor.Pays fails serves) {lined : Lined size}
    (running : node.alignment = .running lineup)
    (lists : Lists serves lined.left lineup)
    (same : node.nearness = rule) :
    collect.Meets node
      (fun _ reached => ∃ payloads,
        reached = { node with payloads := payloads } ∧
          (fails ∨ payloads = rule.paid lined))
      (fun _ reached => fails ∧ ∃ payloads,
        reached = { node with payloads := payloads }) := by
  have collects : node.collects = rule.collects :=
    congrArg Nearness.collects same
  have hold : List.Forall₂ (fun cursor visit =>
      fails ∨ Cursor.payloads cursor = .ok (Visit.payloads visit))
      node.children lined.heads.toList := by
    rw [children, running]
    refine List.forall₂_iff_get.mpr ⟨by simp [Alignment.cursors], ?_⟩
    intro place inside _
    have inside : place < size := by
      simpa [Alignment.cursors] using inside
    obtain ⟨rest, isLeft⟩ :=
      List.head?_eq_some_iff.mp (lined.head?_left ⟨place, inside⟩)
    have served := lists.served ⟨place, inside⟩
    rw [isLeft] at served
    simpa [Alignment.cursors] using pays served
  simp only [collect, Attempt.meets_bind, Attempt.meets_update,
    Attempt.meets_look, collects]
  unfold Nearness.paid
  split
  · rw [Attempt.meets_within]
    refine (pays_collectFrom hold []).mono ?_ ?_
    · exact fun _ payloads collected => ⟨payloads, rfl, collected⟩
    · exact fun _ payloads mayFail => ⟨mayFail, payloads, rfl⟩
  · exact ⟨[], rfl, .inr rfl⟩

/-- A search answers the first of the matches to come, or there are none. -/
theorem yields_searchFrom (does : Serves fails serves)
    (pays : Cursor.Pays fails serves)
    (running : node.alignment = .running lineup)
    (lists : Lists serves left lineup) (same : node.nearness = rule)
    (since : From doc left) (leads : Leads rule filled doc lineup)
    (earlier : ∀ last ∈ node.standing.span?, last.doc ≤ doc) :
    (searchFrom doc).Meets node
      (Yields rule fails serves
        (rule.outlook filled doc node.standing.span? left))
      (fun _ reached => fails ∧
        Broken rule filled serves doc left node reached) := by
  subst same
  simp only [searchFrom, aligning, Attempt.meets_bind, Attempt.meets_look,
    Attempt.meets_within, running]
  refine (Alignment.meets_onLineup (Lineup.answers_search does lists filled
    node.standing.span? doc since leads earlier)).mono ?_ ?_
  · rintro found? _ (⟨rfl, further, rfl, none⟩ | ⟨found, further, rfl, rfl,
      answers⟩)
    · exact ⟨rfl, none⟩
    · simp only [Attempt.meets_bind, Attempt.meets_update, Attempt.meets_pure]
      obtain ⟨lined, finds⟩ := answers
      obtain ⟨visit, rest, isLeft, span⟩ :=
        finds.lists.exists_eq_cons found.pivot
      refine (pays_collect pays rfl finds.lists rfl).mono ?_ ?_
      · rintro _ _ ⟨payloads, rfl, collected⟩
        refine ⟨filled, _, found.pivot, lined.left, rfl, collected, ?_, ?_, ?_,
          finds.outlook⟩
        · exact ⟨rfl, rfl, rfl, finds.leads, finds.since, further, rfl,
            finds.lists⟩
        · rw [isLeft, List.head?_cons, Option.any_some, decide_eq_true_eq,
            ← finds.pivotIn, ← span]
        · rw [isLeft]
          rintro _ ⟨rfl⟩
          rw [span, finds.starts]
      · rintro _ _ ⟨mayFail, payloads, rfl⟩
        exact ⟨mayFail, rfl, rfl, further, rfl, .inr ⟨found, rfl, lined,
          finds⟩⟩
  · rintro _ _ ⟨further, rfl, mayFail, breaks⟩
    exact ⟨mayFail, rfl, rfl, further, rfl, .inl ⟨rfl, breaks⟩⟩

theorem yields_settle (does : Serves fails serves)
    (pays : Cursor.Pays fails serves) {before : Fin size → Visits}
    {visits : Visits} {doc? : Option DocId}
    (readied : Readied rule serves node before visits doc? reached) :
    (settle doc?).Meets reached (Yields rule fails serves visits)
      (fun _ stopped => fails ∧ ∃ doc filled left lineup,
        Ready rule filled serves node.standing.span? before visits doc left
          lineup ∧ Broken rule filled serves doc left reached stopped) := by
  obtain ⟨stands, same, _, readyFor⟩ := readied
  cases doc? with
  | none =>
      simp only [settle, finish, Attempt.meets_bind, Attempt.meets_update,
        Attempt.meets_pure]
      exact ⟨rfl, readyFor⟩
  | some doc =>
      obtain ⟨filled, left, lineup, running, ready⟩ := readyFor
      have found := yields_searchFrom does pays running ready.lists same
        ready.since ready.leads (stands.symm ▸ ready.earlier)
      rw [stands, ready.outlook] at found
      refine found.imp_failure ?_
      rintro _ _ ⟨mayFail, broken⟩
      exact ⟨mayFail, doc, filled, left, lineup, ready, broken⟩

/-! ## Readying the children -/

omit [Cursor σ] in
/-- Children that were brought together are ready. -/
theorem Ready.of_together {ready : Fin size → Visits} (filled : 0 < size)
    {last? : Option Span} (ordered : ∀ child, (left child).Ordered)
    (lists : Lists serves ready lineup) (narrows : Narrows left ready)
    (together : lineup.Together doc) (earlier : ∀ last ∈ last?, last.doc < doc) :
    Ready rule filled serves last? left (rule.allMatches left) doc ready
      lineup := by
  obtain ⟨since, leads, _, outlook⟩ :=
    lists.outlook_eq filled together earlier rule
  exact ⟨lists, narrows.passes, since, leads, fun last isLast =>
    UInt64.le_of_lt (earlier last isLast),
    outlook.trans (narrows.allMatches_eq ordered rule)⟩

/-- Entering the children readies them for the first match. -/
theorem readied_start {waits : Visits → σ → Prop} {target? : Option DocId}
    {all : Fin size → Visits} {gathering : Gathering σ size}
    (enters : Cursor.Enters fails waits serves target?)
    (does : Serves fails serves)
    (starting : node.alignment = .starting gathering)
    (gathers : gathering.Gathers waits serves target? all)
    (unstarted : node.standing = .unstarted) (same : node.nearness = rule) :
    (aligning (Alignment.start target?)).Meets node
      (Readied rule serves node (fun child => (all child).sinceAny target?)
        ((rule.allMatches all).sinceAny target?))
      (fun _ reached => fails ∧
        ((∃ further : Gathering σ size,
          reached = { node with alignment := .starting further } ∧
            further.Gathers waits serves target? all) ∨
          ∃ lineup, reached = { node with alignment := .running lineup })) := by
  simp only [aligning, Attempt.meets_within, starting]
  rw [← allMatches_sinceAny gathers.ordered]
  refine (Alignment.started_start enters does gathers).mono ?_ ?_
  · rintro (_ | doc) alignment started
    · exact ⟨rfl, same, rfl, started rule⟩
    · obtain ⟨filled, ready, lineup, rfl, lists, narrows, together⟩ := started
      refine ⟨rfl, same, rfl, filled, ready, lineup, rfl, ?_⟩
      refine .of_together filled (fun child =>
        (gathers.ordered child).sinceAny target?) lists narrows together ?_
      rw [unstarted]
      exact nofun
  · rintro _ _ ⟨mayFail, ⟨further, rfl, still⟩ | ⟨lineup, rfl⟩⟩
    · exact ⟨mayFail, .inl ⟨further, rfl, still⟩⟩
    · exact ⟨mayFail, .inr ⟨lineup, rfl⟩⟩

/-- A node on a match moves the pivot on for the matches to come. -/
theorem readied_resume (does : Serves fails serves) {span : Span}
    {pivot : Fin size}
    (stands : Stands rule filled serves span pivot left node) :
    resume.Meets node
      (Readied rule serves node (pass pivot left)
        (remaining rule filled span pivot left))
      (fun _ reached => fails ∧ ∃ ready,
        Stands rule filled serves span pivot ready reached ∧
          (ready = left ∨ Past span.doc (pass pivot left) ∧
            Narrows (pass pivot left) ready)) := by
  obtain ⟨isOn, same, isPivot, isFirst, since, lineup, running, lists⟩ := stands
  have isLast : node.standing.span? = some span := by
    rw [isOn]
    rfl
  have earlier : ∀ last ∈ some span, last.doc ≤ span.doc := by
    rintro _ ⟨rfl⟩
    exact UInt64.le_refl _
  simp only [resume, Attempt.meets_bind, Attempt.meets_look, running, isOn,
    isPivot, Standing.doc, Attempt.meets_ofExcept_ok,
    Attempt.meets_ofOption_some, aligning, Attempt.meets_within]
  refine (Alignment.meets_onLineup (Lineup.resumes_resume does lists since
    earlier isFirst)).mono ?_ ?_
  · rintro _ _ (⟨rfl, further, rfl, none⟩ | ⟨next, further, rfl, rfl, resumes⟩)
    · exact ⟨isOn.symm, same, isPivot.symm, none⟩
    · obtain ⟨after, ready, listsOn, passes, sinceOn, leads, _, outlook⟩ :=
        resumes
      refine ⟨isOn.symm, same, isPivot.symm, filled, ready, further, rfl,
        listsOn, passes, sinceOn, leads, ?_, ?_⟩
      · rw [isLast]
        rintro _ ⟨rfl⟩
        exact after
      · rw [isLast]
        exact outlook.symm
  · rintro _ _ ⟨further, rfl, mayFail, kept⟩
    rcases kept with listsOn | ⟨past, ready, listsOn, narrows⟩
    · exact ⟨mayFail, left, ⟨rfl, same, rfl, isFirst, since, further,
        rfl, listsOn⟩, .inl rfl⟩
    · exact ⟨mayFail, ready, ⟨rfl, same, rfl, isFirst,
        narrows.passes.from ((passes_pass pivot left).from since), further,
        rfl, listsOn⟩, .inr ⟨past, narrows⟩⟩

/-- A node on a match that seeks a later document passes those before it. -/
theorem readied_resumeAt (does : Serves fails serves) {span : Span}
    {pivot : Fin size}
    (stands : Stands rule filled serves span pivot left node)
    (inDoc : (left pivot).head?.any (·.doc = span.doc)) {target : DocId}
    (ahead : span.doc < target) :
    (resumeAt target).Meets node
      (Readied rule serves node (fun child => (left child).since target)
        ((remaining rule filled span pivot left).since target))
      (fun _ _ => fails) := by
  obtain ⟨isOn, same, _, _, _, lineup, running, lists⟩ := stands
  rw [prospects_since lists.ordered inDoc ahead]
  simp only [resumeAt, Attempt.meets_bind, Attempt.meets_look, running,
    aligning, Attempt.meets_within]
  refine (Alignment.started_onLineup filled
    (Lineup.aligned_seek does lists filled target)).mono ?_ ?_
  · rintro (_ | doc) alignment started
    · exact ⟨rfl, same, rfl, started rule⟩
    · obtain ⟨_, ready, further, rfl, listsOn, narrows, together⟩ := started
      refine ⟨rfl, same, rfl, filled, ready, further, rfl, ?_⟩
      refine .of_together filled (fun child =>
        (lists.ordered child).since target) listsOn narrows together ?_
      rw [isOn]
      rintro _ ⟨rfl⟩
      obtain ⟨visit, rest, isReady, isHead⟩ :=
        listsOn.exists_eq_cons ⟨0, filled⟩
      have isSince := (narrows.passes ⟨0, filled⟩).subset
        (isReady ▸ List.mem_cons_self)
      rw [← together ⟨0, filled⟩, ← isHead]
      exact UInt64.lt_of_lt_of_le ahead (Visits.mem_since.mp isSince).2
  · rintro _ _ ⟨_, _, mayFail⟩
    exact mayFail

/-! ## Following a plain cursor -/

/-- A fresh node has not entered its children; one on a match has others left. -/
def Copied (rule : Nearness) (node : Proximity σ size) : Plain → Prop
  | .fresh visits => node.standing = .unstarted ∧ node.nearness = rule ∧
      ∃ all gathering, visits = rule.allMatches all ∧
        node.alignment = .starting gathering ∧
          ∀ target?, gathering.Gathers
            (fun all cursor => Follows cursor (.fresh all)) FollowsUpon
            target? all
  | .on visit rest => node.payloads = visit.payloads ∧
      ∃ filled pivot left,
        Stands rule filled FollowsUpon visit.span pivot left node ∧
        (left pivot).head?.any (·.doc = visit.doc) ∧
        rest = remaining rule filled visit.span pivot left
  | .ended => node.standing = .exhausted
  | .closed => False

/-- The node is a copy of a plain cursor over visits in order. -/
def Like (rule : Nearness) (node : Proximity σ size) (plain : Plain) : Prop :=
  Copied rule node plain ∧ plain.held.Ordered

theorem pays_followsUpon : Cursor.Pays False (FollowsUpon : Visits → σ → Prop) :=
  fun follows => .inr (Follows.payloads_eq follows)

theorem takes_settle {before : Fin size → Visits} {visits : Visits}
    {doc? : Option DocId} (ordered : visits.Ordered)
    (readied : Readied rule FollowsUpon node before visits doc? reached) :
    (settle doc?).Meets reached (Takes (Like rule) visits)
      (fun _ _ => False) := by
  refine (yields_settle Cursor.serves_followsUpon pays_followsUpon
    readied).mono ?_ fun _ _ failed => failed.1
  rintro (_ | span) stopped yields
  · obtain ⟨exhausted, rfl⟩ := yields
    exact ⟨rfl, exhausted, Visits.Ordered.nil⟩
  · obtain ⟨filled, visit, pivot, left, rfl, paid, stands, inDoc, _, rfl⟩ :=
      yields
    exact ⟨rfl, ⟨paid.resolve_left id, filled, pivot, left, stands, inDoc,
      rfl⟩, ordered⟩

theorem mirrors : Mirrors (Like rule : Proximity σ size → Plain → Prop) := by
  refine planned.mirrors ?_ ?_ (fun alike => alike.2) ?_ ?_
  · rintro node plain ⟨alike, _⟩
    cases plain with
    | fresh visits => exact alike.1
    | on visit rest =>
        obtain ⟨_, _, _, _, stands, _⟩ := alike
        exact stands.standing
    | ended => exact alike
    | closed => exact alike.elim
  · rintro node plain ⟨alike, _⟩
    simp only [Cursor.payloads]
    cases plain with
    | fresh visits =>
        rw [alike.1]
        rfl
    | on visit rest =>
        obtain ⟨paid, _, _, _, stands, _⟩ := alike
        rw [stands.standing, paid]
        rfl
    | ended =>
        rw [show node.standing = .exhausted from alike]
        rfl
    | closed => exact alike.elim
  · rintro node plain ⟨alike, ordered⟩ goes
    simp only [Attempt.meets_bind]
    cases plain with
    | fresh visits =>
        obtain ⟨unstarted, same, all, gathering, rfl, starting, gathers⟩ :=
          alike
        have readied := readied_start (Cursor.enters_follows none)
          Cursor.serves_followsUpon starting (gathers none) unstarted same
        simp only [resume, Attempt.meets_bind, Attempt.meets_look, starting]
        refine readied.mono ?_ fun _ _ failed => failed.1
        exact fun doc? reached ready => takes_settle ordered ready
    | on visit rest =>
        obtain ⟨_, filled, pivot, left, stands, _, rfl⟩ := alike
        refine (readied_resume Cursor.serves_followsUpon stands).mono ?_
          fun _ _ failed => failed.1
        exact fun doc? reached ready => takes_settle ordered.tail ready
    | ended => cases goes
    | closed => cases goes
  · rintro node plain target ⟨alike, ordered⟩ goes
    simp only [Attempt.meets_bind]
    cases plain with
    | fresh visits =>
        obtain ⟨unstarted, same, all, gathering, rfl, starting, gathers⟩ :=
          alike
        have readied := readied_start (Cursor.enters_follows (some target))
          Cursor.serves_followsUpon starting (gathers _) unstarted same
        simp only [resumeAt, Attempt.meets_bind, Attempt.meets_look, starting]
        refine readied.mono ?_ fun _ _ failed => failed.1
        exact fun doc? reached ready => takes_settle (ordered.since target) ready
    | on visit rest =>
        obtain ⟨_, filled, pivot, left, stands, inDoc, rfl⟩ := alike
        have ahead := (Plain.planSeek_on_iff _).mp goes
        apply (readied_resumeAt Cursor.serves_followsUpon stands inDoc
          ahead).imp_answer
        exact fun doc? reached ready =>
          takes_settle (ordered.tail.since target) ready
    | ended => cases goes
    | closed => cases goes

/-- A proximity node yields the matches of what its children yield. -/
theorem follows_ofCursors {cursors : Vector σ size}
    {all : Fin size → Visits}
    (follows : ∀ child : Fin size,
      Follows cursors[child] (.fresh (all child)) ∧ (all child).Ordered)
    (rule : Nearness) :
    Follows (ofCursors rule.arrangement rule.slop rule.collects cursors)
      (.fresh (rule.allMatches all)) := by
  obtain ⟨gathering, isStarting, _, gathers⟩ :=
    Alignment.exists_gathers (fun all cursor => Follows cursor (.fresh all))
      FollowsUpon follows
  exact ⟨Like rule, mirrors,
    ⟨rfl, rfl, all, gathering, rfl, isStarting, gathers⟩,
    ordered_allMatches fun child => (follows child).2⟩

end Proximity

end PositionalSearch
