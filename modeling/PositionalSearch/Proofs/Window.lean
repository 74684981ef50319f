import Mathlib
import PositionalSearch.Proofs.Carrying
import PositionalSearch.Proofs.Heads
import PositionalSearch.Proofs.Order.Leaves
import PositionalSearch.Proofs.Order.Proximity
import PositionalSearch.Proofs.Recording

/-!
# What a match in any order covers

The window of a match covers the heads of the children.  A head is the latest
span its child answered, so the children have answered what a match is read
off.  The window is one of a single document, unless an earlier failure left
the node in a document that one of the children had been taken out of.
-/

namespace PositionalSearch

open Cursor (Disciplined Orderly)

/-! ## Covering spans -/

/--
A match covers a span of each child: they are in its document, it runs from
the least of their starts to the greatest of their stops, and leaves no more
of its positions uncovered than the slop allows.
-/
structure Covers {size : Nat} (slop : Nat) (span : Span)
    (spans : Fin size → Span) : Prop where
  doc : ∀ child, (spans child).doc = span.doc
  starts : ∃ child, (spans child).start = span.start
  notBefore : ∀ child, span.start ≤ (spans child).start
  stops : ∃ child, (spans child).stop = span.stop
  notAfter : ∀ child, (spans child).stop ≤ span.stop
  slack : span.stop.toNat - span.start.toNat ≤
    slop + ((List.finRange size).map fun child =>
      (spans child).stop.toNat - (spans child).start.toNat).sum

namespace Lineup

variable {size : Nat}

/-- What is read off heads in one document covers them. -/
theorem Fits.covers {slop : Nat} {heads : Vector Span size}
    {found : Match size} (fits : Fits .anyOrder slop heads found)
    (together : ∀ child : Fin size, heads[child].doc = found.span.doc) :
    Covers slop found.span fun child : Fin size => heads[child] := by
  obtain ⟨filled, pivot, starts, stops, slack⟩ := fits
  obtain ⟨last, below⟩ := latestStop_spec heads filled
  refine ⟨together, ⟨found.pivot, starts.symm⟩, fun child => ?_, ?_,
    fun child => ?_, ?_⟩
  · have least : heads[found.pivot] ≤ heads[child] := by
      simp only [pivot]
      exact leastChild_le heads filled child
    rw [starts]
    rcases lt_or_eq_of_le least with before | same
    · exact Span.start_le_of_lt before
        ((together _).trans (together child).symm)
    · exact UInt32.le_of_eq (congrArg Span.start same)
  · obtain ⟨child, isLast⟩ := last
    exact ⟨child, isLast.trans stops.symm⟩
  · rw [stops]
    exact below child
  · rw [covered_eq_sum] at slack
    simpa only [Span.length] using slack

end Lineup

/-! ## Nodes over recorded children -/

namespace Proximity

variable {ι σ : Type} {size : Nat}

/-- The spans a recorded child has answered, the latest one first. -/
def answered (node : Proximity (Recorded σ) size) (child : Fin size) :
    List Span :=
  node.alignment.cursors[child].answered

/-- The node stands in a document that one of its children was taken out of. -/
def Strayed (doc : DocId) (node : Proximity (Recorded σ) size) : Prop :=
  (∃ span, node.standing = .on span ∧ span.doc = doc) ∧
    ∃ child, ∃ latest ∈ (node.answered child).head?, latest.doc ≠ doc

/-- A match covers spans that the children have answered. -/
def CoversAnswered (slop : Nat) (span : Span)
    (node : Proximity (Recorded σ) size) : Prop :=
  ∃ spans : Fin size → Span,
    (∀ child, spans child ∈ node.answered child) ∧ Covers slop span spans

/-- A match covers the latest spans that the children have answered. -/
def CoversLatest (slop : Nat) (span : Span)
    (node : Proximity (Recorded σ) size) : Prop :=
  ∃ spans : Fin size → Span,
    (∀ child, (node.answered child).head? = some (spans child)) ∧
      Covers slop span spans

/-- The latest span is one of those answered. -/
theorem CoversLatest.coversAnswered {slop : Nat} {span : Span}
    {node : Proximity (Recorded σ) size}
    (covers : CoversLatest slop span node) : CoversAnswered slop span node := by
  obtain ⟨spans, areLatest, covers⟩ := covers
  exact ⟨spans, fun child => List.mem_of_mem_head? (areLatest child), covers⟩

variable [Cursor σ] {disturb : ι → σ → σ} {slop : Nat} {last? : Option Span}

theorem head?_answered {node : Proximity (Recorded σ) size}
    {lineup : Lineup (Recorded σ) size}
    (running : node.alignment = .running lineup)
    (kept : lineup.Kept (Recorded.Keeps disturb)) (child : Fin size) :
    (node.answered child).head? = some lineup.heads[child] := by
  have latest := (kept child).latest
  simp only [answered, running]
  exact latest

/--
A match covers the latest spans of the children exactly if no child had been
taken out of its document before the move that answered it.
-/
theorem coversLatest_iff {node reached : Proximity (Recorded σ) size}
    (kept : Keeps (Recorded.Keeps disturb) .anyOrder slop last? node)
    {floor? : Option DocId} {span : Span}
    (answered : Answered (Recorded.Keeps disturb) .anyOrder slop last? floor?
      node (some span) reached) :
    CoversLatest slop span reached ↔ ¬ Strayed span.doc node := by
  obtain ⟨_, matched⟩ := answered
  obtain ⟨lineup, pivot, running, primed, fits⟩ := matched span rfl
  have latest := head?_answered running primed.kept
  constructor
  · rintro ⟨spans, areLatest, covers⟩ ⟨⟨stood, stands, same⟩, child, earlier,
      isEarlier, elsewhere⟩
    have together : lineup.Together span.doc := fun child => by
      have isHead := areLatest child
      rw [latest child, Option.some.injEq] at isHead
      rw [isHead]
      exact covers.doc child
    have standsAt := kept.stands
    simp only [StandsAt, stands] at standsAt
    cases before : node.alignment with
    | starting gathering =>
        rw [before] at standsAt
        exact standsAt.2
    | ended cursors => exact primed.live cursors before
    | running other =>
        have keptBefore := kept.alignment
        rw [before] at standsAt keptBefore
        have wasLatest := head?_answered before keptBefore.1 child
        rw [isEarlier.symm.trans wasLatest |> Option.some.inj] at elsewhere
        exact elsewhere ((primed.onward other before).together_before
          (same ▸ standsAt.2) together child)
  · intro straight
    refine ⟨fun child => lineup.heads[child], latest, fits.covers ?_⟩
    rcases primed.gathered with together | ⟨before, stood, isBefore, stands,
      same, stays, _⟩
    · exact together
    · intro child
      refine stays child ?_
      by_contra elsewhere
      have keptBefore := kept.alignment
      rw [isBefore] at keptBefore
      exact straight ⟨⟨stood, stands, same⟩, child, _,
        head?_answered isBefore keptBefore.1 child, elsewhere⟩

/-! ## Fresh nodes over recorded children -/

/-- A node over recorded cursors, before its first match. -/
def overRecorded (arrangement : Arrangement) (slop : Nat) (collects : Bool)
    (cursors : Vector σ size) : Proximity (Recorded σ) size :=
  ofCursors arrangement slop collects (cursors.map .fresh)

theorem keeps_overRecorded {arrangement : Arrangement} (slop : Nat)
    (collects : Bool) {cursors : Vector σ size}
    (orderly : ∀ child : Fin size, Orderly disturb none cursors[child]) :
    Keeps (Recorded.Keeps disturb) arrangement slop none
      (overRecorded arrangement slop collects cursors) := by
  refine keeps_ofCursors fun child => ?_
  simp only [getElem_place, Vector.getElem_map]
  exact Recorded.keeps_fresh (orderly child)

/-- Recording the children changes nothing in what a node reports. -/
theorem runs_overRecorded (arrangement : Arrangement) (slop : Nat)
    (collects : Bool) (cursors : Vector σ size) (moves : List Move) :
    (Cursor.runs moves (overRecorded arrangement slop collects cursors)).1 =
      (Cursor.runs moves
        (ofCursors arrangement slop collects cursors)).1 := by
  have erased := (carries Recorded.carries_cursor).runs_eq moves
    (overRecorded arrangement slop collects cursors)
  rw [overRecorded, ← ofCursors_map Recorded.carries_cursor.estimate_eq,
    Vector.map_map, show (Recorded.cursor ∘ Recorded.fresh : σ → _) = id
      from rfl, Vector.map_id] at erased
  rw [erased, overRecorded]

/-! ## Terms within a window -/

/-- Terms of which each reads its occurrences under a script of its own. -/
def scriptedTerms (sources : Vector (Script × List Occurrence) size) :
    Vector (Term ScriptedPostings) size :=
  sources.map fun (script, occurrences) =>
    .ofPostings (.ofOccurrences script occurrences)

theorem orderly_scriptedTerms
    (sources : Vector (Script × List Occurrence) size) (child : Fin size) :
    Orderly (fun (_ : Empty) term => term) none
      (scriptedTerms sources)[child] := by
  simp only [scriptedTerms, getElem_place, Vector.getElem_map]
  exact Term.orderly_ofPostings ScriptedPostings.steady_marks
    (ScriptedPostings.marks_ofOccurrences _ _)

/-- A node over recorded terms, before its first match. -/
def overRecordedTerms (arrangement : Arrangement) (slop : Nat)
    (collects : Bool) (sources : Vector (Script × List Occurrence) size) :
    Proximity (Recorded (Term ScriptedPostings)) size :=
  ofCursors arrangement slop collects ((scriptedTerms sources).map .fresh)

theorem keeps_overRecordedTerms {arrangement : Arrangement} (slop : Nat)
    (collects : Bool) (sources : Vector (Script × List Occurrence) size) :
    Keeps (Recorded.Keeps fun (_ : Empty) term => term) arrangement slop none
      (overRecordedTerms arrangement slop collects sources) :=
  keeps_overRecorded slop collects (orderly_scriptedTerms sources)

/-- Recording the terms changes nothing in what a node reports. -/
theorem runs_overRecordedTerms (arrangement : Arrangement) (slop : Nat)
    (collects : Bool) (sources : Vector (Script × List Occurrence) size)
    (moves : List Move) :
    (Cursor.runs moves
        (overRecordedTerms arrangement slop collects sources)).1 =
      (Cursor.runs moves
        (ofCursors arrangement slop collects (scriptedTerms sources))).1 :=
  runs_overRecorded arrangement slop collects (scriptedTerms sources) moves

/--
However the reads of the terms fail, a node in any order answers a match that
covers what its children answered, unless it answers in the document it stood
in after one of them had been taken out of it: exactly then the spans that its
window is computed from are not all in that document.
-/
theorem anyOrder_covers_iff (slop : Nat) (collects : Bool)
    (sources : Vector (Script × List Occurrence) size) (moves : List Move) :
    let before := (Cursor.runs moves
      (overRecordedTerms .anyOrder slop collects sources)).2
    (Cursor.runs moves
        (overRecordedTerms .anyOrder slop collects sources)).1 =
      (Cursor.runs moves
        (ofCursors .anyOrder slop collects (scriptedTerms sources))).1 ∧
    ∀ (move : Move) (span : Span),
      (Cursor.go move before).1 = .ok (some span) →
        (¬ Strayed span.doc before →
          CoversAnswered slop span (Cursor.go move before).2) ∧
        (CoversLatest slop span (Cursor.go move before).2 ↔
          ¬ Strayed span.doc before) := by
  refine ⟨runs_overRecordedTerms .anyOrder slop collects sources moves, ?_⟩
  intro move span went
  have below : Disciplined _ (Recorded.Keeps
      fun (_ : Empty) (term : Term ScriptedPostings) => term) :=
    Recorded.disciplined
  obtain ⟨last?, kept⟩ := (disciplined below).keeps_runs
    (keeps_overRecordedTerms slop collects sources) moves
  have exact_iff := coversLatest_iff kept
    ((meets_go Recorded.disciplined kept move).of_ok (Prod.ext went rfl))
  exact ⟨fun straight => (exact_iff.mpr straight).coversAnswered, exact_iff⟩

/-- Two terms of which the first cannot be sought in once. -/
def interruptedTerms : Vector (Script × List Occurrence) 2 :=
  #v[(⟨[⟨.seekDocument, 1, ⟨.interrupted, "transient"⟩⟩], [], none⟩,
      [⟨1, 0, none⟩, ⟨1, 4, none⟩, ⟨1, 5, none⟩]),
    (⟨[], [], none⟩, [⟨1, 1, none⟩, ⟨2, 5, none⟩])]

/-- The first match of the two terms covers a span of each. -/
theorem first_match_covers :
    (Cursor.go .next
        (overRecordedTerms .anyOrder 0 false interruptedTerms)).1 =
      .ok (Span.ofBounds? 1 0 2) ∧
    CoversAnswered 0 ⟨1, 0, 2, by decide⟩ (Cursor.go .next
      (overRecordedTerms .anyOrder 0 false interruptedTerms)).2 := by
  refine ⟨by cbv, ?_⟩
  refine ((anyOrder_covers_iff 0 false interruptedTerms []).2 .next _
    (by cbv)).1 ?_
  rintro ⟨⟨span, stands, _⟩, _⟩
  cases stands

/--
After the second read was interrupted, the third answers a match around a span
of the first term alone: the second term had answered none within it.
-/
theorem interrupted_match_uncovered :
    (Cursor.go .next (Cursor.runs [.next, .next]
        (overRecordedTerms .anyOrder 0 false interruptedTerms)).2).1 =
      .ok (some (.ofToken 1 5)) ∧
    ¬ CoversAnswered 0 (.ofToken 1 5) (Cursor.go .next
      (Cursor.runs [.next, .next]
        (overRecordedTerms .anyOrder 0 false interruptedTerms)).2).2 := by
  refine ⟨by cbv, ?_⟩
  rintro ⟨spans, areAnswered, covers⟩
  have second : (Cursor.go .next (Cursor.runs [.next, .next]
      (overRecordedTerms .anyOrder 0 false interruptedTerms)).2).2.answered 1 =
        [.ofToken 2 5, .ofToken 1 1] := by cbv
  have isAnswered := areAnswered 1
  rw [second] at isAnswered
  simp only [List.mem_cons, List.not_mem_nil, or_false] at isAnswered
  rcases isAnswered with isLatest | isEarlier
  · have sameDoc := covers.doc 1
    rw [isLatest] at sameDoc
    simp at sameDoc
  · have starts := covers.notBefore 1
    rw [isEarlier] at starts
    simp at starts

end Proximity

end PositionalSearch
