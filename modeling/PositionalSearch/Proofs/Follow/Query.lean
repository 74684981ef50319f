import Mathlib
import PositionalSearch.Proofs.Follow.Exclusions
import PositionalSearch.Proofs.Follow.Filters
import PositionalSearch.Proofs.Follow.Listings
import PositionalSearch.Proofs.Follow.Proximity
import PositionalSearch.Proofs.Follow.Terms
import PositionalSearch.Proofs.Follow.Union
import PositionalSearch.Proofs.Follow.Walks
import PositionalSearch.Proofs.Levels

/-!
# Queries without faults follow plain cursors

What a query yields is read off its description, node by node.  When nothing
fails, an opened query moves as a plain cursor over just that, so to seek is
only a faster way to read.
-/

namespace PositionalSearch

open Cursor (Follows)

namespace Query

/-- No read of the query fails, and no frequency is overridden. -/
inductive FaultFree : Query → Prop
  | nothing : FaultFree .nothing
  | listed (listing : Listing) : FaultFree (.listed listing)
  | term (occurrences : List Occurrence) : FaultFree (.term occurrences)
  | scripted (name : String) {script : Script} (occurrences : List Occurrence)
      (faults : script.faults = []) (frequencies : script.frequencies = []) :
      FaultFree (.scripted name script occurrences)
  | probe (name : String) (listing : Listing) :
      FaultFree (.probe name listing none)
  | proximity (arrangement : Arrangement) (slop : Nat) (collects : Bool)
      {children : List Query} (below : ∀ child ∈ children, FaultFree child) :
      FaultFree (.proximity arrangement slop collects children)
  | union {children : List Query}
      (below : ∀ child ∈ children, FaultFree child) :
      FaultFree (.union children)
  | without (clash : Clash) {included excluded : Query}
      (ofIncluded : FaultFree included) (ofExcluded : FaultFree excluded) :
      FaultFree (.without clash included excluded)
  | region (low high : Position) (anchor : Anchor) {child : Query}
      (below : FaultFree child) : FaultFree (.region low high anchor child)
  | metered (name : String) {child : Query} (below : FaultFree child) :
      FaultFree (.metered name child)

/-- What holds of two children holds of all of them. -/
theorem forall_mem_pair {holds : Query → Prop} {first second : Query}
    (ofFirst : holds first) (ofSecond : holds second) :
    ∀ child ∈ [first, second], holds child :=
  List.forall_mem_cons.mpr ⟨ofFirst, List.forall_mem_singleton.mpr ofSecond⟩

/-- Terms are without faults. -/
theorem faultFree_terms (sources : List (List Occurrence)) :
    ∀ child ∈ sources.map term, child.FaultFree :=
  List.forall_mem_map.mpr fun occurrences _ => .term occurrences

mutual

/-- What a query yields, each span with its payloads. -/
def visits : Query → Visits
  | .nothing => []
  | .listed listing => listing.visits
  | .term occurrences => Occurrence.visits occurrences
  | .scripted _ _ occurrences => Occurrence.visits occurrences
  | .probe _ listing _ => listing.visits
  | .proximity arrangement slop collects children =>
      Nearness.allMatches ⟨arrangement, slop, collects⟩
        (allVisits children).get
  | .union children => Visits.mergeAll (allVisits children)
  | .without clash included excluded =>
      clash.spare excluded.visits included.visits
  | .region low high anchor child =>
      Region.holding low high anchor child.visits
  | .metered _ child => child.visits

/-- What each of several queries yields. -/
def allVisits : List Query → List Visits
  | [] => []
  | first :: rest => first.visits :: allVisits rest

end

theorem allVisits_eq_map (children : List Query) :
    allVisits children = children.map visits := by
  induction children with
  | nil => rfl
  | cons first rest ih => rw [allVisits, ih, List.map_cons]

mutual

/-- Every query yields its spans in order. -/
theorem ordered_visits : (query : Query) → query.visits.Ordered
  | .nothing => Visits.Ordered.nil
  | .listed listing => listing.ordered_visitsFrom 0
  | .term occurrences => Occurrence.ordered_visits occurrences
  | .scripted _ _ occurrences => Occurrence.ordered_visits occurrences
  | .probe _ listing _ => listing.ordered_visitsFrom 0
  | .proximity _ _ _ children => Nearness.ordered_allMatches fun _ =>
      ordered_allVisits children _ (List.get_mem _ _)
  | .union children => Visits.ordered_mergeAll (ordered_allVisits children)
  | .without _ included _ => (ordered_visits included).filter _
  | .region _ _ _ child => (ordered_visits child).filter _
  | .metered _ child => ordered_visits child

theorem ordered_allVisits : (children : List Query) →
    ∀ visits ∈ allVisits children, visits.Ordered
  | [], _, member => absurd member List.not_mem_nil
  | first :: rest, visits, member => by
      rcases List.mem_cons.mp member with rfl | later
      · exact ordered_visits first
      · exact ordered_allVisits rest visits later

end

/-- Opened children follow plain cursors if each of them does. -/
theorem follows_children {levels : Nat} {children : List Query}
    (fits : ∀ child ∈ children, child.height ≤ levels)
    (follows : ∀ child, (member : child ∈ children) →
      Follows (openAt levels child (fits child member)) (.fresh child.visits))
    (place : Fin (children.pmap (openAt levels) fits).toArray.size) :
    Follows (⟨(children.pmap (openAt levels) fits).toArray, rfl⟩ :
        Vector (Tree levels) _)[place]
      (.fresh ((allVisits children).get
        (place.cast (by simp [allVisits_eq_map])))) ∧
    ((allVisits children).get
      (place.cast (by simp [allVisits_eq_map]))).Ordered := by
  refine ⟨?_, ordered_allVisits children _ (List.get_mem _ _)⟩
  rw [getElem_pmap_openAt]
  have same : (allVisits children).get
      (place.cast (by simp [allVisits_eq_map])) =
        (children.get (place.cast (by simp))).visits := by
    simp [allVisits_eq_map]
  rw [same]
  exact follows _ (List.get_mem _ _)

/-- An opened query moves as a plain cursor over what it yields. -/
theorem follows_openAt {query : Query} (faultFree : query.FaultFree)
    (levels : Nat) (fits : query.height ≤ levels) :
    Follows (openAt levels query fits) (.fresh query.visits) := by
  induction levels generalizing query with
  | zero => exact absurd query.height_pos (Nat.not_lt.mpr fits)
  | succ levels ih =>
      cases faultFree with
      | nothing =>
          exact Level.carries_nothing.follows Nothing.follows_fresh
      | listed listing =>
          exact Level.carries_listed.follows (Listed.follows_ofListing listing)
      | term occurrences =>
          exact Level.carries_term.follows (Term.follows_stored occurrences)
      | scripted name occurrences faults frequencies =>
          exact (Level.carries_scripted name).follows
            (Term.follows_scripted faults frequencies occurrences)
      | probe name listing =>
          exact Level.carries_probe.follows
            (Probe.follows_ofListing name listing)
      | @proximity arrangement slop collects children below =>
          have fitting : ∀ child ∈ children, child.height ≤ levels :=
            fun child member => Nat.le_trans (height_le_greatestHeight member)
              (Nat.le_of_succ_le_succ fits)
          have opened := Proximity.follows_ofCursors
            (follows_children fitting fun child member =>
              ih (below child member) (fitting child member))
            ⟨arrangement, slop, collects⟩
          rw [Nearness.allMatches_cast (by simp [allVisits_eq_map])] at opened
          exact Level.carries_proximity.follows opened
      | @union children below =>
          have fitting : ∀ child ∈ children, child.height ≤ levels :=
            fun child member => Nat.le_trans (height_le_greatestHeight member)
              (Nat.le_of_succ_le_succ fits)
          have opened := Union.follows_ofCursors
            (follows_children fitting fun child member =>
              ih (below child member) (fitting child member))
          have same : List.ofFn (fun place : Fin
              (children.pmap (openAt levels) fitting).toArray.size =>
              (allVisits children).get
                (place.cast (by simp [allVisits_eq_map]))) =
                allVisits children := by
            refine List.ext_getElem (by simp [allVisits_eq_map]) ?_
            intro place _ _
            simp
          rw [same] at opened
          exact Level.carries_union.follows opened
      | without clash ofIncluded ofExcluded =>
          exact Level.carries_without.follows (Without.follows_ofCursors
            (ih ofIncluded _) (ih ofExcluded _) (ordered_visits _)
            (ordered_visits _))
      | region low high anchor below =>
          exact Level.carries_region.follows
            (Region.follows_ofCursor (ih below _) (ordered_visits _))
      | metered name below =>
          exact Level.carries_metered.follows
            (Metered.follows_ofCursor (ih below _))

/-- The opened children of a node move over what they yield. -/
theorem follows_openEach {children : List Query}
    (faultFree : ∀ child ∈ children, child.FaultFree)
    (child : Fin children.length) :
    Follows (openEach children)[child]
      (.fresh (children.get child).visits) ∧
        (children.get child).visits.Ordered := by
  rw [getElem_openEach]
  exact ⟨follows_openAt (faultFree _ (List.get_mem _ _)) _ _,
    ordered_visits _⟩

/-- Without faults, a walk over everything answers what the query yields. -/
theorem drain_openTree {query : Query} (faultFree : query.FaultFree) :
    Walk.drain query.openTree = .ok (query.visits.map Visit.span) :=
  Walk.drain_eq (follows_openAt faultFree _ _) (ordered_visits query)

/-- What a proximity node yields is read off what its children yield. -/
theorem visits_proximity (arrangement : Arrangement) (slop : Nat)
    (collects : Bool) (children : List Query) :
    (proximity arrangement slop collects children).visits =
      Nearness.allMatches ⟨arrangement, slop, collects⟩
        fun child : Fin children.length => (children.get child).visits := by
  have same : children.length = (allVisits children).length := by
    simp [allVisits_eq_map]
  rw [visits, ← Nearness.allMatches_cast same]
  congr 1
  funext child
  simp [allVisits_eq_map]

/--
Without faults, a walk over everything answers what the query yields, and every
run of moves is reported as that of a plain cursor over these spans.  A seek
that lands stands on the span it answers, found exactly if that lies in the
document asked for.
-/
theorem runs_as_drained {query : Query} (faultFree : query.FaultFree) :
    ∃ spans : List Span, Walk.drain query.openTree = .ok spans ∧
      ∀ moves : List Move,
        (Cursor.runs moves query.openTree).1 =
          (Cursor.runs moves (Plain.ofSpans spans)).1 ∧
        ∀ report ∈ (Cursor.runs moves query.openTree).1,
          ∀ (target : DocId) (landing : Landing),
            report.move = .seek target →
            report.outcome = .ok (.landing (some landing)) →
              report.standing = .on landing.span ∧
                (landing = .found landing.span ↔
                  landing.span.doc = target) := by
  refine ⟨_, drain_openTree faultFree, fun moves => ?_⟩
  have same : (Cursor.runs moves query.openTree).1 = (Cursor.runs moves
      (Plain.ofSpans (query.visits.map Visit.span))).1 := by
    rw [Plain.runs_ofSpans]
    exact (follows_openAt faultFree _ _).runs_eq moves
  refine ⟨same, fun report member target landing isSeek landed => ?_⟩
  rw [same] at member
  exact Plain.lands_of_mem_runs member isSeek landed

/-- A phrase in the first positions of a document, or a term without another. -/
def phraseOrSpared : Query :=
  .union [
    .within 5 (.proximity .inOrder 0 true [
      .term [⟨1, 0, none⟩, ⟨2, 3, none⟩, ⟨2, 7, none⟩],
      .term [⟨1, 1, none⟩, ⟨2, 4, none⟩, ⟨2, 8, none⟩]]),
    .metered "spared" (.without .inDocument
      (.term [⟨2, 6, none⟩, ⟨3, 1, none⟩]) (.term [⟨2, 0, none⟩]))]

theorem faultFree_phraseOrSpared : phraseOrSpared.FaultFree := by
  apply FaultFree.union
  apply forall_mem_pair
  · apply FaultFree.region
    apply FaultFree.proximity
    exact forall_mem_pair (.term _) (.term _)
  · exact .metered _ (.without _ (.term _) (.term _))

/--
To seek in the phrase or term is to read on over its three spans; the second
document is found there.
-/
theorem phraseOrSpared_runs_as_drained :
    phraseOrSpared.FaultFree ∧
      Walk.drain phraseOrSpared.openTree =
        .ok [⟨1, 0, 2, by decide⟩, ⟨2, 3, 5, by decide⟩, .ofToken 3 1] ∧
      (∀ moves : List Move, (Cursor.runs moves phraseOrSpared.openTree).1 =
        (Cursor.runs moves (Plain.ofSpans
          [⟨1, 0, 2, by decide⟩, ⟨2, 3, 5, by decide⟩, .ofToken 3 1])).1) ∧
      (Cursor.runs [.seek 2] phraseOrSpared.openTree).1 =
        [⟨.seek 2, .ok (.landing (some (.found ⟨2, 3, 5, by decide⟩))),
          .on ⟨2, 3, 5, by decide⟩⟩] := by
  have drained : Walk.drain phraseOrSpared.openTree =
      .ok [⟨1, 0, 2, by decide⟩, ⟨2, 3, 5, by decide⟩, .ofToken 3 1] := by
    cbv
  obtain ⟨spans, isDrained, runs⟩ := runs_as_drained faultFree_phraseOrSpared
  rw [drained, Except.ok.injEq] at isDrained
  subst isDrained
  refine ⟨faultFree_phraseOrSpared, drained, fun moves => (runs moves).1, ?_⟩
  rw [(runs [.seek 2]).1]
  rfl

end Query

end PositionalSearch
