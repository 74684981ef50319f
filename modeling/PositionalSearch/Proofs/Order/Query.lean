import PositionalSearch.Proofs.Levels
import PositionalSearch.Proofs.Order.Filters
import PositionalSearch.Proofs.Order.Leaves
import PositionalSearch.Proofs.Order.Proximity
import PositionalSearch.Proofs.Order.Union

/-!
# Queries answer in order

Whatever query is opened, whichever reads fail and whichever probes are armed
along the way, the spans answered at the root come in strictly ascending
order, and the end is final.
-/

namespace PositionalSearch

open Cursor (Orderly)

namespace Tree

/-- Arm the probes of one name, or disarm them. -/
def armed {height : Nat} (event : String × Option ProbeFault)
    (tree : Tree height) : Tree height :=
  tree.arm event.1 event.2

end Tree

namespace Query

/-- A query is opened as a cursor in order, however its probes are armed. -/
theorem orderly_openAt (levels : Nat) (query : Query)
    (fits : query.height ≤ levels) :
    Orderly Tree.armed none (openAt levels query fits) := by
  induction levels generalizing query with
  | zero => exact absurd query.height_pos (Nat.not_lt.mpr fits)
  | succ levels ih =>
      cases query with
      | nothing =>
          exact Level.carries_nothing.orderly (fun _ _ => rfl)
            Nothing.orderly_fresh
      | listed listing =>
          exact Level.carries_listed.orderly (fun _ _ => rfl)
            (Listed.orderly_ofListing listing)
      | term occurrences =>
          exact Level.carries_term.orderly (fun _ _ => rfl)
            (Term.orderly_ofPostings StoredPostings.steady_marks
              (StoredPostings.marks_ofOccurrences occurrences))
      | scripted name script occurrences =>
          exact (Level.carries_scripted name).orderly (fun _ _ => rfl)
            (Term.orderly_ofPostings ScriptedPostings.steady_marks
              (ScriptedPostings.marks_ofOccurrences script occurrences))
      | probe name listing fault? =>
          exact Level.carries_probe.orderly (fun _ _ => rfl)
            (Probe.orderly_ofListing name listing fault?)
      | proximity arrangement slop collects children =>
          refine Level.carries_proximity.orderly (fun _ _ => rfl)
            (Proximity.orderly_ofCursors fun place => ?_)
          rw [getElem_pmap_openAt]
          exact ih _ _
      | union children =>
          refine Level.carries_union.orderly (fun _ _ => rfl)
            (Union.orderly_ofCursors fun place => ?_)
          rw [getElem_pmap_openAt]
          exact ih _ _
      | without clash included excluded =>
          exact Level.carries_without.orderly (fun _ _ => rfl)
            (Without.orderly_ofCursors (ih included _) (ih excluded _))
      | region low high anchor child =>
          exact Level.carries_region.orderly (fun _ _ => rfl)
            (Region.orderly_ofCursor (ih child _))
      | metered name child =>
          exact Level.carries_metered.orderly (fun _ _ => rfl)
            (Metered.orderly_ofCursor (ih child _))

/-- Whatever happens to an opened query, what it reports goes forward. -/
theorem reports_forward (query : Query)
    (happenings : List (Cursor.Happening (String × Option ProbeFault))) :
    Forward (Cursor.reports Tree.armed happenings query.openTree) :=
  (orderly_openAt query.height query (Nat.le_refl _)).forward happenings

end Query

end PositionalSearch
