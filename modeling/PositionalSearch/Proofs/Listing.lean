import PositionalSearch.Leaf.Listed
import PositionalSearch.Leaf.Probe
import PositionalSearch.Proofs.SpanOrder

/-!
# Places of a listing

A later place of a listing holds a later span, so the place that bisection
finds for a document is the first one that is not before it.  A scan stops at
the same place.
-/

namespace PositionalSearch

namespace Listing

/-- A later place holds a later span. -/
theorem span_lt (listing : Listing) {first second : Nat}
    (before : first < second) (inside : second < listing.entries.size) :
    listing.entries[first].span < listing.entries[second].span := by
  have sorted := ascending_iff_pairwise.mp listing.ascending
  rw [List.pairwise_map] at sorted
  exact List.pairwise_iff_getElem.mp sorted first second
    (by simpa using Nat.lt_trans before inside) (by simpa using inside) before

/-- The entries of documents before a target stand first. -/
theorem split (listing : Listing) (target : DocId) :
    Bisection.Split listing.entries
      (fun entry => entry.span.doc < target) := by
  intro first second ordered inside holds
  simp only [decide_eq_true_eq] at holds ⊢
  rcases Nat.lt_or_eq_of_le ordered with before | rfl
  · have notAfter := Span.doc_le_of_lt (listing.span_lt before inside)
    exact UInt64.lt_of_le_of_lt notAfter holds
  · exact holds

/-- Bisection goes forward. -/
theorem le_placeFrom (listing : Listing) (low : Nat) (target : DocId) :
    low ≤ listing.placeFrom low target :=
  Bisection.le_boundary _ _ _ _ _

/-- What is passed over lies before the target. -/
theorem doc_lt_of_lt_placeFrom (listing : Listing) {low place : Nat}
    {target : DocId} (fromLow : low ≤ place)
    (passed : place < listing.placeFrom low target)
    (inside : place < listing.entries.size) :
    listing.entries[place].span.doc < target := by
  have before := Bisection.before_of_lt_boundary (listing.split target)
    (Nat.le_refl _) fromLow passed inside
  simpa using before

/-- What is not passed over does not lie before the target. -/
theorem target_le_of_placeFrom_le (listing : Listing) {low place : Nat}
    {target : DocId} (left : listing.placeFrom low target ≤ place)
    (inside : place < listing.entries.size) :
    target ≤ listing.entries[place].span.doc := by
  have notBefore := Bisection.not_before_of_boundary_le
    (listing.split target) (Nat.le_refl _) left inside inside
  simpa using notBefore

/-- The scan stops at the only place that has the target before it. -/
theorem scanFrom_eq (listing : Listing) {low place : Nat} {target : DocId}
    (forward : low ≤ place)
    (passed : ∀ earlier, low ≤ earlier → earlier < place →
      ∃ inside : earlier < listing.entries.size,
        listing.entries[earlier].span.doc < target)
    (stops : ∀ inside : place < listing.entries.size,
      target ≤ listing.entries[place].span.doc) :
    listing.scanFrom low target = place := by
  fun_induction scanFrom listing low target with
  | case1 low inside before ih =>
      have further : low < place := by
        refine Nat.lt_of_le_of_ne forward ?_
        rintro rfl
        exact absurd (stops inside) (UInt64.not_le.mpr before)
      exact ih further fun earlier fromNext =>
        passed earlier (Nat.le_of_succ_le fromNext)
  | case2 low inside notBefore =>
      refine Nat.le_antisymm forward (Nat.not_lt.mp fun further => ?_)
      obtain ⟨_, before⟩ := passed low (Nat.le_refl _) further
      exact notBefore before
  | case3 low outside =>
      refine Nat.le_antisymm forward (Nat.not_lt.mp fun further => ?_)
      obtain ⟨inside, _⟩ := passed low (Nat.le_refl _) further
      exact outside inside

/-- Looking at each entry leads to the place that bisection finds. -/
theorem scanFrom_eq_placeFrom (listing : Listing) (low : Nat)
    (target : DocId) :
    listing.scanFrom low target = listing.placeFrom low target := by
  by_cases inside : low < listing.entries.size
  · have bounded : listing.placeFrom low target ≤ listing.entries.size :=
      Bisection.boundary_le _ _ _ _ _ (Nat.le_of_lt inside)
    refine listing.scanFrom_eq (listing.le_placeFrom low target)
      (fun earlier fromLow passed => ?_)
      (listing.target_le_of_placeFrom_le (Nat.le_refl _))
    have earlierInside := Nat.lt_of_lt_of_le passed bounded
    exact ⟨earlierInside,
      listing.doc_lt_of_lt_placeFrom fromLow passed earlierInside⟩
  · rw [scanFrom, dif_neg inside, placeFrom, Bisection.boundary,
      dif_neg inside]

/-- All entries from a place on come after the last span. -/
def Ahead (listing : Listing) (offset : Nat) (last? : Option Span) : Prop :=
  ∀ last ∈ last?, ∀ (place : Nat) (inside : place < listing.entries.size),
    offset ≤ place → last < listing.entries[place].span

theorem ahead_none (listing : Listing) (offset : Nat) :
    listing.Ahead offset none := nofun

theorem Ahead.mono {listing : Listing} {offset further : Nat}
    {last? : Option Span} (ahead : listing.Ahead offset last?)
    (forward : offset ≤ further) : listing.Ahead further last? :=
  fun last isLast place inside passed =>
    ahead last isLast place inside (Nat.le_trans forward passed)

/-- After an entry come the later ones. -/
theorem ahead_succ (listing : Listing) {place : Nat} {entry : Entry}
    (found : listing.entry? place = some entry) :
    listing.Ahead (place + 1) (some entry.span) := by
  rintro _ ⟨rfl⟩ later inside passed
  obtain ⟨_, rfl⟩ := Array.getElem?_eq_some_iff.mp found
  exact listing.span_lt passed inside

end Listing

namespace Listed

theorem standAt_of_entry {cursor : Listed} {place : Nat} {entry : Entry}
    (found : cursor.listing.entry? place = some entry) :
    standAt place cursor = (.ok (some entry.span),
      { cursor with offset := place + 1, standing := .on entry.span }) := by
  simp only [standAt, found]

theorem standAt_of_end {cursor : Listed} {place : Nat}
    (found : cursor.listing.entry? place = none) :
    standAt place cursor = (.ok none,
      { cursor with
        offset := cursor.listing.size
        standing := .exhausted }) := by
  simp only [standAt, found]

end Listed

namespace Probe

/-- The scan of a probe passes what bisection passes. -/
theorem passBefore_eq (target : DocId) (probe : Probe) :
    passBefore target probe = { probe with
      offset := probe.listing.placeFrom probe.offset target } := by
  rw [passBefore, Listing.scanFrom_eq_placeFrom]

theorem stepOn_of_entry {probe : Probe} {entry : Entry}
    (found : probe.listing.entry? probe.offset = some entry) :
    stepOn probe = (.ok (some entry.span),
      { probe with
        offset := probe.offset + 1
        standing := .on entry.span }) := by
  simp only [stepOn, found]

theorem stepOn_of_end {probe : Probe}
    (found : probe.listing.entry? probe.offset = none)
    (unarmed : probe.fault? = none) :
    stepOn probe = (.ok none, { probe with standing := .exhausted }) := by
  simp only [stepOn, found, unarmed]

theorem stepOn_of_fault {probe : Probe} {fault : ProbeFault}
    (found : probe.listing.entry? probe.offset = none)
    (armed : probe.fault? = some fault) :
    stepOn probe = (.error fault.failure, probe) := by
  simp only [stepOn, found, armed]

end Probe

end PositionalSearch
