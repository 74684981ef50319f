import PositionalSearch.Proofs.Listing
import PositionalSearch.Proofs.Plain

/-!
# Cursors over listings follow plain ones

What is left of a listing is what stands from the offset on; bisection drops
exactly the entries of documents before the target.
-/

namespace PositionalSearch

open Cursor (Follows Mirrors Takes)

namespace Bisection

/-- Bisection drops exactly the entries that come before. -/
theorem drop_boundary {α : Type} {entries : Array α} {before : α → Bool}
    (split : Split entries before) (low : Nat) :
    entries.toList.drop
        (boundary entries before low entries.size (Nat.le_refl _)) =
      (entries.toList.drop low).dropWhile before := by
  have forward := le_boundary entries before low entries.size (Nat.le_refl _)
  generalize isPlace : boundary entries before low entries.size
    (Nat.le_refl _) = place at forward ⊢
  have cut : entries.toList.drop low =
      (entries.toList.drop low).take (place - low) ++
        entries.toList.drop place := by
    have same : entries.toList.drop place =
        (entries.toList.drop low).drop (place - low) := by
      rw [List.drop_drop, Nat.add_sub_cancel' forward]
    rw [same, List.take_append_drop]
  have passed : ∀ entry ∈ (entries.toList.drop low).take (place - low),
      before entry := by
    intro entry member
    obtain ⟨index, inside, rfl⟩ := List.mem_iff_getElem.mp member
    simp only [List.length_take, List.length_drop, Array.length_toList]
      at inside
    simp only [List.getElem_take, List.getElem_drop, Array.getElem_toList]
    refine before_of_lt_boundary split (Nat.le_refl _)
      (Nat.le_add_right low _) ?_ _
    rw [isPlace]
    omega
  rw [cut, List.dropWhile_append_of_pos passed]
  by_cases filled : place < entries.size
  · rw [List.drop_eq_getElem_cons (by simpa using filled)]
    refine (List.dropWhile_cons_of_neg ?_).symm
    rw [Array.getElem_toList, Bool.not_eq_true]
    exact not_before_of_boundary_le split (Nat.le_refl _)
      (Nat.le_of_eq isPlace) filled filled
  · rw [List.drop_eq_nil_of_le (by simpa using filled), List.dropWhile_nil]

end Bisection

/-! ## No spans -/

namespace Nothing

theorem mirrors : Mirrors fun (cursor : Nothing) (plain : Plain) =>
    plain.held = [] ∧ Cursor.standing cursor = Cursor.standing plain ∧
      Cursor.payloads cursor = Cursor.payloads plain := by
  have finishes : ∀ {cursor : Nothing} {visits : Visits}, visits = [] →
      finish.Meets cursor (Takes (fun (cursor : Nothing) (plain : Plain) =>
        plain.held = [] ∧ Cursor.standing cursor = Cursor.standing plain ∧
          Cursor.payloads cursor = Cursor.payloads plain) visits)
        (fun _ _ => False) := by
    rintro cursor _ rfl
    exact ⟨rfl, rfl, rfl, rfl⟩
  have none_left : ∀ {plain : Plain}, plain.held = [] → plain.left = [] := by
    intro plain empty
    cases plain with
    | fresh visits => exact empty
    | on visit rest => cases empty
    | ended => rfl
    | closed => rfl
  refine planned.mirrors (fun alike => alike.2.1) (fun alike => alike.2.2)
    ?_ ?_ ?_
  · intro cursor plain alike
    rw [alike.1]
    exact Visits.Ordered.nil
  · exact fun alike _ => finishes (none_left alike.1)
  · intro cursor plain target alike _
    exact finishes (by rw [none_left alike.1]; rfl)

theorem follows_fresh : Follows fresh (.fresh []) :=
  ⟨_, mirrors, rfl, rfl, rfl⟩

end Nothing

/-! ## Listings -/

namespace Entry

/-- An entry as a walk meets it. -/
def visit (entry : Entry) : Visit := ⟨entry.span, entry.payload?.toList⟩

end Entry

namespace Listing

/-- What stands in a listing from a place on. -/
def visitsFrom (listing : Listing) (place : Nat) : Visits :=
  (listing.entries.toList.drop place).map Entry.visit

/-- What stands in a listing. -/
def visits (listing : Listing) : Visits := listing.visitsFrom 0

theorem ordered_visitsFrom (listing : Listing) (place : Nat) :
    (listing.visitsFrom place).Ordered := by
  have sorted := ascending_iff_pairwise.mp listing.ascending
  rw [List.pairwise_map] at sorted
  rw [visitsFrom, Visits.Ordered, List.pairwise_map]
  exact sorted.sublist (List.drop_sublist _ _)

theorem visitsFrom_of_entry {listing : Listing} {place : Nat} {entry : Entry}
    (found : listing.entry? place = some entry) :
    listing.visitsFrom place =
      entry.visit :: listing.visitsFrom (place + 1) := by
  obtain ⟨inside, rfl⟩ := Array.getElem?_eq_some_iff.mp found
  rw [visitsFrom, List.drop_eq_getElem_cons (by simpa using inside)]
  rfl

theorem visitsFrom_of_end {listing : Listing} {place : Nat}
    (found : listing.entry? place = none) : listing.visitsFrom place = [] := by
  have passed : listing.entries.size ≤ place :=
    Array.getElem?_eq_none_iff.mp found
  rw [visitsFrom, List.drop_eq_nil_of_le (by simpa using passed)]
  rfl

/-- Bisection leaves what lies in the target document or after it. -/
theorem visitsFrom_placeFrom (listing : Listing) (low : Nat)
    (target : DocId) :
    listing.visitsFrom (listing.placeFrom low target) =
      (listing.visitsFrom low).since target := by
  rw [← (listing.ordered_visitsFrom low).dropWhile_eq_since, visitsFrom,
    placeFrom, Bisection.drop_boundary (listing.split target), visitsFrom,
    List.dropWhile_map]
  rfl

end Listing

namespace Listed

/-- The entries from the offset on are left, and the one before is current. -/
structure Like (cursor : Listed) (plain : Plain) : Prop where
  standing : Cursor.standing cursor = Cursor.standing plain
  payloads : Cursor.payloads cursor = Cursor.payloads plain
  left : (Cursor.standing plain).planNext = .ok true →
    cursor.listing.visitsFrom cursor.offset = plain.left
  ordered : plain.held.Ordered

theorem takes_standAt {cursor : Listed} {place : Nat} :
    (standAt place).Meets cursor
      (Takes Like (cursor.listing.visitsFrom place)) (fun _ _ => False) := by
  have ordered := cursor.listing.ordered_visitsFrom place
  cases found : cursor.listing.entry? place with
  | none =>
      rw [Listing.visitsFrom_of_end found]
      exact (Attempt.meets_of_ok (standAt_of_end found)).mpr
        ⟨rfl, rfl, rfl, nofun, Visits.Ordered.nil⟩
  | some entry =>
      rw [Listing.visitsFrom_of_entry found] at ordered ⊢
      refine (Attempt.meets_of_ok (standAt_of_entry found)).mpr
        ⟨rfl, rfl, ?_, fun _ => rfl, ordered⟩
      change (Except.ok
        ((cursor.listing.entry? place).bind Entry.payload?).toList :
          Except Failure _) = _
      rw [found]
      rfl

theorem mirrors : Mirrors Like :=
  planned.mirrors Like.standing Like.payloads Like.ordered
    (fun {cursor plain} alike goes => by
      rw [← alike.left goes]
      exact takes_standAt)
    (fun {cursor plain} target alike goes => by
      rw [← alike.left (Standing.planNext_of_planSeek goes),
        ← Listing.visitsFrom_placeFrom]
      exact takes_standAt)

theorem follows_ofListing (listing : Listing) :
    Follows (ofListing listing) (.fresh listing.visits) :=
  ⟨Like, mirrors, rfl, rfl, fun _ => rfl, listing.ordered_visitsFrom 0⟩

end Listed

/-! ## Probes that are not armed -/

namespace Probe

/-- As for a cursor over a listing; the probe is set to report no failure. -/
structure Like (probe : Probe) (plain : Plain) : Prop where
  unarmed : probe.fault? = none
  standing : Cursor.standing probe = Cursor.standing plain
  payloads : Cursor.payloads probe = Cursor.payloads plain
  left : (Cursor.standing plain).planNext = .ok true →
    probe.listing.visitsFrom probe.offset = plain.left
  ordered : plain.held.Ordered

theorem takes_stepOn {probe : Probe} (unarmed : probe.fault? = none) :
    stepOn.Meets probe
      (Takes Like (probe.listing.visitsFrom probe.offset))
      (fun _ _ => False) := by
  have ordered := probe.listing.ordered_visitsFrom probe.offset
  cases found : probe.listing.entry? probe.offset with
  | none =>
      rw [Listing.visitsFrom_of_end found]
      exact (Attempt.meets_of_ok (stepOn_of_end found unarmed)).mpr
        ⟨rfl, unarmed, rfl, rfl, nofun,
          Visits.Ordered.nil⟩
  | some entry =>
      rw [Listing.visitsFrom_of_entry found] at ordered ⊢
      refine (Attempt.meets_of_ok (stepOn_of_entry found)).mpr
        ⟨rfl, unarmed, rfl, ?_, fun _ => rfl, ordered⟩
      change (Except.ok
        ((probe.listing.entry? probe.offset).bind Entry.payload?).toList :
          Except Failure _) = _
      rw [found]
      rfl

/-- A probe moves by its plan once the call is counted. -/
theorem mirrors : Mirrors Like where
  standing_eq := Like.standing
  payloads_eq := Like.payloads
  moves := by
    intro probe plain alike move
    have stands : probe.standing = Cursor.standing plain := alike.standing
    have steps : ∀ {probe : Probe}, Like probe plain →
        (Cursor.standing plain).planNext = .ok true →
        stepOn.Meets probe (Takes Like plain.left) (fun _ _ => False) := by
      intro probe alike goes
      rw [← alike.left goes]
      exact takes_stepOn alike.unarmed
    cases move with
    | next =>
        have counted : Like { probe with nexts := probe.nexts + 1 } plain :=
          ⟨alike.unarmed, alike.standing, alike.payloads, alike.left,
            alike.ordered⟩
        have copied := Cursor.copies_planNext counted (steps counted)
        simp only [Cursor.Copies, Cursor.go, Cursor.next, Attempt.meets_bind,
          Attempt.meets_update, Attempt.meets_look, stands] at copied ⊢
        apply copied.imp_answer
        intro goes reached met
        cases goes with
        | false => exact met
        | true => exact met
    | seek target =>
        have counted : Like { probe with seeks := probe.seeks + 1 } plain :=
          ⟨alike.unarmed, alike.standing, alike.payloads, alike.left,
            alike.ordered⟩
        have copied := Cursor.copies_planSeek stepOn (do
            Attempt.update (passBefore target)
            stepOn) counted counted.ordered (steps counted) (by
            intro goes
            rw [← counted.left (Standing.planNext_of_planSeek goes),
              ← Listing.visitsFrom_placeFrom]
            simp only [Attempt.meets_bind, Attempt.meets_update, passBefore_eq]
            exact takes_stepOn counted.unarmed)
        simp only [Cursor.Copies, Cursor.go, Cursor.seek, Attempt.meets_bind,
          Attempt.meets_update, Attempt.meets_look, stands] at copied ⊢
        exact copied

theorem follows_ofListing (name : String) (listing : Listing) :
    Follows (ofListing name listing none) (.fresh listing.visits) :=
  ⟨Like, mirrors, rfl, rfl, rfl, fun _ => rfl, listing.ordered_visitsFrom 0⟩

end Probe

end PositionalSearch
