import PositionalSearch.Span

/-!
# Occurrences

An occurrence says that a term stands at a position of a document, perhaps
with a payload.  Occurrences arrive in any order and more than once; `collate`
sorts them by document and position and keeps the last one given for a place.
-/

namespace PositionalSearch

/-- A term at a position of a document. -/
structure Occurrence where
  doc : DocId
  position : Position
  payload? : Option Payload
deriving DecidableEq

namespace Occurrence

/-- By document, then position. -/
def before (left right : Occurrence) : Bool :=
  left.doc < right.doc ||
    (left.doc == right.doc && left.position < right.position)

/-- Put one occurrence in its place, instead of one that is there already. -/
def file (added : Occurrence) : List Occurrence → List Occurrence
  | [] => [added]
  | first :: rest =>
      if added.before first then added :: first :: rest
      else if first.before added then first :: file added rest
      else added :: rest

/-- The occurrences in order, the last one given for each place. -/
def collate (occurrences : List Occurrence) : List Occurrence :=
  occurrences.foldl (fun filed added => file added filed) []

/-- The place of an occurrence among all places. -/
def place (occurrence : Occurrence) : Nat :=
  occurrence.doc.toNat * UInt32.size + occurrence.position.toNat

theorem before_iff_place_lt {left right : Occurrence} :
    left.before right ↔ left.place < right.place := by
  have leftBound := left.position.toNat_lt
  have rightBound := right.position.toNat_lt
  simp only [before, place, UInt32.size, Bool.or_eq_true, Bool.and_eq_true, beq_iff_eq,
    decide_eq_true_eq, UInt64.lt_iff_toNat_lt, UInt32.lt_iff_toNat_lt,
    ← UInt64.toNat_inj]
  omega

theorem mem_of_mem_file {added found : Occurrence} {filed : List Occurrence}
    (member : found ∈ file added filed) : found = added ∨ found ∈ filed := by
  induction filed with
  | nil => simpa [file] using member
  | cons first rest ih =>
      unfold file at member
      split at member
      · simpa using member
      · split at member
        · rcases List.mem_cons.mp member with same | later
          · exact .inr (by simp [same])
          · exact (ih later).imp_right (List.mem_cons_of_mem _)
        · rcases List.mem_cons.mp member with same | later
          · exact .inl same
          · exact .inr (List.mem_cons_of_mem _ later)

/-- Filing keeps the places in order, and each place once. -/
theorem pairwise_file (added : Occurrence) {filed : List Occurrence}
    (sorted : filed.Pairwise (·.place < ·.place)) :
    (file added filed).Pairwise (·.place < ·.place) := by
  induction filed with
  | nil => simp [file]
  | cons first rest ih =>
      obtain ⟨firstLt, restSorted⟩ := List.pairwise_cons.mp sorted
      unfold file
      split
      · rename_i earlier
        have earlier := before_iff_place_lt.mp earlier
        refine List.pairwise_cons.mpr ⟨fun found member => ?_, sorted⟩
        rcases List.mem_cons.mp member with rfl | later
        · exact earlier
        · exact Nat.lt_trans earlier (firstLt found later)
      · rename_i notEarlier
        have notEarlier := mt before_iff_place_lt.mpr notEarlier
        split
        · rename_i later
          have later := before_iff_place_lt.mp later
          refine List.pairwise_cons.mpr
            ⟨fun found member => ?_, ih restSorted⟩
          rcases mem_of_mem_file member with rfl | old
          · exact later
          · exact firstLt found old
        · rename_i notLater
          have notLater := mt before_iff_place_lt.mpr notLater
          refine List.pairwise_cons.mpr
            ⟨fun found member => ?_, restSorted⟩
          have := firstLt found member
          omega

/-- Collated occurrences are in order, one for each place. -/
theorem pairwise_collate (occurrences : List Occurrence) :
    (collate occurrences).Pairwise (·.place < ·.place) := by
  suffices general : ∀ filed : List Occurrence,
      filed.Pairwise (·.place < ·.place) →
        (occurrences.foldl (fun filed added => file added filed)
          filed).Pairwise (·.place < ·.place) from general [] .nil
  induction occurrences with
  | nil => intro filed sorted; exact sorted
  | cons first rest ih =>
      intro filed sorted
      exact ih _ (pairwise_file first sorted)

end Occurrence

end PositionalSearch
