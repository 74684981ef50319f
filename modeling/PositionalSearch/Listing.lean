import PositionalSearch.Bisection
import PositionalSearch.Span

/-!
# Listings

A listing is an array of spans, each with or without a payload, in strictly
ascending order.  The order is part of the type, so a search by document can
bisect the listing.
-/

namespace PositionalSearch

/-- A span and what is stored beside it. -/
structure Entry where
  span : Span
  payload? : Option Payload
deriving DecidableEq

/-- Each span precedes the next one. -/
def Ascending : List Span → Prop
  | [] => True
  | [_] => True
  | first :: second :: rest => first < second ∧ Ascending (second :: rest)

instance decidableAscending : (spans : List Span) → Decidable (Ascending spans)
  | [] => isTrue trivial
  | [_] => isTrue trivial
  | first :: second :: rest =>
      letI := decidableAscending (second :: rest)
      inferInstanceAs (Decidable (first < second ∧ Ascending (second :: rest)))

theorem Ascending.tail {first : Span} {rest : List Span}
    (ascending : Ascending (first :: rest)) : Ascending rest := by
  cases rest with
  | nil => trivial
  | cons second rest => exact ascending.2

theorem Ascending.head_lt {first : Span} {rest : List Span}
    (ascending : Ascending (first :: rest)) :
    ∀ span ∈ rest, first < span := by
  induction rest generalizing first with
  | nil => simp
  | cons second rest ih =>
      intro span member
      rcases List.mem_cons.mp member with rfl | later
      · exact ascending.1
      · exact Span.lt_trans ascending.1 (ih ascending.2 span later)

/-- Each span of an ascending list precedes all later ones. -/
theorem ascending_iff_pairwise {spans : List Span} :
    Ascending spans ↔ spans.Pairwise (· < ·) := by
  induction spans with
  | nil => exact iff_of_true trivial .nil
  | cons first rest ih =>
      constructor
      · intro ascending
        exact .cons ascending.head_lt (ih.mp ascending.tail)
      · intro pairwise
        cases rest with
        | nil => trivial
        | cons second rest =>
            rw [List.pairwise_cons] at pairwise
            exact ⟨pairwise.1 second (by simp), ih.mpr pairwise.2⟩

/-- Entries in strictly ascending order. -/
structure Listing where
  entries : Array Entry
  ascending : Ascending (entries.toList.map Entry.span)

namespace Listing

/-- The listing without entries. -/
def empty : Listing := ⟨#[], trivial⟩

/-- The listing of the given entries, if they are in order. -/
def ofEntries? (entries : List Entry) : Option Listing :=
  if ascending : Ascending (entries.map Entry.span) then
    some ⟨entries.toArray, by simpa using ascending⟩
  else none

/-- The number of entries. -/
def size (listing : Listing) : Nat := listing.entries.size

/-- The entry at a place. -/
def entry? (listing : Listing) (place : Nat) : Option Entry :=
  listing.entries[place]?

/-- The first place from `low` on whose document is at least the target. -/
def placeFrom (listing : Listing) (low : Nat) (target : DocId) : Nat :=
  Bisection.boundary listing.entries (fun entry => entry.span.doc < target)
    low listing.entries.size (Nat.le_refl _)

/-- The same place, looked for one entry after the other. -/
def scanFrom (listing : Listing) (low : Nat) (target : DocId) : Nat :=
  if inside : low < listing.entries.size then
    if listing.entries[low].span.doc < target then
      listing.scanFrom (low + 1) target
    else low
  else low
termination_by listing.entries.size - low

end Listing

end PositionalSearch
