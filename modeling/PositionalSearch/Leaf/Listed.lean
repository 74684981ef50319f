import PositionalSearch.Cursor
import PositionalSearch.Listing

/-!
# The cursor over a listing

It yields the spans of a listing in order, and bisects the rest of the listing
to reach a document.
-/

namespace PositionalSearch

/-- A cursor over a listing. -/
structure Listed where
  listing : Listing
  /-- The place of the entry that comes next. -/
  offset : Nat
  standing : Standing

namespace Listed

/-- A cursor before the first entry of a listing. -/
def ofListing (listing : Listing) : Listed := ⟨listing, 0, .unstarted⟩

/-- Stand on the entry at a place, or past the last one. -/
def standAt (place : Nat) : Attempt Failure Listed (Option Span) :=
  fun cursor =>
    match cursor.listing.entry? place with
    | some entry =>
        (.ok (some entry.span),
          { cursor with offset := place + 1, standing := .on entry.span })
    | none =>
        (.ok none,
          { cursor with
            offset := cursor.listing.size
            standing := .exhausted })

/-- What is stored beside the current entry. -/
def stored (cursor : Listed) : Except Failure (List Payload) :=
  match cursor.offset with
  | 0 => .error (.breach .noCurrentEntry)
  | place + 1 =>
      .ok ((cursor.listing.entry? place).bind Entry.payload?).toList

instance : Cursor Listed where
  next := do
    let cursor ← Attempt.look
    match ← Attempt.ofExcept cursor.standing.planNext with
    | true => standAt cursor.offset
    | false => pure none
  seek target := do
    let cursor ← Attempt.look
    match ← Attempt.ofExcept (cursor.standing.planSeek target) with
    | .finished => pure none
    | .stepOn => standAt cursor.offset
    | .forward => standAt (cursor.listing.placeFrom cursor.offset target)
  standing := standing
  payloads cursor := do
    cursor.standing.requireSpan
    cursor.stored
  estimate cursor := cursor.listing.size
  close cursor := { cursor with standing := .closed }

end Listed

end PositionalSearch
