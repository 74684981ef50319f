/-!
# Spans

A span is one occurrence of a matched construct inside one document.  Spans
are ordered by document, then start, then stop; the main facts are that this
order is the order of one number, `Span.rank`, and that only finitely many
spans lie beyond a given one, which `Span.room` counts.
-/

namespace PositionalSearch

/-- The number of a document in the index. -/
abbrev DocId := UInt64

namespace DocId

/-- The document after this one, if there is one. -/
def after? (doc : DocId) : Option DocId :=
  if doc < 18446744073709551615 then some (doc + 1) else none

/-- A bound on the number of documents after this one. -/
def room (doc : DocId) : Nat := UInt64.size - doc.toNat

/-- Moving to a later document uses up room. -/
theorem room_lt_room {left right : DocId} (before : left < right) :
    room right < room left := by
  have bound := right.toNat_lt
  have order := UInt64.lt_iff_toNat_lt.mp before
  simp only [room, UInt64.size]
  omega

/-- The document after this one is the least of the later ones. -/
theorem after?_eq_some_iff {doc next : DocId} :
    after? doc = some next ↔ next.toNat = doc.toNat + 1 := by
  have bound := next.toNat_lt
  unfold after?
  split
  · rename_i inner
    simp only [UInt64.lt_iff_toNat_lt, UInt64.reduceToNat] at inner
    simp only [Option.some.injEq, ← UInt64.toNat_inj, UInt64.toNat_add,
      UInt64.reduceToNat]
    omega
  · rename_i top
    simp only [UInt64.lt_iff_toNat_lt, UInt64.reduceToNat] at top
    simp only [reduceCtorEq, false_iff]
    omega

end DocId

/-- The number of a token inside a document. -/
abbrev Position := UInt32

/-- Bytes stored beside an occurrence. -/
abbrev Payload := ByteArray

instance : DecidableEq Payload := ByteArray.instDecidableEq

/-- The positions from `start` up to, and without, `stop` in one document. -/
structure Span where
  doc : DocId
  start : Position
  stop : Position
  start_le_stop : start ≤ stop
deriving DecidableEq

namespace Span

/-- A span with the given bounds, unless it would stop before it starts. -/
def ofBounds? (doc : DocId) (start stop : Position) : Option Span :=
  if ordered : start ≤ stop then some ⟨doc, start, stop, ordered⟩ else none

/--
The span of a single token.  It stops one position later; the last position
has no successor, so a token there has the empty span at its own position.
-/
def ofToken (doc : DocId) (position : Position) : Span :=
  if top : position < 4294967295 then
    ⟨doc, position, position + 1, by
      simp only [UInt32.lt_iff_toNat_lt, UInt32.le_iff_toNat_le,
        UInt32.toNat_add, UInt32.reduceToNat] at *
      omega⟩
  else ⟨doc, position, position, UInt32.le_refl position⟩

/-- The number of positions covered. -/
def length (span : Span) : Nat := span.stop.toNat - span.start.toNat

/-- A span that covers no position. -/
def isEmpty (span : Span) : Bool := span.start == span.stop

/-- The place of a span among all triples of bounds. -/
def rank (span : Span) : Nat :=
  (span.doc.toNat * UInt32.size + span.start.toNat) * UInt32.size +
    span.stop.toNat

/-- A bound on the number of spans beyond this one. -/
def room (span : Span) : Nat := UInt64.size * UInt64.size - span.rank

/-- By document, then start, then stop. -/
def Precedes (left right : Span) : Prop :=
  left.doc < right.doc ∨ left.doc = right.doc ∧
    (left.start < right.start ∨ left.start = right.start ∧
      left.stop < right.stop)

instance : LT Span := ⟨Precedes⟩

instance (left right : Span) : Decidable (left < right) :=
  inferInstanceAs (Decidable (left.doc < right.doc ∨ left.doc = right.doc ∧
    (left.start < right.start ∨ left.start = right.start ∧
      left.stop < right.stop)))

/-- The three-way form of the order. -/
instance : Ord Span where
  compare left right :=
    if left < right then .lt else if left = right then .eq else .gt

@[ext] theorem ext {left right : Span} (doc : left.doc = right.doc)
    (start : left.start = right.start) (stop : left.stop = right.stop) :
    left = right := by
  cases left
  cases right
  simp_all

theorem lt_iff {left right : Span} :
    left < right ↔ left.doc < right.doc ∨ left.doc = right.doc ∧
      (left.start < right.start ∨ left.start = right.start ∧
        left.stop < right.stop) := Iff.rfl

theorem rank_lt (span : Span) :
    span.rank < UInt64.size * UInt64.size := by
  have doc := span.doc.toNat_lt
  have start := span.start.toNat_lt
  have stop := span.stop.toNat_lt
  simp only [rank, UInt32.size, UInt64.size]
  omega

/-- The order of spans is the order of their ranks. -/
theorem lt_iff_rank_lt {left right : Span} :
    left < right ↔ left.rank < right.rank := by
  have leftStart := left.start.toNat_lt
  have leftStop := left.stop.toNat_lt
  have rightStart := right.start.toNat_lt
  have rightStop := right.stop.toNat_lt
  simp only [lt_iff, rank, UInt32.size, UInt64.lt_iff_toNat_lt, UInt32.lt_iff_toNat_lt,
    ← UInt64.toNat_inj, ← UInt32.toNat_inj]
  omega

theorem rank_inj {left right : Span} :
    left.rank = right.rank ↔ left = right := by
  constructor
  · intro same
    have leftStart := left.start.toNat_lt
    have leftStop := left.stop.toNat_lt
    have rightStart := right.start.toNat_lt
    have rightStop := right.stop.toNat_lt
    simp only [rank, UInt32.size] at same
    apply ext
    · apply UInt64.toNat_inj.mp
      omega
    · apply UInt32.toNat_inj.mp
      omega
    · apply UInt32.toNat_inj.mp
      omega
  · rintro rfl
    rfl

theorem lt_trans {first second third : Span} (left : first < second)
    (right : second < third) : first < third :=
  lt_iff_rank_lt.mpr
    (Nat.lt_trans (lt_iff_rank_lt.mp left) (lt_iff_rank_lt.mp right))

theorem lt_irrefl (span : Span) : ¬ span < span := fun less =>
  Nat.lt_irrefl _ (lt_iff_rank_lt.mp less)

/-- A later span lies in the same document or in a later one. -/
theorem doc_le_of_lt {left right : Span} (before : left < right) :
    left.doc ≤ right.doc := by
  rcases before with earlier | ⟨same, _⟩
  · exact UInt64.le_of_lt earlier
  · exact same ▸ UInt64.le_refl _

/-- Moving to a later span uses up room. -/
theorem room_lt_room {left right : Span} (before : left < right) :
    right.room < left.room := by
  have bound := right.rank_lt
  have ranks := lt_iff_rank_lt.mp before
  simp only [room, UInt64.size] at bound ⊢
  omega

@[simp] theorem doc_ofToken (doc : DocId) (position : Position) :
    (ofToken doc position).doc = doc := by
  unfold ofToken
  split <;> rfl

@[simp] theorem start_ofToken (doc : DocId) (position : Position) :
    (ofToken doc position).start = position := by
  unfold ofToken
  split <;> rfl

/-- A token's span stops one position on, as far as positions go. -/
theorem toNat_stop_ofToken (doc : DocId) (position : Position) :
    (ofToken doc position).stop.toNat =
      min (position.toNat + 1) (UInt32.size - 1) := by
  have bound := position.toNat_lt
  unfold ofToken
  split
  · rename_i top
    simp only [UInt32.lt_iff_toNat_lt, UInt32.reduceToNat] at top
    simp only [UInt32.toNat_add, UInt32.reduceToNat, UInt32.size]
    omega
  · rename_i top
    simp only [UInt32.lt_iff_toNat_lt, UInt32.reduceToNat] at top
    simp only [UInt32.size]
    omega

end Span

/-- Where a seek ended: in the document asked for, or in a later one. -/
inductive Landing
  | found (span : Span)
  | beyond (span : Span)
deriving DecidableEq

namespace Landing

/-- Compare the span reached with the document asked for. -/
def of (target : DocId) (span : Span) : Landing :=
  if span.doc = target then .found span else .beyond span

/-- The span reached. -/
def span : Landing → Span
  | .found span => span
  | .beyond span => span

@[simp] theorem span_of (target : DocId) (span : Span) :
    (of target span).span = span := by
  unfold of
  split <;> rfl

/-- A landing is found exactly when it lies in the document asked for. -/
theorem of_eq_found_iff {target : DocId} {span landed : Span} :
    of target span = .found landed ↔ span = landed ∧ span.doc = target := by
  unfold of
  split <;> simp_all

end Landing

end PositionalSearch
