import PositionalSearch.Proximity.Lineup

/-!
# Arrangements

An arrangement takes one span from each child in one document.  In order, each
span starts where its predecessor stops or later, and the slack is the sum of
the gaps.  In any order, the slack is the length of the window around the spans
less the sum of their lengths.  A search slides over the arrangements of a
document and answers the first one within the slop that comes after the match
before.
-/

namespace PositionalSearch

/-- How the spans of a match may lie. -/
inductive Arrangement
  | inOrder
  | anyOrder
deriving DecidableEq, Repr

/-- A match, and the child that moves on when the search goes on. -/
structure Match (size : Nat) where
  pivot : Fin size
  span : Span

/-- What came of work in one document. -/
inductive Finding (α : Type)
  | hit (value : α)
  /-- A child has left the document. -/
  | left
  /-- A child has no more spans. -/
  | ended

/-- The sum of the gaps between spans in order; none if neighbours overlap. -/
def gaps? : List Span → Option Nat
  | first :: second :: rest =>
      if first.stop ≤ second.start then
        (gaps? (second :: rest)).map
          (second.start.toNat - first.stop.toNat + ·)
      else none
  | _ => some 0

/-- A candidate is new if it comes after the last match. -/
def isNew (last : Option Span) (candidate : Span) : Bool :=
  last.all fun span => span < candidate

namespace Lineup

variable {σ : Type} {size : Nat}

/-- The child with the least head, the first of several. -/
def leastChild (heads : Vector Span size) (filled : 0 < size) : Fin size :=
  (List.finRange size).foldl
    (fun least child => if heads[child] < heads[least] then child else least)
    ⟨0, filled⟩

/-- The last position at which a head stops. -/
def latestStop (heads : Vector Span size) : Position :=
  (heads.toList.map Span.stop).foldl max 0

/-- The number of positions that the heads cover, each head by itself. -/
def covered (heads : Vector Span size) : Nat :=
  sumOf Span.length heads.toList

variable [Cursor σ]

/-- Move one child on from the head it stands on. -/
def advanceBeyond (child : Fin size) (head : Span) :
    Attempt Failure (Lineup σ size)
      (Option { later : Span // head < later }) := do
  Cursor.demandBeyond head (← advance child)

/-- Move one child on to its first span that does not start before `floor`. -/
def catchUp (doc : DocId) (floor : Position) (child : Fin size)
    (head : Span) : Attempt Failure (Lineup σ size) (Finding Span) := do
  if head.doc = doc then
    if head.start < floor then
      match ← advanceBeyond child head with
      | none => pure .ended
      | some ⟨later, beyond⟩ =>
          have := Span.room_lt_room beyond
          catchUp doc floor child later
    else pure (.hit head)
  else pure .left
termination_by head.room

/--
Move each of the given children on until it starts where its predecessor stops
or later, the first of them until it starts at `floor` or later.
-/
def stretch (doc : DocId) (floor : Position) :
    List (Fin size) → Attempt Failure (Lineup σ size) (Finding Unit)
  | [] => pure (.hit ())
  | child :: rest => do
      match ← catchUp doc floor child (← Attempt.look).heads[child] with
      | .hit head => stretch doc head.stop rest
      | .left => pure .left
      | .ended => pure .ended

/--
The next match in order, starting with the span `first` of the first child or
a later one.
-/
def searchInOrder (slop : Nat) (last : Option Span) (doc : DocId)
    (filled : 0 < size) (first : Span) :
    Attempt Failure (Lineup σ size) (Finding (Match size)) := do
  match ← stretch doc first.stop (List.finRange size).tail with
  | .left => pure .left
  | .ended => pure .ended
  | .hit () =>
      let heads := (← Attempt.look).heads
      let candidate ← Attempt.ofOption (.breach .reversedSpan)
        (Span.ofBounds? doc first.start heads[lastPlace filled].stop)
      let slack ← Attempt.ofOption (.breach .overlappingHeads)
        (gaps? heads.toList)
      if slack ≤ slop ∧ isNew last candidate then
        pure (.hit ⟨⟨0, filled⟩, candidate⟩)
      else
        match ← advanceBeyond ⟨0, filled⟩ first with
        | none => pure .ended
        | some ⟨later, beyond⟩ =>
            have := Span.room_lt_room beyond
            if later.doc = doc then searchInOrder slop last doc filled later
            else pure .left
termination_by first.room

/--
The next match in any order, starting with the current heads.  The child with
the least head moves on, which slides the window forward.
-/
def searchAnyOrder (slop : Nat) (last : Option Span) (doc : DocId)
    (filled : 0 < size) :
    Attempt Failure (Lineup σ size) (Finding (Match size)) := fun lineup =>
  let pivot := leastChild lineup.heads filled
  let head : Span := lineup.heads[pivot]
  match Span.ofBounds? doc head.start (latestStop lineup.heads) with
  | none => (.error (.breach .reversedSpan), lineup)
  | some window =>
      if window.length ≤ slop + covered lineup.heads ∧ isNew last window then
        (.ok (.hit ⟨pivot, window⟩), lineup)
      else
        match (Cursor.nextBeyond head).run lineup.cursors[pivot] with
        | (.error failure, cursor) =>
            (.error failure, lineup.keep pivot cursor)
        | (.ok none, cursor) => (.ok .ended, lineup.keep pivot cursor)
        | (.ok (some ⟨later, beyond⟩), cursor) =>
            have := lineup.room_place_lt pivot cursor beyond
            if later.doc = doc then
              searchAnyOrder slop last doc filled
                (lineup.place pivot cursor later)
            else (.ok .left, lineup.place pivot cursor later)
termination_by lineup => lineup.room

section

variable {slop : Nat} {last : Option Span} {doc : DocId} {filled : 0 < size}
  {lineup : Lineup σ size} {pivot : Fin size} {window : Span}

/-- Heads without a window end the search in any order. -/
theorem searchAnyOrder_of_unbounded
    (isPivot : leastChild lineup.heads filled = pivot)
    (unbounded : Span.ofBounds? doc lineup.heads[pivot].start
      (latestStop lineup.heads) = none) :
    searchAnyOrder slop last doc filled lineup =
      (.error (.breach .reversedSpan), lineup) := by
  subst isPivot
  rw [searchAnyOrder]
  simp only [unbounded]

/-- A window that fits and is new is answered. -/
theorem searchAnyOrder_of_accepted
    (isPivot : leastChild lineup.heads filled = pivot)
    (bounded : Span.ofBounds? doc lineup.heads[pivot].start
      (latestStop lineup.heads) = some window)
    (accepted : window.length ≤ slop + covered lineup.heads ∧
      isNew last window) :
    searchAnyOrder slop last doc filled lineup =
      (.ok (.hit ⟨pivot, window⟩), lineup) := by
  subst isPivot
  rw [searchAnyOrder]
  simp only [bounded, accepted, and_self, ↓reduceIte]

/-- Past any other window the child with the least head moves on. -/
theorem searchAnyOrder_of_refused
    (isPivot : leastChild lineup.heads filled = pivot)
    (bounded : Span.ofBounds? doc lineup.heads[pivot].start
      (latestStop lineup.heads) = some window)
    (refused : ¬ (window.length ≤ slop + covered lineup.heads ∧
      isNew last window)) :
    searchAnyOrder slop last doc filled lineup =
      (do
        let later? ← Attempt.within (fun lineup => lineup.cursors[pivot])
          (fun lineup cursor => lineup.keep pivot cursor)
          (Cursor.nextBeyond lineup.heads[pivot])
        later?.elim (pure .ended) fun later => do
          Attempt.update fun lineup => { lineup with
            heads := lineup.heads.set pivot later.val pivot.isLt }
          if later.val.doc = doc then searchAnyOrder slop last doc filled
          else pure .left : Attempt Failure _ _) lineup := by
  subst isPivot
  change _ = Attempt.run _ lineup
  rw [searchAnyOrder]
  simp only [bounded, refused, ↓reduceIte, Attempt.run_bind,
    Attempt.run_within]
  cases (Cursor.nextBeyond lineup.heads[leastChild lineup.heads filled] :
      Attempt Failure σ _).run
    lineup.cursors[leastChild lineup.heads filled] with
  | mk outcome cursor =>
      cases outcome with
      | error failure => rfl
      | ok later? =>
          cases later? with
          | none => rfl
          | some later =>
              simp only [Option.elim_some, Attempt.run_bind,
                Attempt.run_update]
              split
              · rfl
              · rfl

end

/-- The next match in one document. -/
def searchIn (arrangement : Arrangement) (slop : Nat) (last : Option Span)
    (doc : DocId) : Attempt Failure (Lineup σ size) (Finding (Match size)) :=
  if filled : 0 < size then
    match arrangement with
    | .inOrder => do
        searchInOrder slop last doc filled (← Attempt.look).heads[0]
    | .anyOrder => searchAnyOrder slop last doc filled
  else pure .ended

/-- The next match in `doc`, or in a later document with all children. -/
def search (arrangement : Arrangement) (slop : Nat) (last : Option Span)
    (doc : DocId) : Attempt Failure (Lineup σ size) (Option (Match size)) := do
  match ← searchIn arrangement slop last doc with
  | .hit found => pure (some found)
  | .ended => pure none
  | .left =>
      match ← align with
      | none => pure none
      | some later =>
          if beyond : doc < later then
            have := DocId.room_lt_room beyond
            search arrangement slop last later
          else Attempt.fail (.breach .backwardMove)
termination_by doc.room

end Lineup

end PositionalSearch
