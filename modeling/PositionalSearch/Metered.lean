import PositionalSearch.Cursor

/-!
# Meters

A meter counts the moves made through it, refused and failed ones included,
and notes when its child has answered that there is nothing more.
-/

namespace PositionalSearch

/-- What a meter shows. -/
structure Reading where
  nexts : Nat
  seeks : Nat
  /-- Whether the end was reported. -/
  ended : Bool
deriving DecidableEq, Repr

/-- A child under a meter. -/
structure Metered (σ : Type) where
  name : String
  reading : Reading
  child : σ

namespace Metered

variable {σ : Type}

/-- A child under a fresh meter. -/
def ofCursor (name : String) (child : σ) : Metered σ :=
  ⟨name, ⟨0, 0, false⟩, child⟩

/-- Count a move after it was made. -/
def counting (count : Reading → Reading)
    (step : Attempt Failure σ (Option Span)) :
    Attempt Failure (Metered σ) (Option Span) := fun node =>
  match step node.child with
  | (outcome, child) =>
      let counted := count node.reading
      let reading :=
        match outcome with
        | .ok none => { counted with ended := true }
        | _ => counted
      (outcome, { node with reading := reading, child := child })

instance [Cursor σ] : Cursor (Metered σ) where
  next :=
    counting (fun reading => { reading with nexts := reading.nexts + 1 })
      Cursor.next
  seek target :=
    counting (fun reading => { reading with seeks := reading.seeks + 1 })
      (Cursor.seek target)
  standing node := Cursor.standing node.child
  payloads node := Cursor.payloads node.child
  estimate node := Cursor.estimate node.child
  close node := { node with child := Cursor.close node.child }

end Metered

end PositionalSearch
