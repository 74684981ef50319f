import PositionalSearch.Leaf.Listed
import PositionalSearch.Leaf.Nothing
import PositionalSearch.Leaf.Probe
import PositionalSearch.Leaf.Term
import PositionalSearch.Metered
import PositionalSearch.Postings.Scripted
import PositionalSearch.Proximity
import PositionalSearch.Region
import PositionalSearch.Union
import PositionalSearch.Without

/-!
# Trees of cursors

A level is a leaf or a combination of cursors of one type.  Trees of a height
are built level by level: there are none of height zero, and one level over
the trees of a height makes the trees of the next height.  A leaf is a tree of
every height but zero, so the children of a node may differ in depth.
-/

namespace PositionalSearch

/-- A leaf, or a combination of cursors. -/
inductive Level (σ : Type)
  | nothing (leaf : Nothing)
  | listed (leaf : Listed)
  | term (leaf : Term StoredPostings)
  | scripted (name : String) (leaf : Term ScriptedPostings)
  | probe (leaf : Probe)
  | proximity {size : Nat} (node : Proximity σ size)
  | union {size : Nat} (node : Union σ size)
  | without (node : Without σ)
  | region (node : Region σ)
  | metered (node : Metered σ)

/-- What a level holds, as a cursor, and how the level is made of it. -/
structure Content (σ : Type) where
  {State : Type}
  [cursor : Cursor State]
  state : State
  level : State → Level σ

instance {σ : Type} (content : Content σ) : Cursor content.State :=
  content.cursor

namespace Level

variable {σ : Type} [Cursor σ]

/-- What a level holds. -/
def content : Level σ → Content σ
  | .nothing leaf => ⟨leaf, .nothing⟩
  | .listed leaf => ⟨leaf, .listed⟩
  | .term leaf => ⟨leaf, .term⟩
  | .scripted name leaf => ⟨leaf, .scripted name⟩
  | .probe leaf => ⟨leaf, .probe⟩
  | .proximity node => ⟨node, .proximity⟩
  | .union node => ⟨node, .union⟩
  | .without node => ⟨node, .without⟩
  | .region node => ⟨node, .region⟩
  | .metered node => ⟨node, .metered⟩

/-- Move what a level holds. -/
def moving (level : Level σ)
    (step : {τ : Type} → [Cursor τ] → Attempt Failure τ (Option Span)) :
    Except Failure (Option Span) × Level σ :=
  match step level.content.state with
  | (outcome, reached) => (outcome, level.content.level reached)

/-- A level moves as what it holds. -/
instance : Cursor (Level σ) where
  next level := level.moving Cursor.next
  seek target level := level.moving (Cursor.seek target)
  standing level := Cursor.standing level.content.state
  payloads level := Cursor.payloads level.content.state
  estimate level := Cursor.estimate level.content.state
  close level := level.content.level (Cursor.close level.content.state)

end Level

/-- Trees of at most the given height. -/
def Tree : Nat → Type
  | 0 => Empty
  | height + 1 => Level (Tree height)

namespace Tree

/-- Trees are cursors, level by level. -/
instance instCursor : (height : Nat) → Cursor (Tree height)
  | 0 => inferInstanceAs (Cursor Empty)
  | height + 1 =>
      letI := instCursor height
      inferInstanceAs (Cursor (Level (Tree height)))

end Tree

end PositionalSearch
