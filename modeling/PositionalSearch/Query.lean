import PositionalSearch.Tree

/-!
# Queries

A query describes a tree before it is opened.  Opening a query puts every
cursor of the tree before its first span; it reads nothing.
-/

namespace PositionalSearch

/-- A description of a tree of cursors. -/
inductive Query
  | nothing
  | listed (listing : Listing)
  | term (occurrences : List Occurrence)
  | scripted (name : String) (script : Script) (occurrences : List Occurrence)
  | probe (name : String) (listing : Listing) (fault? : Option ProbeFault)
  | proximity (arrangement : Arrangement) (slop : Nat) (collects : Bool)
      (children : List Query)
  | union (children : List Query)
  | without (clash : Clash) (included excluded : Query)
  | region (low high : Position) (anchor : Anchor) (child : Query)
  | metered (name : String) (child : Query)

namespace Query

/-- The spans of a query that stop within the first positions of a document. -/
def within (stop : Position) (child : Query) : Query :=
  .region 0 stop .stop child

mutual

/-- The number of levels of a query. -/
def height : Query → Nat
  | .nothing => 1
  | .listed _ => 1
  | .term _ => 1
  | .scripted _ _ _ => 1
  | .probe _ _ _ => 1
  | .proximity _ _ _ children => greatestHeight children + 1
  | .union children => greatestHeight children + 1
  | .without _ included excluded => max included.height excluded.height + 1
  | .region _ _ _ child => child.height + 1
  | .metered _ child => child.height + 1

/-- The greatest number of levels of several queries. -/
def greatestHeight : List Query → Nat
  | [] => 0
  | first :: rest => max first.height (greatestHeight rest)

end

theorem height_le_greatestHeight {child : Query} :
    ∀ {children : List Query}, child ∈ children →
      child.height ≤ greatestHeight children
  | first :: rest, member => by
      rw [greatestHeight]
      rcases List.mem_cons.mp member with rfl | later
      · exact Nat.le_max_left _ _
      · exact Nat.le_trans (height_le_greatestHeight later)
          (Nat.le_max_right _ _)

theorem height_pos (query : Query) : 0 < query.height := by
  cases query <;> simp [height]

/-- Open a query as a tree with room for its levels. -/
def openAt : (levels : Nat) → (query : Query) → query.height ≤ levels →
    Tree levels
  | 0, query, fits => absurd query.height_pos (Nat.not_lt.mpr fits)
  | _ + 1, .nothing, _ => .nothing .fresh
  | _ + 1, .listed listing, _ => .listed (.ofListing listing)
  | _ + 1, .term occurrences, _ =>
      .term (.ofPostings (.ofOccurrences occurrences))
  | _ + 1, .scripted name script occurrences, _ =>
      .scripted name (.ofPostings (.ofOccurrences script occurrences))
  | _ + 1, .probe name listing fault?, _ =>
      .probe (.ofListing name listing fault?)
  | levels + 1, .proximity arrangement slop collects children, fits =>
      let opened := children.pmap (openAt levels) fun child member => by
        have := height_le_greatestHeight member
        simp only [height] at fits
        omega
      .proximity (.ofCursors arrangement slop collects ⟨opened.toArray, rfl⟩)
  | levels + 1, .union children, fits =>
      let opened := children.pmap (openAt levels) fun child member => by
        have := height_le_greatestHeight member
        simp only [height] at fits
        omega
      .union (.ofCursors ⟨opened.toArray, rfl⟩)
  | levels + 1, .without clash included excluded, fits =>
      .without (.ofCursors clash
        (openAt levels included (by simp only [height] at fits; omega))
        (openAt levels excluded (by simp only [height] at fits; omega)))
  | levels + 1, .region low high anchor child, fits =>
      .region (.ofCursor low high anchor
        (openAt levels child (by simp only [height] at fits; omega)))
  | levels + 1, .metered name child, fits =>
      .metered (.ofCursor name
        (openAt levels child (by simp only [height] at fits; omega)))

/-- Open a query. -/
def openTree (query : Query) : Tree query.height :=
  openAt query.height query (Nat.le_refl _)

end Query

end PositionalSearch
