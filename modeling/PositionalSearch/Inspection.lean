import PositionalSearch.Tree

/-!
# Looking into trees

What a tree shows beside its spans: the calls that its instrumented leaves and
its meters have counted, in the order of the query, and a description of its
root.  Probes can be told to fail, or not to fail any more, by their names.
-/

namespace PositionalSearch

/-- What a probe has counted. -/
structure ProbeTally where
  name : String
  nexts : Nat
  seeks : Nat
  closes : Nat
deriving DecidableEq, Repr

/-- What a meter shows. -/
structure MeterTally where
  name : String
  reading : Reading
deriving DecidableEq, Repr

/-- What scripted postings have counted. -/
structure PostingsTally where
  name : String
  calls : CallCounts
deriving DecidableEq

/-- All counts of a tree. -/
structure Tally where
  probes : List ProbeTally
  meters : List MeterTally
  postings : List PostingsTally
deriving DecidableEq

namespace Tally

/-- No counts. -/
def empty : Tally := ⟨[], [], []⟩

instance : Append Tally where
  append left right :=
    ⟨left.probes ++ right.probes, left.meters ++ right.meters,
      left.postings ++ right.postings⟩

/-- The counts of several trees, one after the other. -/
def concat (tallies : List Tally) : Tally := tallies.foldr (· ++ ·) empty

end Tally

/-- The root of a tree, described. -/
inductive Description
  | nothing
  | listed (offset : Nat)
  | term (documents frequency : Nat) (payload? : Option Payload)
  | scripted (documents : Nat)
  | probe
  | proximity (arrangement : Arrangement) (slop : Nat)
  | union
  | without (clash : Clash)
  | region (low high : Position) (anchor : Anchor)
  | metered (reading : Reading) (child : Description)

namespace Probe

/-- What the probe has counted. -/
def tally (probe : Probe) : ProbeTally :=
  ⟨probe.name, probe.nexts, probe.seeks, probe.closes⟩

/-- Set or clear the fault of a probe with the given name. -/
def arm (name : String) (fault? : Option ProbeFault) (probe : Probe) : Probe :=
  if probe.name = name then { probe with fault? := fault? } else probe

end Probe

namespace Metered

/-- What the meter shows. -/
def tally {σ : Type} (node : Metered σ) : MeterTally :=
  ⟨node.name, node.reading⟩

end Metered

namespace Lineup

/-- Change every child in place. -/
def mapCursors {σ : Type} {size : Nat} (change : σ → σ)
    (lineup : Lineup σ size) : Lineup σ size :=
  { lineup with cursors := lineup.cursors.map change }

end Lineup

namespace Alignment

/-- Change every child in place. -/
def mapCursors {σ : Type} {size : Nat} (change : σ → σ) :
    Alignment σ size → Alignment σ size
  | .starting gathering =>
      .starting { gathering with cursors := gathering.cursors.map change }
  | .running lineup => .running (lineup.mapCursors change)
  | .ended cursors => .ended (cursors.map change)

theorem cursors_mapCursors {σ : Type} {size : Nat} (change : σ → σ)
    (alignment : Alignment σ size) :
    (alignment.mapCursors change).cursors = alignment.cursors.map change := by
  cases alignment <;> rfl

end Alignment

namespace Level

variable {σ : Type}

/-- The counts of a level, given those of the cursors below it. -/
def tally (below : σ → Tally) : Level σ → Tally
  | .probe leaf => ⟨[leaf.tally], [], []⟩
  | .scripted name leaf => ⟨[], [], [⟨name, leaf.postings.calls⟩]⟩
  | .proximity node => .concat (node.children.map below)
  | .union node => .concat (node.children.toList.map below)
  | .without node => below node.included ++ below node.excluded
  | .region node => below node.child
  | .metered node => ⟨[], [node.tally], []⟩ ++ below node.child
  | .nothing _ | .listed _ | .term _ => .empty

/-- Arm the probes of a level, given how to arm those below it. -/
def arm (name : String) (fault? : Option ProbeFault) (below : σ → σ) :
    Level σ → Level σ
  | .probe leaf => .probe (leaf.arm name fault?)
  | .proximity node =>
      .proximity { node with alignment := node.alignment.mapCursors below }
  | .union node => .union { node with children := node.children.map below }
  | .without node =>
      .without { node with
        included := below node.included
        excluded := below node.excluded }
  | .region node => .region { node with child := below node.child }
  | .metered node => .metered { node with child := below node.child }
  | .nothing leaf => .nothing leaf
  | .listed leaf => .listed leaf
  | .term leaf => .term leaf
  | .scripted name leaf => .scripted name leaf

/-- The description of a level, given those of the cursors below it. -/
def describe (below : σ → Description) : Level σ → Description
  | .nothing _ => .nothing
  | .listed leaf => .listed leaf.offset
  | .term leaf =>
      .term leaf.postings.documentCount leaf.postings.frequency
        leaf.postings.payload?
  | .scripted _ leaf => .scripted leaf.postings.stored.documentCount
  | .probe _ => .probe
  | .proximity node => .proximity node.arrangement node.slop
  | .union _ => .union
  | .without node => .without node.clash
  | .region node => .region node.low node.high node.anchor
  | .metered node => .metered node.reading (below node.child)

end Level

namespace Tree

/-- All counts of a tree, in the order of the query. -/
def tally : {height : Nat} → Tree height → Tally
  | 0, tree => nomatch tree
  | _ + 1, tree => Level.tally tally tree

/-- Set or clear the fault of the probes with the given name. -/
def arm (name : String) (fault? : Option ProbeFault) :
    {height : Nat} → Tree height → Tree height
  | 0, tree => tree
  | _ + 1, tree => Level.arm name fault? (arm name fault?) tree

/-- The description of the root of a tree. -/
def describe : {height : Nat} → Tree height → Description
  | 0, tree => nomatch tree
  | _ + 1, tree => Level.describe describe tree

end Tree

end PositionalSearch
