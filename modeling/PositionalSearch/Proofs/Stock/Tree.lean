import Mathlib.Algebra.BigOperators.Fin
import PositionalSearch.Proofs.Closing
import PositionalSearch.Proofs.Order.Query
import PositionalSearch.Proofs.Stock.Filters
import PositionalSearch.Proofs.Stock.Leaves
import PositionalSearch.Proofs.Stock.Proximity
import PositionalSearch.Proofs.Stock.Union

/-!
# The stock of a tree

The stock of an opened query is at most the number of entries stored in it, and
so is that of each of its parts.  So whatever is done with a tree, no part of it
is called more often than the root, but for as many calls as there are entries
at each level on the way.
-/

namespace PositionalSearch

open Cursor (Affords Orderly Rationed)

/-! ## Changes that are no moves -/

namespace Cursor

variable {σ : Type} {stock : σ → Nat} {called : Nat → σ → Prop}
  {budget more : Nat} {change : σ → σ} {cursor : σ}

/-- A change counts as some more calls and adds nothing to the stock. -/
def Frugal (stock : σ → Nat) (called : Nat → σ → Prop) (more : Nat)
    (change : σ → σ) : Prop :=
  ∀ ⦃calls : Nat⦄ ⦃cursor : σ⦄, called calls cursor →
    called (calls + more) (change cursor) ∧ stock (change cursor) ≤ stock cursor

theorem Frugal.affords (frugal : Frugal stock called more change)
    (affords : Affords stock called budget cursor) :
    Affords stock called (budget + more) (change cursor) := by
  obtain ⟨calls, within, isCalled⟩ := affords
  obtain ⟨calledOn, lowers⟩ := frugal isCalled
  exact ⟨calls + more, by omega, calledOn⟩

theorem Frugal.stock_le (frugal : Frugal stock called more change)
    (affords : Affords stock called budget cursor) :
    stock (change cursor) ≤ stock cursor :=
  let ⟨_, _, isCalled⟩ := affords
  (frugal isCalled).2

theorem Frugal.each {size : Nat} {cursors : Vector σ size}
    (frugal : Frugal stock called more change)
    (each : Each (fun _ => Affords stock called budget) cursors) :
    Each (fun _ => Affords stock called (budget + more))
      (cursors.map change) := by
  intro child
  simpa using frugal.affords (each child)

theorem Frugal.sum_le {size : Nat} {cursors : Vector σ size}
    (frugal : Frugal stock called more change)
    (each : Each (fun _ => Affords stock called budget) cursors) :
    ∑ child : Fin size, stock (cursors.map change)[child] ≤
      ∑ child : Fin size, stock cursors[child] := by
  refine Finset.sum_le_sum fun child _ => ?_
  simpa using frugal.stock_le (each child)

end Cursor

open Cursor (Frugal)

variable {σ ι : Type} {disturb : ι → σ → σ} {stock : σ → Nat}
  {called : Nat → σ → Prop} {bound more budget : Nat}

/-- No probe and no meter has counted more calls than so many. -/
def Tally.AtMost (most : Nat) (tally : Tally) : Prop :=
  tally.All (fun probe => probe.nexts + probe.seeks + probe.closes ≤ most)
    (fun meter => meter.reading.nexts + meter.reading.seeks ≤ most)
    fun _ => True

/-! ## Levels -/

namespace Level

/-- The stock of a level, given that of the cursors below it. -/
def supply (below : σ → Nat) : Level σ → Nat
  | .nothing _ => 0
  | .listed leaf => leaf.stock
  | .term leaf => leaf.stock StoredPostings.left
  | .scripted _ leaf => leaf.stock ScriptedPostings.left
  | .probe leaf => leaf.stock
  | .proximity node => node.supply below
  | .union node => node.supply below
  | .without node => below node.included
  | .region node => below node.child
  | .metered node => below node.child

variable [Cursor σ]

/-- What so many calls of a level come to below it, given a bound on stocks. -/
def Called (disturb : ι → σ → σ) (below : σ → Nat) (called : Nat → σ → Prop)
    (bound calls : Nat) : Level σ → Prop
  | .nothing _ | .listed _ | .term _ | .scripted _ _ => True
  | .probe leaf => leaf.Called calls
  | .proximity node => node.Called disturb below called (bound + calls)
  | .union node => node.Called below called (bound + calls)
  | .without node => node.Called below called bound calls
  | .region node => node.Called below called bound calls
  | .metered node => node.Called called calls

theorem rationed (below : Rationed stock called) :
    Rationed (supply stock) (Called disturb stock called bound) := by
  intro calls level isCalled move
  cases level with
  | nothing leaf =>
      exact carries_nothing.meets_go_iff move |>.mpr
        (@Nothing.rationed calls leaf trivial move)
  | listed leaf =>
      exact carries_listed.meets_go_iff move |>.mpr
        (@Listed.rationed calls leaf trivial move)
  | term leaf =>
      exact carries_term.meets_go_iff move |>.mpr
        (@Term.rationed _ _ _ StoredPostings.draws calls leaf trivial move)
  | scripted name leaf =>
      exact (carries_scripted name).meets_go_iff move |>.mpr
        (@Term.rationed _ _ _ ScriptedPostings.draws calls leaf trivial move)
  | probe leaf =>
      exact carries_probe.meets_go_iff move |>.mpr
        (Probe.rationed isCalled move)
  | proximity node =>
      exact carries_proximity.meets_go_iff move |>.mpr
        (Proximity.rationed below bound isCalled move)
  | union node =>
      exact carries_union.meets_go_iff move |>.mpr
        (Union.rationed below bound isCalled move)
  | without node =>
      exact carries_without.meets_go_iff move |>.mpr
        (Without.rationed below isCalled move)
  | region node =>
      exact carries_region.meets_go_iff move |>.mpr
        (Region.rationed below isCalled move)
  | metered node =>
      exact carries_metered.meets_go_iff move |>.mpr
        (Metered.rationed below isCalled move)

/-- Calls may be counted that were not made. -/
theorem frugal_id (below : Frugal stock called 1 id) :
    Frugal (supply stock) (Called disturb stock called bound) 1 id := by
  intro calls level isCalled
  refine ⟨?_, Nat.le_refl _⟩
  cases level with
  | nothing leaf => trivial
  | listed leaf => trivial
  | term leaf => trivial
  | scripted name leaf => trivial
  | probe leaf => exact Nat.le_succ_of_le isCalled
  | proximity node =>
      exact ⟨isCalled.kept, fun child =>
        below.affords (isCalled.children child)⟩
  | union node =>
      exact ⟨isCalled.seats,
        fun child => below.affords (isCalled.children child),
        isCalled.entered⟩
  | without node =>
      exact ⟨below.affords isCalled.included, below.affords isCalled.excluded⟩
  | region node => exact Frugal.affords below isCalled
  | metered node =>
      exact ⟨Nat.le_succ_of_le isCalled.shown, (below isCalled.child).1⟩

/-- To close a level is one more call. -/
theorem frugal_close (waits : Frugal stock called 1 id)
    (below : Frugal stock called 1 Cursor.close) :
    Frugal (supply stock) (Called disturb stock called bound) 1
      Cursor.close := by
  intro calls level isCalled
  have unlessClosed : ∀ {τ : Type} (standing : Standing) {node closed : τ}
      (wrap : τ → Level σ), wrap node = level →
        (standing ≠ .closed →
          (wrap closed).Called disturb stock called bound (calls + 1) ∧
            (wrap closed).supply stock ≤ level.supply stock) →
        (wrap (if standing = .closed then node else closed)).Called disturb
            stock called bound (calls + 1) ∧
          (wrap (if standing = .closed then node else closed)).supply stock ≤
            level.supply stock := by
    intro τ standing node closed wrap isLevel closes
    split
    · rw [isLevel]
      exact frugal_id waits isCalled
    · rename_i isOpen
      exact closes isOpen
  cases level with
  | nothing leaf => exact ⟨trivial, Nat.le_refl _⟩
  | listed leaf => exact ⟨trivial, Nat.le_refl _⟩
  | probe leaf =>
      refine ⟨?_, Nat.le_refl _⟩
      have isCalled : leaf.nexts + leaf.seeks + leaf.closes ≤ calls := isCalled
      exact Nat.succ_le_succ isCalled
  | term leaf => exact ⟨trivial, Term.stock_close_le StoredPostings.draws leaf⟩
  | scripted name leaf =>
      exact ⟨trivial, Term.stock_close_le ScriptedPostings.draws leaf⟩
  | proximity node =>
      obtain ⟨⟨arrangement, slop, last?, kept⟩, children⟩ := isCalled
      refine unlessClosed _ .proximity rfl fun _ => ⟨⟨⟨arrangement, slop, last?,
        trivial, trivial, kept.arrangement, kept.slop⟩, below.each children⟩,
        ?_⟩
      exact Nat.le_trans (below.sum_le children)
        (Finset.sum_le_sum fun child _ => Nat.le_add_right _ _)
  | union node =>
      refine unlessClosed _ .union rfl fun _ => ⟨⟨⟨nofun, .nil, nofun,
        fun _ _ => trivial⟩, below.each isCalled.children, nofun⟩, ?_⟩
      refine Nat.add_le_add (below.sum_le isCalled.children) ?_
      exact Nat.le_trans (Union.pending_le _) (Nat.zero_le _)
  | without node =>
      exact unlessClosed _ .without rfl fun _ =>
        ⟨⟨below.affords isCalled.included, below.affords isCalled.excluded⟩,
          below.stock_le isCalled.included⟩
  | region node =>
      have affords : Affords stock called (bound + calls) node.child := isCalled
      exact unlessClosed _ .region rfl fun _ =>
        ⟨below.affords affords, below.stock_le affords⟩
  | metered node =>
      obtain ⟨calledOn, lowers⟩ := below isCalled.child
      exact ⟨⟨Nat.le_succ_of_le isCalled.shown, calledOn⟩, lowers⟩

/-- To arm probes calls nothing. -/
theorem frugal_arm {name : String} {fault? : Option ProbeFault}
    {arms : σ → σ} (below : Frugal stock called 0 arms)
    (disturbs : ∃ event, disturb event = arms) :
    Frugal (supply stock) (Called disturb stock called bound) 0
      (Level.arm name fault? arms) := by
  intro calls level isCalled
  cases level with
  | nothing leaf => exact ⟨trivial, Nat.le_refl _⟩
  | listed leaf => exact ⟨trivial, Nat.le_refl _⟩
  | term leaf => exact ⟨trivial, Nat.le_refl _⟩
  | scripted name leaf => exact ⟨trivial, Nat.le_refl _⟩
  | probe leaf =>
      change (leaf.arm name fault?).Called calls ∧
        (leaf.arm name fault?).stock ≤ leaf.stock
      unfold Probe.arm
      split
      · exact ⟨isCalled, Nat.le_refl _⟩
      · exact ⟨isCalled, Nat.le_refl _⟩
  | proximity node =>
      obtain ⟨⟨arrangement, slop, last?, kept⟩, children⟩ := isCalled
      obtain ⟨event, rfl⟩ := disturbs
      refine ⟨⟨⟨arrangement, slop, last?, ((Proximity.disciplined
        Orderly.disciplined).disturbed kept event).1⟩, ?_⟩, ?_⟩
      · rw [Alignment.cursors_mapCursors]
        exact below.each children
      · change (node.disturbed disturb event).supply stock ≤ node.supply stock
        refine Finset.sum_le_sum fun child _ => ?_
        have lowers := below.stock_le (children child)
        have heads : (node.alignment.mapCursors (disturb event)).head? child =
            node.alignment.head? child := by
          cases node.alignment <;> rfl
        simp only [Alignment.share, Proximity.disturbed, heads,
          Alignment.cursors_mapCursors]
        simpa using lowers
  | union node =>
      refine ⟨⟨⟨fun _ _ => trivial, isCalled.seats.apart, isCalled.seats.within,
        fun _ _ => trivial⟩, below.each isCalled.children, isCalled.entered⟩,
        ?_⟩
      exact Nat.add_le_add (below.sum_le isCalled.children) (Nat.le_refl _)
  | without node =>
      exact ⟨⟨below.affords isCalled.included, below.affords isCalled.excluded⟩,
        below.stock_le isCalled.included⟩
  | region node =>
      have affords : Affords stock called (bound + calls) node.child := isCalled
      exact ⟨below.affords affords, below.stock_le affords⟩
  | metered node =>
      obtain ⟨calledOn, lowers⟩ := below isCalled.child
      exact ⟨⟨isCalled.shown, calledOn⟩, lowers⟩

/-- What is counted at a level, and below it. -/
theorem tally_atMost {counts : σ → Tally} {calls most : Nat}
    (below : ∀ ⦃callsOn : Nat⦄ ⦃cursor : σ⦄, callsOn ≤ bound + calls →
      called callsOn cursor → (counts cursor).AtMost most)
    (calls_le : calls ≤ most) {level : Level σ}
    (isCalled : level.Called disturb stock called bound calls) :
    (level.tally counts).AtMost most := by
  have child : ∀ ⦃cursor : σ⦄, Affords stock called (bound + calls) cursor →
      (counts cursor).AtMost most := fun _ ⟨_, within, isCalled⟩ =>
    below (Nat.le_trans (Nat.le_add_right _ _) within) isCalled
  have each : ∀ {size : Nat} {cursors : Vector σ size},
      Each (fun _ => Affords stock called (bound + calls)) cursors →
        ∀ tally ∈ cursors.toList.map counts, tally.AtMost most := by
    intro size cursors affords tally member
    obtain ⟨cursor, isCursor, rfl⟩ := List.mem_map.mp member
    exact child (affords.forall_mem cursor isCursor)
  cases level with
  | nothing leaf => exact Tally.all_empty
  | listed leaf => exact Tally.all_empty
  | term leaf => exact Tally.all_empty
  | scripted name leaf => exact ⟨nofun, nofun, fun _ _ => trivial⟩
  | probe leaf =>
      refine ⟨fun probe member => ?_, nofun, nofun⟩
      rw [List.mem_singleton.mp member]
      exact Nat.le_trans isCalled calls_le
  | proximity node => exact Tally.all_concat (each isCalled.children)
  | union node => exact Tally.all_concat (each isCalled.children)
  | without node =>
      exact (child isCalled.included).append (child isCalled.excluded)
  | region node => exact child isCalled
  | metered node =>
      refine Tally.All.append ⟨nofun, fun meter member => ?_, nofun⟩
        (below (Nat.le_add_left _ _) isCalled.child)
      rw [List.mem_singleton.mp member]
      exact Nat.le_trans isCalled.shown calls_le

end Level

/-! ## Trees -/

namespace Tree

/-- What the tree may still answer. -/
def supply : {height : Nat} → Tree height → Nat
  | 0, tree => nomatch tree
  | _ + 1, level => Level.supply supply level

/-- What so many calls of the root come to, given a bound on stocks. -/
def Called (bound : Nat) : {height : Nat} → Nat → Tree height → Prop
  | 0, _, tree => nomatch tree
  | _ + 1, calls, level =>
      Level.Called armed supply (Called bound) bound calls level

theorem rationed : {height : Nat} →
    Rationed (supply : Tree height → Nat) (Called bound)
  | 0 => fun _ tree => nomatch tree
  | _ + 1 => Level.rationed rationed

theorem frugal_id : {height : Nat} →
    Frugal (supply : Tree height → Nat) (Called bound) 1 id
  | 0 => fun _ tree => nomatch tree
  | _ + 1 => Level.frugal_id frugal_id

theorem frugal_close : {height : Nat} →
    Frugal (supply : Tree height → Nat) (Called bound) 1 Cursor.close
  | 0 => fun _ tree => nomatch tree
  | _ + 1 => Level.frugal_close frugal_id frugal_close

theorem frugal_arm (name : String) (fault? : Option ProbeFault) :
    {height : Nat} →
      Frugal (supply : Tree height → Nat) (Called bound) 0 (arm name fault?)
  | 0 => fun _ tree => nomatch tree
  | _ + 1 => Level.frugal_arm (frugal_arm name fault?) ⟨(name, fault?), rfl⟩

/-- With each level below the root as many calls are added as are stored. -/
theorem Called.tally_atMost {most : Nat} : {height calls : Nat} →
    {tree : Tree height} → tree.Called bound calls →
      calls + height * bound ≤ most + bound → tree.tally.AtMost most
  | 0, _, tree, _, _ => nomatch tree
  | height + 1, calls, _, isCalled, within => by
      rw [Nat.succ_mul] at within
      refine Level.tally_atMost (fun callsOn cursor more isCalledOn => ?_)
        (by omega) isCalled
      exact Called.tally_atMost isCalledOn (by omega)

end Tree

/-! ## Opened queries -/

namespace Query

mutual

/-- The number of entries and occurrences stored in a query. -/
def entries : Query → Nat
  | .nothing => 0
  | .listed listing => listing.size
  | .term occurrences => occurrences.length
  | .scripted _ _ occurrences => occurrences.length
  | .probe _ listing _ => listing.size
  | .proximity _ _ _ children => totalEntries children
  | .union children => totalEntries children
  | .without _ included excluded => included.entries + excluded.entries
  | .region _ _ _ child => child.entries
  | .metered _ child => child.entries

/-- The number of entries stored in several queries. -/
def totalEntries : List Query → Nat
  | [] => 0
  | first :: rest => first.entries + totalEntries rest

end

theorem totalEntries_eq_sum (children : List Query) :
    totalEntries children = (children.map entries).sum := by
  induction children with
  | nil => rfl
  | cons first rest ih =>
      rw [totalEntries, ih, List.map_cons, List.sum_cons]

theorem entries_le_totalEntries {child : Query} {children : List Query}
    (member : child ∈ children) : child.entries ≤ totalEntries children := by
  rw [totalEntries_eq_sum]
  exact List.le_sum_of_mem (List.mem_map_of_mem member)

/-- Opened children have no more in stock than is stored in all of them. -/
theorem sum_supply_le {levels : Nat} {children : List Query}
    (fits : ∀ child ∈ children, child.height ≤ levels)
    (each : ∀ child (member : child ∈ children),
      (openAt levels child (fits child member)).supply ≤ child.entries) :
    ∑ place : Fin (children.pmap (openAt levels) fits).toArray.size,
      Tree.supply ((⟨(children.pmap (openAt levels) fits).toArray, rfl⟩ :
        Vector (Tree levels) _)[place]) ≤ totalEntries children := by
  have summed : ((children.pmap (openAt levels) fits).map Tree.supply).sum ≤
      totalEntries children := by
    induction children with
    | nil => exact Nat.le_refl _
    | cons first rest ih =>
        rw [List.pmap_cons, List.map_cons, List.sum_cons]
        exact Nat.add_le_add (each first List.mem_cons_self)
          (ih (fun child member => fits child (List.mem_cons_of_mem _ member))
            fun child member => each child (List.mem_cons_of_mem _ member))
  exact Nat.le_trans (Nat.le_of_eq (Fin.sum_univ_fun_getElem _ _)) summed

theorem called_openAt (levels : Nat) (query : Query)
    (fits : query.height ≤ levels) (within : query.entries ≤ bound) :
    (openAt levels query fits).Called bound 0 ∧
      (openAt levels query fits).supply ≤ query.entries := by
  induction levels generalizing query with
  | zero => exact absurd query.height_pos (Nat.not_lt.mpr fits)
  | succ levels ih =>
      have affords : ∀ (child : Query) (fits : child.height ≤ levels),
          child.entries ≤ query.entries →
            Affords Tree.supply (Tree.Called bound) (bound + 0)
              (openAt levels child fits) := by
        intro child fits inside
        have inside := Nat.le_trans inside within
        obtain ⟨isCalled, supply_le⟩ := ih child fits inside
        exact ⟨0, by omega, isCalled⟩
      cases query with
      | nothing => exact ⟨trivial, Nat.le_refl _⟩
      | listed listing => exact ⟨trivial, Nat.sub_le _ _⟩
      | term occurrences =>
          exact ⟨trivial, StoredPostings.left_ofOccurrences_le occurrences⟩
      | scripted name script occurrences =>
          exact ⟨trivial, StoredPostings.left_ofOccurrences_le occurrences⟩
      | probe name listing fault? => exact ⟨Nat.le_refl _, Nat.sub_le _ _⟩
      | proximity arrangement slop collects children =>
          refine ⟨⟨⟨arrangement, slop, none, Proximity.keeps_ofCursors
            fun place => ?_⟩, fun place => ?_⟩, ?_⟩
          · rw [getElem_pmap_openAt]
            exact orderly_openAt _ _ _
          · exact getElem_pmap_openAt _ place ▸
              affords _ _ (entries_le_totalEntries (List.get_mem _ _))
          · exact Nat.le_trans (Nat.le_of_eq (Proximity.supply_ofCursors _ _ _ _))
              (sum_supply_le _ fun child member => (ih child _ (Nat.le_trans
                (entries_le_totalEntries member) within)).2)
      | union children =>
          refine ⟨⟨⟨nofun, .nil, nofun, fun _ _ => trivial⟩, fun place => ?_,
            nofun⟩, ?_⟩
          · exact getElem_pmap_openAt _ place ▸
              affords _ _ (entries_le_totalEntries (List.get_mem _ _))
          · exact Nat.add_le_add (sum_supply_le _ fun child member =>
              (ih child _ (Nat.le_trans (entries_le_totalEntries member)
                within)).2) (Union.pending_le _)
      | without clash included excluded =>
          exact ⟨⟨affords included _ (Nat.le_add_right _ _),
            affords excluded _ (Nat.le_add_left _ _)⟩, Nat.le_trans
              (ih included _ (Nat.le_trans (Nat.le_add_right _ _) within)).2
              (Nat.le_add_right _ _)⟩
      | region low high anchor child =>
          exact ⟨affords child _ (Nat.le_refl _), (ih child _ within).2⟩
      | metered name child =>
          obtain ⟨isCalled, supply_le⟩ := ih child _ within
          exact ⟨⟨Nat.le_refl _, isCalled⟩, supply_le⟩

end Query

end PositionalSearch
