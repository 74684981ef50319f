import PositionalSearch.Proofs.Closed
import PositionalSearch.Proofs.Exact.Filters
import PositionalSearch.Proofs.Exact.Leaves
import PositionalSearch.Proofs.Exact.Proximity
import PositionalSearch.Proofs.Exact.Union
import PositionalSearch.Proofs.Lasting.Query
import PositionalSearch.Proofs.Order.Query
import PositionalSearch.Proofs.Sources

/-!
# Trees are exact

A tree that was opened and moved without a failure is exact throughout, and
shows payloads wherever it stands on a span.
-/

namespace PositionalSearch

open Cursor (Arrives Guided Happening Stands Reliable)

/-! ## Cursors that are changed in place -/

section

variable {σ : Type} [Cursor σ] {fit : σ → Prop} {change : σ → σ} {size : Nat}

/-- A change that leaves cursors fit, and where they stand. -/
structure Cursor.Spares (fit : σ → Prop) (change : σ → σ) : Prop where
  fit : ∀ cursor : σ, fit cursor → fit (change cursor)
  standing : ∀ cursor : σ,
    Cursor.standing (change cursor) = Cursor.standing cursor

variable (spares : Cursor.Spares fit change)
include spares

theorem Cursor.Stands.changed {seen? : Option Span} {cursor : σ}
    (stands : Stands fit seen? cursor) : Stands fit seen? (change cursor) :=
  ⟨spares.fit _ stands.fit, (spares.standing cursor).trans stands.there⟩

theorem Region.Exact.changed {node : Region σ} (exact : node.Exact fit) :
    Region.Exact fit { node with child := change node.child } :=
  ⟨spares.fit _ exact.child, fun goes => (exact.stands goes).changed spares⟩

theorem Without.Exact.changed {node : Without σ} (exact : node.Exact fit) :
    Without.Exact fit { node with
      included := change node.included
      excluded := change node.excluded } where
  included := spares.fit _ exact.included
  excluded := spares.fit _ exact.excluded
  placed goes :=
    have placed := exact.placed goes
    ⟨placed.included.changed spares, spares.fit _ placed.excluded,
      fun notLifted => (placed.behind notLifted).changed spares⟩

theorem Union.Exact.changed {node : Union σ size} (exact : node.Exact fit) :
    Union.Exact fit { node with children := node.children.map change } where
  each := exact.each.map spares.fit
  seats goes := by
    have seats := exact.seats goes
    refine ⟨fun head member => ?_, seats.apart, seats.within,
      fun child notEntered => ?_⟩
    · simpa using (seats.placed head member).changed spares
    · simpa using (seats.rest child notEntered).changed spares

theorem Alignment.Exact.changed {alignment : Alignment σ size}
    (exact : alignment.Exact fit) :
    (alignment.mapCursors change).Exact fit := by
  cases alignment with
  | starting gathering =>
      have kept : gathering.Kept (Stands fit) := exact
      exact ⟨fun child => by simpa using (kept.placed child).changed spares,
        kept.all⟩
  | running lineup =>
      have kept : lineup.Kept (Stands fit) := exact
      exact fun child => by
        simpa [Lineup.mapCursors] using (kept child).changed spares
  | ended cursors => exact Each.map exact spares.fit

end

/-! ## Levels -/

namespace Level

variable {σ : Type} [Cursor σ] {fit : σ → Prop} {level : Level σ}

/--
Nodes are exact and leaves are stocked.  Of probes something else is asked,
and of what is metered, as a meter answers for it.
-/
def Exact (ofProbe : Probe → Prop) (ofMetered fit : σ → Prop) :
    Level σ → Prop
  | .nothing _ => True
  | .listed leaf => leaf.Stocked
  | .term _ => True
  | .scripted _ _ => True
  | .probe leaf => ofProbe leaf
  | .proximity node => node.Exact fit
  | .union node => node.Exact fit
  | .without node => node.Exact fit
  | .region node => node.Exact fit
  | .metered node => ofMetered node.child

/-- Over guided cursors a level arrives if probes and what is metered do. -/
theorem arrives {ofProbe probeAfter : Probe → Prop}
    {ofMetered meteredAfter : σ → Prop} (guided : Guided fit)
    (exact : level.Exact ofProbe ofMetered fit) (move : Move)
    (probes : ∀ leaf, level = .probe leaf →
      Arrives probeAfter (Cursor.go move) leaf)
    (meters : ∀ node, level = .metered node →
      Arrives meteredAfter (Cursor.go move) node.child) :
    Arrives (Exact probeAfter meteredAfter fit) (Cursor.go move) level := by
  cases level with
  | nothing leaf =>
      exact carries_nothing.arrives (Nothing.candid.reliable exact move)
  | listed leaf => exact carries_listed.arrives (Listed.reliable exact move)
  | term leaf => exact carries_term.arrives (Term.candid.reliable exact move)
  | scripted name leaf =>
      exact (carries_scripted name).arrives (Term.candid.reliable exact move)
  | probe leaf => exact carries_probe.arrives (probes leaf rfl)
  | proximity node =>
      exact carries_proximity.arrives (Proximity.reliable guided exact move)
  | union node =>
      exact carries_union.arrives (Union.reliable guided exact move)
  | without node =>
      exact carries_without.arrives (Without.reliable guided exact move)
  | region node =>
      exact carries_region.arrives (Region.reliable guided exact move)
  | metered node =>
      exact carries_metered.arrives (Metered.arrives (meters node rfl))

theorem reliable (below : Reliable fit) :
    Reliable (Exact Probe.Stocked fit fit : Level σ → Prop) := by
  intro level exact move
  apply arrives below.guided exact move
  · rintro leaf rfl
    exact Probe.reliable exact move
  · rintro node rfl
    exact below exact move

/-- On a span a level has payloads if the cursors below have them on theirs. -/
theorem exists_payloads
    (below : ∀ {cursor : σ} {span : Span}, fit cursor →
      Cursor.standing cursor = .on span →
        ∃ stored, Cursor.payloads cursor = .ok stored)
    (exact : level.Exact Probe.Stocked fit fit) {span : Span}
    (isOn : Cursor.standing level = .on span) :
    ∃ stored, Cursor.payloads level = .ok stored := by
  cases level with
  | nothing leaf => exact ⟨_, Standing.requireSpan_bind_on isOn _⟩
  | listed leaf => exact Listed.Stocked.exists_payloads exact isOn
  | term leaf => exact ⟨_, Standing.requireSpan_bind_on isOn _⟩
  | scripted name leaf => exact ⟨_, Standing.requireSpan_bind_on isOn _⟩
  | probe leaf => exact Probe.Stocked.exists_payloads exact isOn
  | proximity node => exact ⟨_, Standing.requireSpan_bind_on isOn _⟩
  | union node =>
      have isOn : node.standing = .on span := isOn
      change ∃ stored, Cursor.payloads node = .ok stored
      cases least : node.queue.least? with
      | none =>
          rw [Union.payloads_of_none least, Standing.requireSpan_bind_on isOn]
          exact ⟨[], rfl⟩
      | some head =>
          have stands := Union.Exact.stands_least exact isOn least
          rw [Union.payloads_of_some least, Standing.requireSpan_bind_on isOn]
          exact below stands.fit stands.there
  | without node =>
      obtain ⟨stored, paid⟩ := below (Without.Exact.included exact)
        (Without.Exact.standing_included exact isOn)
      exact ⟨stored, (Standing.requireSpan_bind_on isOn _).trans paid⟩
  | region node =>
      obtain ⟨stored, paid⟩ := below (Region.Exact.child exact)
        (Region.Exact.standing_child exact isOn)
      exact ⟨stored, (Standing.requireSpan_bind_on isOn _).trans paid⟩
  | metered node => exact below exact isOn

/-- To arm probes moves nothing. -/
theorem Exact.arm {arms : σ → σ} (spares : Cursor.Spares fit arms)
    {name : String} {fault? : Option ProbeFault}
    (exact : level.Exact Probe.Stocked fit fit) :
    (level.arm name fault? arms).Exact Probe.Stocked fit fit := by
  cases level with
  | nothing leaf => trivial
  | listed leaf => exact exact
  | term leaf => trivial
  | scripted name leaf => trivial
  | probe leaf =>
      by_cases named : leaf.name = name
      · have armed : leaf.arm name fault? = { leaf with fault? := fault? } :=
          if_pos named
        rw [Level.arm, armed]
        exact exact
      · have unarmed : leaf.arm name fault? = leaf := if_neg named
        rw [Level.arm, unarmed]
        exact exact
  | proximity node => exact Alignment.Exact.changed spares exact
  | union node => exact Union.Exact.changed spares exact
  | without node => exact Without.Exact.changed spares exact
  | region node => exact Region.Exact.changed spares exact
  | metered node => exact spares.fit _ exact

/-- A level that refuses a move stays exact, if what is metered does. -/
theorem Exact.refused {ofMetered : σ → Prop} {failure : Failure} {move : Move}
    (exact : level.Exact (fun _ => True) ofMetered fit)
    (refuses : (Cursor.standing level).Refuses failure move)
    (meters : ∀ cursor : σ, ofMetered cursor →
      (Cursor.standing cursor).Refuses failure move →
        ofMetered (Cursor.go move cursor).2) :
    Exact (fun _ => True) ofMetered fit (Cursor.go move level).2 := by
  have stays : Cursor.go move level = (.error failure, level) →
      Exact (fun _ => True) ofMetered fit (Cursor.go move level).2 := by
    intro refused
    rw [refused]
    exact exact
  cases level with
  | nothing leaf =>
      rw [carries_nothing.go_eq]
      trivial
  | listed leaf =>
      exact stays (carries_listed.go_refused (Listed.planned.go_refused refuses))
  | term leaf =>
      rw [carries_term.go_eq]
      trivial
  | scripted name leaf =>
      rw [(carries_scripted name).go_eq]
      trivial
  | probe leaf =>
      rw [carries_probe.go_eq]
      trivial
  | proximity node =>
      exact stays (carries_proximity.go_refused (Proximity.planned.go_refused refuses))
  | union node =>
      exact stays (carries_union.go_refused (Union.planned.go_refused refuses))
  | without node =>
      exact stays (carries_without.go_refused (Without.planned.go_refused refuses))
  | region node =>
      exact stays (carries_region.go_refused (Region.planned.go_refused refuses))
  | metered node =>
      rw [carries_metered.go_eq, Metered.go_eq]
      exact meters node.child exact refuses

/-- To close an exact level leaves it exact, if it leaves the cursors fit. -/
theorem Exact.closed {ofProbe : Probe → Prop} {ofMetered : σ → Prop}
    (exact : level.Exact ofProbe ofMetered fit)
    (probes : ∀ probe, ofProbe probe → ofProbe (Cursor.close probe))
    (meters : ∀ cursor, ofMetered cursor → ofMetered (Cursor.close cursor))
    (closes : ∀ cursor, fit cursor → fit (Cursor.close cursor)) :
    Exact ofProbe ofMetered fit (Cursor.close level) := by
  cases level with
  | nothing leaf => trivial
  | listed leaf => exact fun _ => nofun
  | term leaf => trivial
  | scripted name leaf => trivial
  | probe leaf => exact probes leaf exact
  | proximity node => exact Proximity.Exact.closed exact closes
  | union node => exact Union.Exact.closed exact closes
  | without node => exact Without.Exact.closed exact closes
  | region node => exact Region.Exact.closed exact closes
  | metered node => exact meters node.child exact

end Level

/-! ## Trees -/

namespace Tree

/-- Each node of the tree is exact, and each leaf is stocked. -/
def Exact : {height : Nat} → Tree height → Prop
  | 0, _ => True
  | _ + 1, level => Level.Exact Probe.Stocked Exact Exact level

theorem reliable : (height : Nat) → Reliable (Exact : Tree height → Prop)
  | 0 => nofun
  | height + 1 => Level.reliable (reliable height)

/-- On a span an exact tree shows payloads. -/
theorem Exact.exists_payloads : {height : Nat} → {tree : Tree height} →
    {span : Span} → tree.Exact → Cursor.standing tree = .on span →
      ∃ stored, Cursor.payloads tree = .ok stored
  | 0, tree, _, _ => nomatch tree
  | _ + 1, _, _, exact => Level.exists_payloads exists_payloads exact

theorem Exact.armed (event : String × Option ProbeFault) :
    {height : Nat} → {tree : Tree height} → tree.Exact →
      (tree.armed event).Exact
  | 0, _, _ => trivial
  | height + 1, _, exact =>
      have spares : Cursor.Spares Exact (Tree.armed event : Tree height → _) :=
        ⟨fun _ => Exact.armed event, fun tree => (tree.armed_arm _ _).standing⟩
      Level.Exact.arm spares exact

/-- A tree stays exact in moves that do not fail. -/
theorem exact_undergo {height : Nat} {tree : Tree height} (exact : tree.Exact)
    {happenings : List (Happening (String × Option ProbeFault))}
    (answered : ∀ report ∈ Cursor.reports armed happenings tree,
      ∃ reached, report.outcome = .ok reached) :
    (Cursor.undergo armed happenings tree).Exact := by
  induction happenings generalizing tree with
  | nil => exact exact
  | cons happening rest ih =>
      cases happening with
      | disturb event => exact ih (exact.armed event) answered
      | move move =>
          have arrives := reliable height exact move
          cases went : Cursor.go move tree with
          | mk outcome reached =>
              simp only [Cursor.reports, Cursor.undergo,
                Cursor.make_of_go went] at answered ⊢
              cases outcome with
              | ok span? =>
                  exact ih (Attempt.Meets.of_ok arrives went).1
                    fun report member =>
                      answered report (List.mem_cons_of_mem _ member)
              | error failure =>
                  obtain ⟨_, isOk⟩ := answered _ List.mem_cons_self
                  cases isOk

end Tree

/-- A query is opened exact, before its first span. -/
theorem Query.stands_openAt (levels : Nat) (query : Query)
    (fits : query.height ≤ levels) :
    Stands Tree.Exact none (openAt levels query fits) := by
  induction levels generalizing query with
  | zero => exact absurd query.height_pos (Nat.not_lt.mpr fits)
  | succ levels ih =>
      cases query with
      | nothing => exact ⟨trivial, rfl⟩
      | listed listing => exact ⟨nofun, rfl⟩
      | term occurrences => exact ⟨trivial, rfl⟩
      | scripted name script occurrences => exact ⟨trivial, rfl⟩
      | probe name listing fault? => exact ⟨nofun, rfl⟩
      | proximity arrangement slop collects children =>
          refine ⟨Proximity.exact_ofCursors arrangement slop collects
            fun place => ?_, rfl⟩
          rw [getElem_pmap_openAt]
          exact ih _ _
      | union children =>
          refine ⟨Union.exact_ofCursors fun place => ?_, rfl⟩
          rw [getElem_pmap_openAt]
          exact ih _ _
      | without clash included excluded =>
          exact ⟨Without.exact_ofCursors (ih included _) (ih excluded _), rfl⟩
      | region low high anchor child =>
          exact ⟨Region.exact_ofCursor (ih child _), rfl⟩
      | metered name child => exact ⟨(ih child _).fit, (ih child _).there⟩

end PositionalSearch
