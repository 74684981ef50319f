import PositionalSearch.Inspection
import PositionalSearch.Proofs.Lasting.Leaves
import PositionalSearch.Proofs.Lasting.Nodes
import PositionalSearch.Proofs.Lasting.Proximity
import PositionalSearch.Proofs.Levels

/-!
# What lasts of trees

No move opens or closes anything in a tree, counts a closing or changes the
estimate.  To close a tree in which nothing is closed closes each of its leaves
once more.
-/

namespace PositionalSearch

open Attempt (Sustains)
open Cursor (Carries Concludes Lasting)

/-! ## Closings -/

/-- How often the probes and the postings of a tree were closed, by name. -/
@[ext]
structure Closings where
  probes : List (String × Nat)
  postings : List (String × Nat)

namespace Closings

/-- Each leaf is closed once more. -/
def next (closings : Closings) : Closings where
  probes := closings.probes.map fun (name, closes) => (name, closes + 1)
  postings := closings.postings.map fun (name, closes) => (name, closes + 1)

end Closings

namespace Tally

/-- The closings among all counts. -/
def closings (tally : Tally) : Closings where
  probes := tally.probes.map fun probe => (probe.name, probe.closes)
  postings := tally.postings.map fun postings =>
    (postings.name, postings.calls.close)

theorem probes_append (first second : Tally) :
    (first ++ second).probes = first.probes ++ second.probes := rfl

theorem postings_append (first second : Tally) :
    (first ++ second).postings = first.postings ++ second.postings := rfl

/-- The closings of two parts are those of each of them. -/
theorem closings_append_congr {first second other another : Tally}
    (same : first.closings = other.closings)
    (sameToo : second.closings = another.closings) :
    (first ++ second).closings = (other ++ another).closings := by
  obtain ⟨sameProbes, samePostings⟩ := Closings.mk.inj same
  obtain ⟨moreProbes, morePostings⟩ := Closings.mk.inj sameToo
  simp only [closings, probes_append, postings_append, List.map_append,
    sameProbes, samePostings, moreProbes, morePostings]

theorem closings_append_next {first second closed alsoClosed : Tally}
    (once : closed.closings = first.closings.next)
    (onceToo : alsoClosed.closings = second.closings.next) :
    (closed ++ alsoClosed).closings = (first ++ second).closings.next := by
  obtain ⟨onceProbes, oncePostings⟩ := Closings.mk.inj once
  obtain ⟨moreProbes, morePostings⟩ := Closings.mk.inj onceToo
  simp only [closings, Closings.next, probes_append, postings_append,
    List.map_append] at *
  rw [onceProbes, oncePostings, moreProbes, morePostings]

theorem closings_concat_congr {first second : List Tally}
    (same : List.Forall₂ (fun tally other => tally.closings = other.closings)
      first second) :
    (concat first).closings = (concat second).closings := by
  induction same with
  | nil => rfl
  | cons sameFirst _ ih => exact closings_append_congr sameFirst ih

theorem closings_concat_next {tallies closed : List Tally}
    (once : List.Forall₂ (fun after before : Tally =>
      after.closings = before.closings.next) closed tallies) :
    (concat closed).closings = (concat tallies).closings.next := by
  induction once with
  | nil => rfl
  | cons onceFirst _ ih => exact closings_append_next onceFirst ih

end Tally

/-- What holds of each two cursors in one place holds of their counts. -/
theorem forall₂_map_toList {σ α : Type} {size : Nat} {below : σ → α}
    {holds : α → α → Prop} {first second : Vector σ size}
    (each : ∀ child : Fin size, holds (below first[child])
      (below second[child])) :
    List.Forall₂ holds (first.toList.map below) (second.toList.map below) := by
  refine List.forall₂_iff_get.mpr ⟨by simp, fun place inside _ => ?_⟩
  simpa using each ⟨place, by simpa using inside⟩

/-! ## Cursors -/

namespace Cursor

variable {σ τ : Type} [Cursor σ] [Cursor τ] {spared : Failure → Prop}

/-- What the moves of a cursor leave as it was. -/
structure Lasts (counts : σ → Tally) (isOpen : σ → Prop)
    (cursor reached : σ) : Prop where
  isOpen : isOpen cursor → isOpen reached
  closings : (counts reached).closings = (counts cursor).closings
  estimate : estimate reached = estimate cursor

variable {counts : σ → Tally} {isOpen : σ → Prop}

theorem Lasts.refl (cursor : σ) : Lasts counts isOpen cursor cursor :=
  ⟨id, rfl, rfl⟩

theorem Lasts.trans {cursor middle reached : σ}
    (first : Lasts counts isOpen cursor middle)
    (second : Lasts counts isOpen middle reached) :
    Lasts counts isOpen cursor reached :=
  ⟨second.isOpen ∘ first.isOpen, second.closings.trans first.closings,
    second.estimate.trans first.estimate⟩

/-- What lasts in every move lasts. -/
theorem lasting_of_go (goes : ∀ (cursor : σ) (move : Move),
      (go move).Sustains spared (Lasts counts isOpen cursor) cursor)
    (cursor : σ) : Lasting spared (Lasts counts isOpen cursor) := by
  intro middle lasts move
  exact (goes middle move).mono (fun _ _ => lasts.trans)
    fun _ _ later isSpared => lasts.trans (later isSpared)

/-- What lasts of a cursor lasts of one that carries it. -/
theorem Carries.sustains {wrap : σ → τ} (carries : Carries wrap)
    {holds : τ → Prop} {cursor : σ} {move : Move}
    (sustains : (go move).Sustains spared (fun inner => holds (wrap inner))
      cursor) :
    (go move).Sustains spared holds (wrap cursor) :=
  (carries.meets_go_iff move).mpr sustains

end Cursor

open Cursor (Lasts)

/-! ## Levels -/

namespace Level

variable {σ : Type} {isOpen : σ → Prop} {counts : σ → Tally}

/-- Neither the node is closed nor a cursor below it. -/
def IsOpen (below : σ → Prop) : Level σ → Prop
  | .nothing leaf => leaf.standing ≠ .closed
  | .listed leaf => leaf.standing ≠ .closed
  | .term leaf => leaf.standing ≠ .closed
  | .scripted _ leaf => leaf.standing ≠ .closed
  | .probe leaf => leaf.standing ≠ .closed
  | .proximity node =>
      node.standing ≠ .closed ∧ Each (fun _ => below) node.alignment.cursors
  | .union node => node.standing ≠ .closed ∧ Each (fun _ => below) node.children
  | .without node =>
      node.standing ≠ .closed ∧ below node.included ∧ below node.excluded
  | .region node => node.standing ≠ .closed ∧ below node.child
  | .metered node => below node.child

variable [Cursor σ] {spared : Failure → Prop}

theorem IsOpen.standing_ne
    (below : ∀ cursor : σ, isOpen cursor → Cursor.standing cursor ≠ .closed)
    {level : Level σ} (opened : level.IsOpen isOpen) :
    Cursor.standing level ≠ .closed := by
  cases level with
  | nothing leaf => exact opened
  | listed leaf => exact opened
  | term leaf => exact opened
  | scripted name leaf => exact opened
  | probe leaf => exact opened
  | proximity node => exact opened.1
  | union node => exact opened.1
  | without node => exact opened.1
  | region node => exact opened.1
  | metered node => exact below node.child opened

/-- If no move changes that of the children, none changes it of a level. -/
theorem sustains_go
    (below : ∀ cursor : σ, Lasting spared (Lasts counts isOpen cursor))
    (level : Level σ) (move : Move) :
    (Cursor.go move).Sustains spared
      (Lasts (tally counts) (IsOpen isOpen) level) level := by
  cases level with
  | nothing leaf =>
      refine carries_nothing.sustains
        ((Nothing.concludes_go leaf move).sustains ?_)
      intro standing reached opens stands
      exact ⟨fun isOpen closed => isOpen (opens (stands.symm.trans closed)),
        rfl, rfl⟩
  | listed leaf =>
      refine carries_listed.sustains
        ((Listed.concludes_go leaf move).sustains ?_)
      intro standing reached opens held
      exact ⟨fun isOpen closed =>
        isOpen (opens (held.stands.symm.trans closed)), rfl,
        congrArg Listing.size held.listing⟩
  | term leaf =>
      have held : leaf.Held (fun postings =>
          postings.total = leaf.postings.total)
          (fun term => term.standing = .closed → leaf.standing = .closed) :=
        ⟨rfl, id⟩
      refine carries_term.sustains ((Term.lasting (Term.steadfast_open _)
        (StoredPostings.constant_total _) held move).weaken ?_)
      exact fun reached held => ⟨mt held.stays, rfl, held.postings⟩
  | scripted name leaf =>
      have held : leaf.Held (ScriptedPostings.Held leaf.postings)
          (fun term => term.standing = .closed → leaf.standing = .closed) :=
        ⟨⟨rfl, rfl, rfl⟩, id⟩
      refine (carries_scripted name).sustains ((Term.lasting
        (Term.steadfast_open _) (ScriptedPostings.constant_held _) held
          move).weaken ?_)
      intro reached held
      refine ⟨mt held.stays, ?_, held.postings.cost_eq⟩
      simp only [tally, Tally.closings, List.map_cons, List.map_nil,
        held.postings.closes]
  | probe leaf =>
      refine carries_probe.sustains ((Probe.concludes_go leaf move).sustains ?_)
      intro standing reached opens held
      refine ⟨fun isOpen closed =>
        isOpen (opens (held.stands.symm.trans closed)), ?_,
        congrArg Listing.size held.listing⟩
      simp only [tally, Probe.tally, Tally.closings, List.map_cons,
        List.map_nil, held.name, held.closes]
  | proximity node =>
      have held : node.Held (fun child =>
          Lasts counts isOpen node.alignment.cursors[child]) node.estimate
          node.standing := ⟨fun _ => .refl _, rfl, rfl⟩
      refine carries_proximity.sustains
        ((Proximity.concludes_go (fun _ => below _) held move).sustains ?_)
      intro standing reached opens held
      refine ⟨fun ⟨isOpen, each⟩ => ⟨fun closed =>
        isOpen (opens (held.stands.symm.trans closed)), fun child =>
          (held.children child).isOpen (each child)⟩, ?_, held.estimate⟩
      exact Tally.closings_concat_congr (forall₂_map_toList fun child =>
        (held.children child).closings)
  | union node =>
      have held : node.Held (fun child =>
          Lasts counts isOpen node.children[child]) node.estimate
          node.standing := ⟨fun _ => .refl _, rfl, rfl⟩
      refine carries_union.sustains
        ((Union.concludes_go (fun _ => below _) held move).sustains ?_)
      intro standing reached opens held
      refine ⟨fun ⟨isOpen, each⟩ => ⟨fun closed =>
        isOpen (opens (held.stands.symm.trans closed)), fun child =>
          (held.children child).isOpen (each child)⟩, ?_, held.estimate⟩
      exact Tally.closings_concat_congr (forall₂_map_toList fun child =>
        (held.children child).closings)
  | without node =>
      refine carries_without.sustains
        ((Without.concludes_go (below node.included) (below node.excluded)
          ⟨.refl _, .refl _, rfl⟩ move).sustains ?_)
      intro standing reached opens held
      exact ⟨fun ⟨isOpen, ofIncluded, ofExcluded⟩ => ⟨fun closed =>
        isOpen (opens (held.stands.symm.trans closed)),
          held.included.isOpen ofIncluded, held.excluded.isOpen ofExcluded⟩,
        Tally.closings_append_congr held.included.closings
          held.excluded.closings, held.included.estimate⟩
  | region node =>
      refine carries_region.sustains
        ((Region.concludes_go (below node.child) (.refl _) move).sustains ?_)
      intro standing reached opens held
      exact ⟨fun ⟨isOpen, ofChild⟩ => ⟨fun closed =>
        isOpen (opens (held.stands.symm.trans closed)),
          held.child.isOpen ofChild⟩, held.child.closings,
        held.child.estimate⟩
  | metered node =>
      have kept := Metered.lasting (below node.child)
        (Lasts.refl node.child : Lasts counts isOpen node.child node.child)
        move
      refine carries_metered.sustains (kept.weaken ?_)
      exact fun reached lasts => ⟨lasts.isOpen,
        Tally.closings_append_congr rfl lasts.closings, lasts.estimate⟩

/-! ### Closing a level -/

/-- To close a level does not change its estimate. -/
theorem estimate_close
    (below : ∀ cursor : σ,
      Cursor.estimate (Cursor.close cursor) = Cursor.estimate cursor)
    (level : Level σ) :
    Cursor.estimate (Cursor.close level) = Cursor.estimate level := by
  have unlessClosed : ∀ {τ : Type} (standing : Standing) (node closed : τ)
      (estimate : τ → Nat), estimate closed = estimate node →
        estimate (if standing = .closed then node else closed) =
          estimate node := by
    intro τ standing node closed estimate same
    split
    · rfl
    · exact same
  cases level with
  | nothing leaf => rfl
  | listed leaf => rfl
  | probe leaf => rfl
  | term leaf => exact unlessClosed _ leaf _ Cursor.estimate rfl
  | scripted name leaf => exact unlessClosed _ leaf _ Cursor.estimate rfl
  | proximity node => exact unlessClosed _ node _ Cursor.estimate rfl
  | union node => exact unlessClosed _ node _ Cursor.estimate rfl
  | without node =>
      exact unlessClosed _ node _ Cursor.estimate (below node.included)
  | region node =>
      exact unlessClosed _ node _ Cursor.estimate (below node.child)
  | metered node => exact below node.child

/-- To close a level that is open closes each leaf below it once. -/
theorem closings_close
    (below : ∀ cursor : σ, isOpen cursor →
      (counts (Cursor.close cursor)).closings =
        (counts cursor).closings.next)
    {level : Level σ} (opened : level.IsOpen isOpen) :
    (tally counts (Cursor.close level)).closings =
      (tally counts level).closings.next := by
  cases level with
  | nothing leaf => rfl
  | listed leaf => rfl
  | probe leaf => rfl
  | term leaf => rfl
  | scripted name leaf =>
      have closed : Cursor.close leaf = { leaf with
          standing := .closed
          payload? := none
          postings := Postings.close leaf.postings } := if_neg opened
      exact congrArg (fun reached =>
        (tally counts (.scripted name reached)).closings) closed
  | proximity node =>
      have closed : Cursor.close node = { node with
          standing := .closed
          payloads := []
          alignment := node.alignment.close } := if_neg opened.1
      refine (congrArg (fun reached =>
        (tally counts (.proximity reached)).closings) closed).trans ?_
      refine Tally.closings_concat_next (forall₂_map_toList fun child => ?_)
      simpa [Alignment.close, Alignment.cursors] using
        below _ (opened.2 child)
  | union node =>
      have closed : Cursor.close node = { node with
          standing := .closed
          queue := .empty
          children := node.children.map Cursor.close } := if_neg opened.1
      refine (congrArg (fun reached =>
        (tally counts (.union reached)).closings) closed).trans ?_
      refine Tally.closings_concat_next (forall₂_map_toList fun child => ?_)
      simpa using below _ (opened.2 child)
  | without node =>
      have closed : Cursor.close node = { node with
          standing := .closed
          included := Cursor.close node.included
          excluded := Cursor.close node.excluded } := if_neg opened.1
      refine (congrArg (fun reached =>
        (tally counts (.without reached)).closings) closed).trans ?_
      exact Tally.closings_append_next (below _ opened.2.1)
        (below _ opened.2.2)
  | region node =>
      have closed : Cursor.close node = { node with
          standing := .closed
          child := Cursor.close node.child } := if_neg opened.1
      exact (congrArg (fun reached =>
        (tally counts (.region reached)).closings) closed).trans
          (below _ opened.2)
  | metered node => exact Tally.closings_append_next rfl (below _ opened)

/-! ### Arming probes -/

/-- What arming the probes of a cursor leaves as it was. -/
structure Armed (counts : σ → Tally) (isOpen : σ → Prop)
    (cursor armed : σ) : Prop where
  standing : Cursor.standing armed = Cursor.standing cursor
  isOpen : isOpen cursor → isOpen armed
  tally : counts armed = counts cursor
  estimate : Cursor.estimate armed = Cursor.estimate cursor

omit [Cursor σ] in
/-- Armed cursors have counted what they had counted before. -/
theorem concat_map_toList {size : Nat} {change : σ → σ}
    (same : ∀ cursor : σ, counts (change cursor) = counts cursor)
    (cursors : Vector σ size) :
    Tally.concat ((cursors.map change).toList.map counts) =
      Tally.concat (cursors.toList.map counts) := by
  rw [Vector.toList_map, List.map_map]
  congr 2
  exact funext same

theorem armed_arm {name : String} {fault? : Option ProbeFault}
    {arms : σ → σ}
    (below : ∀ cursor : σ, Armed counts isOpen cursor (arms cursor))
    (level : Level σ) :
    Armed (tally counts) (IsOpen isOpen) level
      (level.arm name fault? arms) := by
  have counted := fun cursor => (below cursor).tally
  cases level with
  | nothing leaf => exact ⟨rfl, id, rfl, rfl⟩
  | listed leaf => exact ⟨rfl, id, rfl, rfl⟩
  | term leaf => exact ⟨rfl, id, rfl, rfl⟩
  | scripted name leaf => exact ⟨rfl, id, rfl, rfl⟩
  | probe leaf =>
      by_cases named : leaf.name = name
      · have armed : leaf.arm name fault? = { leaf with fault? := fault? } :=
          if_pos named
        rw [arm, armed]
        exact ⟨rfl, id, rfl, rfl⟩
      · have unarmed : leaf.arm name fault? = leaf := if_neg named
        rw [arm, unarmed]
        exact ⟨rfl, id, rfl, rfl⟩
  | proximity node =>
      have mapped := node.alignment.cursors_mapCursors arms
      refine ⟨rfl, fun ⟨isOpen, each⟩ => ⟨isOpen, ?_⟩, ?_, rfl⟩
      · rw [mapped]
        exact each.map fun cursor => (below cursor).isOpen
      · simp only [arm, tally, Proximity.children, mapped]
        exact concat_map_toList counted _
  | union node =>
      exact ⟨rfl, fun ⟨isOpen, each⟩ =>
        ⟨isOpen, each.map fun cursor => (below cursor).isOpen⟩,
        concat_map_toList counted _, rfl⟩
  | without node =>
      refine ⟨rfl, fun ⟨isOpen, ofIncluded, ofExcluded⟩ =>
        ⟨isOpen, (below _).isOpen ofIncluded, (below _).isOpen ofExcluded⟩,
        ?_, (below _).estimate⟩
      simp only [arm, tally, counted]
  | region node =>
      exact ⟨rfl, fun ⟨isOpen, ofChild⟩ =>
        ⟨isOpen, (below _).isOpen ofChild⟩, counted _, (below _).estimate⟩
  | metered node =>
      refine ⟨(below _).standing, (below _).isOpen, ?_, (below _).estimate⟩
      simp only [arm, tally, counted, Metered.tally]

end Level

/-! ## Trees -/

namespace Tree

/-- Nothing in the tree is closed. -/
def IsOpen : {height : Nat} → Tree height → Prop
  | 0, tree => nomatch tree
  | _ + 1, level => Level.IsOpen IsOpen level

theorem IsOpen.standing_ne : {height : Nat} → {tree : Tree height} →
    tree.IsOpen → Cursor.standing tree ≠ .closed
  | 0, tree, _ => nomatch tree
  | _ + 1, _, opened =>
      Level.IsOpen.standing_ne (fun _ => IsOpen.standing_ne) opened

/-- What no move of the tree changes. -/
def Lasts {height : Nat} (tree reached : Tree height) : Prop :=
  Cursor.Lasts tally IsOpen tree reached

theorem lasting {spared : Failure → Prop} :
    {height : Nat} → (tree : Tree height) → Lasting spared tree.Lasts
  | 0, tree => nomatch tree
  | _ + 1, level => Cursor.lasting_of_go (Level.sustains_go lasting) level

/-- A move leaves the tree as open as it was. -/
theorem lasts_go {height : Nat} (tree : Tree height) (move : Move) :
    tree.Lasts (Cursor.go move tree).2 := by
  have sustains : (Cursor.go move).Sustains (fun _ => True) tree.Lasts tree :=
    lasting tree (Cursor.Lasts.refl tree) move
  cases went : Cursor.go move tree with
  | mk outcome reached =>
      cases outcome with
      | ok span? => exact Attempt.Meets.of_ok sustains went
      | error failure => exact Attempt.Meets.of_error sustains went trivial

theorem estimate_close :
    {height : Nat} → (tree : Tree height) →
      Cursor.estimate (Cursor.close tree) = Cursor.estimate tree
  | 0, tree => nomatch tree
  | _ + 1, level => Level.estimate_close estimate_close level

/-- To close an open tree closes each of its leaves once. -/
theorem closings_close :
    {height : Nat} → {tree : Tree height} → tree.IsOpen →
      (Cursor.close tree).tally.closings = tree.tally.closings.next
  | 0, tree, _ => nomatch tree
  | _ + 1, _, opened =>
      Level.closings_close (fun _ opened => closings_close opened) opened

/-- To arm probes leaves all else as it was. -/
theorem armed_arm (name : String) (fault? : Option ProbeFault) :
    {height : Nat} → (tree : Tree height) →
      Level.Armed tally IsOpen tree (tree.arm name fault?)
  | 0, tree => nomatch tree
  | _ + 1, level => Level.armed_arm (armed_arm name fault?) level

/-- To arm probes leaves the tree as open as it was. -/
theorem lasts_arm {height : Nat} (tree : Tree height) (name : String)
    (fault? : Option ProbeFault) : tree.Lasts (tree.arm name fault?) :=
  have armed := tree.armed_arm name fault?
  ⟨armed.isOpen, congrArg Tally.closings armed.tally, armed.estimate⟩

end Tree

/-- Nothing is closed in a query that is opened. -/
theorem Query.isOpen_openAt (levels : Nat) (query : Query)
    (fits : query.height ≤ levels) : (openAt levels query fits).IsOpen := by
  induction levels generalizing query with
  | zero => exact absurd query.height_pos (Nat.not_lt.mpr fits)
  | succ levels ih =>
      cases query with
      | nothing => exact nofun
      | listed listing => exact nofun
      | term occurrences => exact nofun
      | scripted name script occurrences => exact nofun
      | probe name listing fault? => exact nofun
      | proximity arrangement slop collects children =>
          exact ⟨nofun, fun place => getElem_pmap_openAt _ place ▸ ih _ _⟩
      | union children =>
          exact ⟨nofun, fun place => getElem_pmap_openAt _ place ▸ ih _ _⟩
      | without clash included excluded =>
          exact ⟨nofun, ih included _, ih excluded _⟩
      | region low high anchor child => exact ⟨nofun, ih child _⟩
      | metered name child => exact ih child _

end PositionalSearch
