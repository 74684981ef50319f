import PositionalSearch.Proofs.Lasting.Nodes
import PositionalSearch.Proofs.Lawful.Basic
import PositionalSearch.Proofs.Order.Union

/-!
# Unions are lawful

To move past a span, or up to a document, takes each child once whose head lags
behind: it moves on in order, so its new head does not lag.  The heads of the
queue are enough moves for that.
-/

namespace PositionalSearch

open Attempt (Abides Sustains)
open Cursor (Lasting Lawful Orderly Trusted lasting_lawful
  lawful_of_disciplined)

namespace Union

variable {ι σ : Type} {size : Nat} [Cursor σ] {disturb : ι → σ → σ}
  {last? : Option Span} {node : Union σ size}

/-- No child breaks a rule. -/
def Sound (disturb : ι → σ → σ) (node : Union σ size) : Prop :=
  Each (fun _ => Lawful disturb) node.children

/-- Children with a head can be relied on, and those not entered yet. -/
theorem Seats.trusted (seats : Seats (Orderly disturb) node)
    (sound : Sound disturb node) : Seats (Trusted disturb) node where
  placed head isHead := ⟨seats.placed head isHead, sound head.child⟩
  apart := seats.apart
  within := seats.within
  rest child notEntered := ⟨seats.rest child notEntered, sound child⟩

theorem abides_enterRest {node : Union σ size} (sound : Sound disturb node)
    (target? : Option DocId) :
    (enterRest target?).Abides (Sound disturb) node := by
  by_cases inside : node.entered < size
  · rw [Abides, meets_enterRest_of_lt inside]
    refine Attempt.Meets.mono (Cursor.Lawful.abides_enter
      (sound ⟨node.entered, inside⟩) target?) ?_ ?_
    · intro span? cursor lawful
      have soundOn : Sound disturb { node.keep ⟨node.entered, inside⟩ cursor
          with
            queue := node.queue.receive ⟨node.entered, inside⟩ span?
            entered := node.entered + 1 } := Each.set sound lawful
      exact abides_enterRest soundOn target?
    · exact fun failure cursor failed =>
        ⟨failed.1, Each.set sound failed.2⟩
  · rw [Abides, meets_enterRest_of_le (Nat.not_lt.mp inside)]
    exact sound
termination_by size - node.entered

/-- As many moves as there are heads that lag are enough. -/
theorem abides_moveLagging {lags : Span → Bool}
    {step : Attempt Failure σ (Option Span)}
    (steps : ∀ {span : Span} {cursor : σ}, lags span →
      Trusted disturb (some span) cursor → step.Meets cursor
        (fun later? reached => ∀ later ∈ later?,
          lags later = false ∧ Trusted disturb (some later) reached)
        (fun failure _ => failure.Ordinary))
    {moves : Nat} {node : Union σ size} (seats : Seats (Trusted disturb) node)
    (enough : node.queue.heads.toList.countP (fun head => lags head.span) ≤
      moves) :
    (moveLagging lags step moves).Abides (fun _ => True) node := by
  induction moves generalizing node with
  | zero =>
      have none := List.countP_eq_zero.mp (Nat.le_zero.mp enough)
      have settled : ∀ head ∈ node.queue.least?, lags head.span = false := by
        intro head isLeast
        obtain ⟨inside, rfl⟩ := Array.getElem?_eq_some_iff.mp isLeast
        simpa using none node.queue.heads[0] (by simp)
      exact (meets_moveLagging_of_settled settled 0).mpr trivial
  | succ moves ih =>
      rcases node.queue.exists_or_forall_least (lags ·.span) with
        ⟨filled, lagging⟩ | settled
      · rw [toList_heads filled, List.countP_cons, if_pos lagging] at enough
        rw [Abides, meets_moveLagging_succ filled lagging]
        refine (steps lagging (seats.placed node.queue.heads[0]
          (by simp))).mono ?_ fun _ _ ordinary => ⟨ordinary, trivial⟩
        intro span? cursor moved
        have heads := node.queue.exchange_perm filled span?
        -- The new head of the child does not lag any more.
        have quiet : ((span?.map (Head.mk ·
            node.queue.heads[0].child)).toList.countP
              fun head => lags head.span) = 0 := by
          refine List.countP_eq_zero.mpr fun head isHead => ?_
          obtain ⟨later, isLater, rfl⟩ :=
            Option.map_eq_some_iff.mp (Option.mem_toList.mp isHead)
          simp [(moved later isLater).1]
        refine ih (seats.moved filled heads fun later isLater =>
          (moved later isLater).2) ?_
        rw [heads.countP_eq, List.countP_append, quiet, Nat.zero_add]
        exact Nat.le_of_succ_le_succ enough
      · exact (meets_moveLagging_of_settled settled _).mpr trivial

theorem abides_movePast (seats : Seats (Trusted disturb) node) (span : Span) :
    (movePast span).Abides (fun _ => True) node := by
  refine abides_moveLagging ?_ seats List.countP_le_length
  intro head cursor lags trusted
  obtain rfl : head = span := by simpa using lags
  refine trusted.meets_next.mono ?_ fun _ _ failed => failed.1
  rintro _ reached advances later rfl
  have beyond := advances.1 head rfl
  exact ⟨by simpa using ne_of_gt beyond, advances.2.2.2⟩

theorem abides_seekLagging (seats : Seats (Trusted disturb) node)
    (target : DocId) : (seekLagging target).Abides (fun _ => True) node := by
  refine abides_moveLagging ?_ seats List.countP_le_length
  intro head cursor _ trusted
  refine (trusted.meets_seek target).mono ?_ fun _ _ failed => failed.1
  rintro _ reached advances later rfl
  have landed := advances.2.1 target rfl
  exact ⟨by simpa using landed, advances.2.2.2⟩

omit [Cursor σ] in
theorem abides_settle (node : Union σ size) :
    settle.Abides (fun _ => True) node := trivial

theorem abides_onward (kept : Keeps disturb last? node)
    (sound : Sound disturb node) : onward.Abides (fun _ => True) node := by
  apply Attempt.abides_look_bind
  split
  · exact ((abides_enterRest sound none).weaken
      fun _ _ => trivial).abides_bind fun _ reached _ => abides_settle reached
  · cases node.standing.span? with
    | none => exact abides_settle node
    | some span =>
        exact (abides_movePast (kept.queued.seats.trusted sound)
          span).abides_bind fun _ reached _ => abides_settle reached

theorem abides_forward (kept : Keeps disturb last? node)
    (sound : Sound disturb node) {target : DocId}
    (goes : node.standing.planSeek target = .ok .forward) :
    (forward target).Abides (fun _ => True) node := by
  obtain ⟨_, fresh⟩ := kept.stands.beforeSeek goes
  refine ((meets_enterRest kept fresh (some target)).and
    (abides_enterRest sound (some target))).imp_failure
      (fun _ _ failed => ⟨failed.2.1, trivial⟩) |>.abides_bind ?_
  rintro _ middle ⟨⟨keptOn, _⟩, soundOn⟩
  exact (abides_seekLagging (keptOn.queued.seats.trusted soundOn)
    target).abides_bind fun _ reached _ => abides_settle reached

theorem abides_go (kept : Keeps disturb last? node)
    (sound : Sound disturb node) (move : Move) :
    (Cursor.go move).Abides (Sound disturb) node := by
  have lasts : (Cursor.go move).Sustains (fun _ => True) (Sound disturb)
      node :=
    (concludes_go (fun _ => lasting_lawful) ⟨sound, rfl, rfl⟩ move).sustains
      fun _ _ _ concluded => concluded.children
  exact lasts.abides (planned.abides trivial
    (fun _ => abides_onward kept sound)
    (fun _ goes => abides_forward kept sound goes) move)

/-- The child of the least head shows its payloads. -/
theorem Sound.shows {failure : Failure} (sound : Sound disturb node)
    (refused : Cursor.payloads node = .error failure) :
    failure.Ordinary := by
  refine Standing.ordinary_of_requireSpan refused fun _ _ shown => ?_
  cases least : node.queue.least? with
  | none =>
      rw [least] at shown
      cases shown
  | some head =>
      rw [least] at shown
      exact Lawful.guards.payloads (sound head.child) shown

theorem Sound.disturbed (sound : Sound disturb node) (event : ι) :
    Sound disturb (disturbed disturb event node) := by
  intro child
  simpa [Union.disturbed] using Lawful.guards.disturbed (sound child) event

theorem lawful_ofCursors {cursors : Vector σ size}
    (trusted : ∀ child : Fin size, Trusted disturb none cursors[child]) :
    Lawful (disturbed disturb) (ofCursors cursors) :=
  lawful_of_disciplined disciplined abides_go Sound.shows Sound.disturbed
    (show Keeps disturb none (ofCursors cursors) from
      ⟨⟨HeadQueue.heaped_empty, nofun, .nil, nofun,
        fun child _ => (trusted child).orderly⟩, nofun, rfl⟩)
    fun child => (trusted child).lawful

end Union

end PositionalSearch
