import PositionalSearch.Proofs.Meets
import PositionalSearch.Proofs.Moves
import PositionalSearch.Proofs.Planned
import PositionalSearch.Proofs.SpanOrder

/-!
# Disciplined cursors

What a caller can rely on in every run, failures included: the spans answered
come one after the other, a seek lands no earlier than asked for, and the end
is final.  A cursor keeps this discipline relative to the span it answered
last.  Between moves a cursor may be disturbed from outside, say by arming a
probe, which must not break the discipline.
-/

namespace PositionalSearch

namespace Cursor

variable {ι σ : Type} [Cursor σ]

/--
What a move that does not fail comes to: a span after the last one and not
before the floor, on which the cursor stands then, or the end.
-/
def Advances (keeps : Option Span → σ → Prop) (last? : Option Span)
    (floor? : Option DocId) : Option Span → σ → Prop
  | some span, reached =>
      (∀ last ∈ last?, last < span) ∧ (∀ floor ∈ floor?, floor ≤ span.doc) ∧
        standing reached = .on span ∧ keeps (some span) reached
  | none, reached => standing reached = .exhausted ∧ keeps last? reached

/-- A condition on a cursor and its last span that every move preserves. -/
structure Disciplined (disturb : ι → σ → σ)
    (keeps : Option Span → σ → Prop) : Prop where
  moves : ∀ {last? : Option Span} {cursor : σ}, keeps last? cursor →
    ∀ move : Move, (go move).Meets cursor
      (Advances keeps last? move.target?) (fun _ reached => keeps last? reached)
  finished : ∀ {last? : Option Span} {cursor : σ}, keeps last? cursor →
    standing cursor = .exhausted → ∀ move : Move,
      (go move).Meets cursor (fun span? _ => span? = none) (fun _ _ => False)
  disturbed : ∀ {last? : Option Span} {cursor : σ}, keeps last? cursor →
    ∀ event : ι, keeps last? (disturb event cursor) ∧
      standing (disturb event cursor) = standing cursor

/-- The cursor goes on in order after the span it answered last. -/
def Orderly (disturb : ι → σ → σ) (last? : Option Span) (cursor : σ) : Prop :=
  ∃ keeps, Disciplined disturb keeps ∧ keeps last? cursor

variable {disturb : ι → σ → σ} {keeps : Option Span → σ → Prop}
  {last? : Option Span} {cursor : σ}

theorem Advances.mono {weaker : Option Span → σ → Prop}
    {floor? : Option DocId} {span? : Option Span} {reached : σ}
    (advances : Advances keeps last? floor? span? reached)
    (weaken : ∀ last? reached, keeps last? reached → weaker last? reached) :
    Advances weaker last? floor? span? reached := by
  cases span? with
  | some span =>
      obtain ⟨after, landed, stands, kept⟩ := advances
      exact ⟨after, landed, stands, weaken _ _ kept⟩
  | none => exact ⟨advances.1, weaken _ _ advances.2⟩

/-- To go on in order is itself a discipline. -/
theorem Orderly.disciplined :
    Disciplined disturb (Orderly disturb : Option Span → σ → Prop) where
  moves := by
    rintro last? cursor ⟨keeps, disciplined, kept⟩ move
    refine (disciplined.moves kept move).mono ?_ ?_
    · intro span? reached advances
      exact advances.mono fun _ _ kept => ⟨keeps, disciplined, kept⟩
    · intro _ reached kept
      exact ⟨keeps, disciplined, kept⟩
  finished := by
    rintro last? cursor ⟨keeps, disciplined, kept⟩ stands move
    exact disciplined.finished kept stands move
  disturbed := by
    rintro last? cursor ⟨keeps, disciplined, kept⟩ event
    obtain ⟨still, same⟩ := disciplined.disturbed kept event
    exact ⟨⟨keeps, disciplined, still⟩, same⟩

/-- A cursor in order after a span is in order after all earlier ones. -/
theorem Orderly.weaken (orderly : Orderly disturb last? cursor)
    {earlier? : Option Span}
    (notAfter : ∀ earlier ∈ earlier?, ∃ last ∈ last?, earlier ≤ last) :
    Orderly disturb earlier? cursor := by
  refine ⟨fun earlier? cursor => ∃ last?, Orderly disturb last? cursor ∧
    ∀ earlier ∈ earlier?, ∃ last ∈ last?, earlier ≤ last, ?_,
      last?, orderly, notAfter⟩
  constructor
  · rintro earlier? cursor ⟨last?, orderly, notAfter⟩ move
    refine (disciplined.moves orderly move).mono ?_ ?_
    · rintro (_ | span) reached advances
      · exact ⟨advances.1, last?, advances.2, notAfter⟩
      · obtain ⟨after, landed, stands, kept⟩ := advances
        refine ⟨fun earlier isEarlier => ?_, landed, stands, some span, kept, ?_⟩
        · obtain ⟨last, isLast, reaches⟩ := notAfter earlier isEarlier
          exact lt_of_le_of_lt reaches (after last isLast)
        · rintro _ ⟨rfl⟩
          exact ⟨span, rfl, le_refl span⟩
    · exact fun _ reached kept => ⟨last?, kept, notAfter⟩
  · rintro earlier? cursor ⟨last?, orderly, _⟩ stands move
    exact disciplined.finished orderly stands move
  · rintro earlier? cursor ⟨last?, orderly, notAfter⟩ event
    obtain ⟨still, same⟩ := disciplined.disturbed orderly event
    exact ⟨⟨last?, still, notAfter⟩, same⟩

/-- A move of an orderly cursor to its next span. -/
theorem Orderly.meets_next (orderly : Orderly disturb last? cursor) :
    (next : Attempt Failure σ _).Meets cursor
      (Advances (Orderly disturb) last? none)
      (fun _ reached => Orderly disturb last? reached) :=
  disciplined.moves orderly .next

/-- A move of an orderly cursor to a document. -/
theorem Orderly.meets_seek (orderly : Orderly disturb last? cursor)
    (target : DocId) :
    (seek target : Attempt Failure σ _).Meets cursor
      (Advances (Orderly disturb) last? (some target))
      (fun _ reached => Orderly disturb last? reached) :=
  disciplined.moves orderly (.seek target)

/-- The first move of an orderly cursor. -/
theorem Orderly.meets_enter (orderly : Orderly disturb last? cursor)
    (target? : Option DocId) :
    (enter target? : Attempt Failure σ _).Meets cursor
      (Advances (Orderly disturb) last? target?)
      (fun _ reached => Orderly disturb last? reached) := by
  cases target? with
  | none => exact orderly.meets_next
  | some target => exact orderly.meets_seek target

theorem Orderly.disturbed (orderly : Orderly disturb last? cursor)
    (event : ι) : Orderly disturb last? (disturb event cursor) :=
  (disciplined.disturbed orderly event).1

/-- At the end a planned cursor answers that nothing is left. -/
theorem Planned.meets_go_exhausted {onward : Attempt Failure σ (Option Span)}
    {forward : DocId → Attempt Failure σ (Option Span)}
    (planned : Planned onward forward)
    (isExhausted : standing cursor = .exhausted) (move : Move) :
    (go move : Attempt Failure σ _).Meets cursor (fun span? _ => span? = none)
      (fun _ _ => False) := by
  cases move with
  | next =>
      refine planned.meets_next ?_ (fun _ => rfl) ?_
      · intro isClosed
        rw [isExhausted] at isClosed
        cases isClosed
      · intro goes
        rw [isExhausted] at goes
        cases goes
  | seek target =>
      refine planned.meets_seek ?_ (fun _ => rfl) ?_ ?_ ?_
      · intro isClosed
        rw [isExhausted] at isClosed
        cases isClosed
      · intro current isCurrent
        rw [isExhausted] at isCurrent
        cases isCurrent
      · intro span isOn
        rw [isExhausted] at isOn
        cases isOn
      · intro goes
        rw [isExhausted] at goes
        cases goes

/-- A planned cursor is disciplined if both its ways to move are. -/
theorem Planned.disciplined {onward : Attempt Failure σ (Option Span)}
    {forward : DocId → Attempt Failure σ (Option Span)}
    (planned : Planned onward forward)
    (stands : ∀ {last? : Option Span} {cursor : σ} {span : Span},
      keeps last? cursor → standing cursor = .on span → last? = some span)
    (goesOn : ∀ {last? : Option Span} {cursor : σ}, keeps last? cursor →
      (standing cursor).planNext = .ok true →
        onward.Meets cursor (Advances keeps last? none)
          (fun _ reached => keeps last? reached))
    (goesForward : ∀ {last? : Option Span} {cursor : σ} {target : DocId},
      keeps last? cursor → (standing cursor).planSeek target = .ok .forward →
        (forward target).Meets cursor (Advances keeps last? (some target))
          (fun _ reached => keeps last? reached))
    (disturbed : ∀ {last? : Option Span} {cursor : σ}, keeps last? cursor →
      ∀ event : ι, keeps last? (disturb event cursor) ∧
        standing (disturb event cursor) = standing cursor) :
    Disciplined disturb keeps where
  moves := by
    intro last? cursor kept move
    cases move with
    | next =>
        exact planned.meets_next (fun _ => kept)
          (fun isExhausted => ⟨isExhausted, kept⟩) (goesOn kept)
    | seek target =>
        refine planned.meets_seek (fun _ => kept)
          (fun isExhausted => ⟨isExhausted, kept⟩) (fun _ _ _ => kept) ?_
          (goesForward kept)
        intro span isOn same
        have isLast := stands kept isOn
        apply (goesOn kept (by rw [isOn]; rfl)).imp_answer
        rintro (_ | later) reached advances
        · exact advances
        · obtain ⟨after, _, rest⟩ := advances
          refine ⟨after, ?_, rest⟩
          rintro _ ⟨rfl⟩
          rw [same]
          exact Span.doc_le_of_lt (after span isLast)
  finished _ isExhausted move := planned.meets_go_exhausted isExhausted move
  disturbed := disturbed

/-- A demand made of a cursor in order is never refused. -/
theorem Advances.meets_demandBeyond {span : Span} {span? : Option Span}
    {reached : σ} {floor? : Option DocId}
    (advances : Advances keeps (some span) floor? span? reached) :
    (demandBeyond span span? : Attempt Failure σ _).Meets reached
      (fun later? reached =>
        keeps (some (later?.elim span Subtype.val)) reached)
      (fun _ _ => False) := by
  cases span? with
  | none => exact advances.2
  | some later =>
      obtain ⟨after, _, _, kept⟩ := advances
      simp only [demandBeyond, after span rfl, ↓reduceDIte]
      exact kept

/-- Moved beyond its last span, a cursor has a new last span or none. -/
theorem Disciplined.meets_nextBeyond (below : Disciplined disturb keeps)
    {span : Span} (kept : keeps (some span) cursor) :
    (nextBeyond span : Attempt Failure σ _).Meets cursor
      (fun later? reached =>
        keeps (some (later?.elim span Subtype.val)) reached)
      (fun _ reached => keeps (some span) reached) := by
  simp only [nextBeyond, Attempt.meets_bind]
  apply (below.moves kept .next).imp_answer
  intro span? reached advances
  exact advances.meets_demandBeyond.imp_failure fun _ _ refused => refused.elim

/-- The same of a move to the next document. -/
theorem Disciplined.meets_nextDocument (below : Disciplined disturb keeps)
    {span : Span} (kept : keeps (some span) cursor) :
    (nextDocument span : Attempt Failure σ _).Meets cursor
      (fun later? reached =>
        keeps (some (later?.elim span Subtype.val)) reached)
      (fun _ reached => keeps (some span) reached) := by
  unfold nextDocument
  split
  · rename_i target _
    simp only [seekBeyond, Attempt.meets_bind]
    apply (below.moves kept (.seek target)).imp_answer
    intro span? reached advances
    exact advances.meets_demandBeyond.imp_failure
      fun _ _ refused => refused.elim
  · exact kept

/-! ## Runs -/

/-- Something that happens to a cursor: a move, or a disturbance. -/
inductive Happening (ι : Type)
  | move (move : Move)
  | disturb (event : ι)

/-- The reports of all moves, whatever they answer. -/
def reports (disturb : ι → σ → σ) : List (Happening ι) → σ → List Report
  | [], _ => []
  | .move move :: rest, cursor =>
      let (outcome, reached) := make move cursor
      ⟨move, outcome, standing reached⟩ :: reports disturb rest reached
  | .disturb event :: rest, cursor =>
      reports disturb rest (disturb event cursor)

/-- The cursor after all that happened to it. -/
def undergo (disturb : ι → σ → σ) : List (Happening ι) → σ → σ
  | [], cursor => cursor
  | .move move :: rest, cursor => undergo disturb rest (make move cursor).2
  | .disturb event :: rest, cursor =>
      undergo disturb rest (disturb event cursor)

/-- What every move and every disturbance preserves holds in the end. -/
theorem holds_undergo (holds : σ → Prop)
    (moves : ∀ {cursor : σ}, holds cursor → ∀ move : Move,
      (go move).Meets cursor (fun _ => holds) (fun _ => holds))
    (disturbs : ∀ {cursor : σ}, holds cursor → ∀ event : ι,
      holds (disturb event cursor))
    (holdsFirst : holds cursor) (happenings : List (Happening ι)) :
    holds (undergo disturb happenings cursor) := by
  induction happenings generalizing cursor with
  | nil => exact holdsFirst
  | cons happening rest ih =>
      cases happening with
      | disturb event => exact ih (disturbs holdsFirst event)
      | move move =>
          have met := moves holdsFirst move
          cases went : go move cursor with
          | mk outcome reached =>
              simp only [undergo, make_of_go went]
              cases outcome with
              | ok span? => exact ih (met.of_ok went)
              | error failure => exact ih (met.of_error went)

/-- After all that happened a disciplined cursor keeps its discipline. -/
theorem Disciplined.keeps_undergo (disciplined : Disciplined disturb keeps)
    (kept : keeps last? cursor) (happenings : List (Happening ι)) :
    ∃ last?, keeps last? (undergo disturb happenings cursor) := by
  refine holds_undergo (fun cursor => ∃ last?, keeps last? cursor) ?_ ?_
    ⟨last?, kept⟩ happenings
  · rintro cursor ⟨last?, kept⟩ move
    refine (disciplined.moves kept move).mono ?_
      fun _ reached still => ⟨last?, still⟩
    rintro (_ | span) reached advances
    · exact ⟨last?, advances.2⟩
    · exact ⟨some span, advances.2.2.2⟩
  · rintro cursor ⟨last?, kept⟩ event
    exact ⟨last?, (disciplined.disturbed kept event).1⟩

end Cursor

/-- Reports of moves that go forward in order and end once and for all. -/
structure Forward (reports : List Report) : Prop where
  ascending : (reports.filterMap Report.span?).Pairwise (· < ·)
  lands : ∀ report ∈ reports, ∀ span ∈ report.span?,
    ∀ target ∈ report.move.target?, target ≤ span.doc
  stands : ∀ report ∈ reports, ∀ span ∈ report.span?,
    report.standing = .on span
  exhausts : ∀ report ∈ reports, report.Ended →
    report.standing = .exhausted
  final : reports.Pairwise fun earlier later => earlier.Ended → later.Ended

/-- Where nothing is reported nothing goes wrong. -/
theorem Forward.nil : Forward [] where
  ascending := .nil
  lands _ member := absurd member List.not_mem_nil
  stands _ member := absurd member List.not_mem_nil
  exhausts _ member := absurd member List.not_mem_nil
  final := .nil

/-- One more report before others that go forward. -/
theorem Forward.cons {report : Report} {reports : List Report}
    (forward : Forward reports)
    (before : ∀ span ∈ report.span?,
      ∀ later ∈ reports.filterMap Report.span?, span < later)
    (lands : ∀ span ∈ report.span?,
      ∀ target ∈ report.move.target?, target ≤ span.doc)
    (stands : ∀ span ∈ report.span?, report.standing = .on span)
    (exhausts : report.Ended → report.standing = .exhausted)
    (final : report.Ended → ∀ later ∈ reports, later.Ended) :
    Forward (report :: reports) where
  ascending := by
    cases reached : report.span? with
    | none => simpa only [List.filterMap_cons, reached] using forward.ascending
    | some span =>
        simp only [List.filterMap_cons, reached]
        exact .cons (before span reached) forward.ascending
  lands := by
    intro other member
    rcases List.mem_cons.mp member with rfl | later
    · exact lands
    · exact forward.lands other later
  stands := by
    intro other member
    rcases List.mem_cons.mp member with rfl | later
    · exact stands
    · exact forward.stands other later
  exhausts := by
    intro other member
    rcases List.mem_cons.mp member with rfl | later
    · exact exhausts
    · exact forward.exhausts other later
  final := .cons (fun later member ended => final ended later member)
    forward.final

namespace Cursor

variable {ι σ : Type} [Cursor σ] {disturb : ι → σ → σ}
  {keeps : Option Span → σ → Prop} {last? : Option Span} {cursor : σ}

/-- At the end every report is that nothing is left. -/
theorem Disciplined.ended_of_exhausted (disciplined : Disciplined disturb keeps)
    (kept : keeps last? cursor) (isExhausted : standing cursor = .exhausted)
    (happenings : List (Happening ι)) :
    ∀ report ∈ reports disturb happenings cursor, report.Ended := by
  induction happenings generalizing cursor with
  | nil => exact fun report member => absurd member List.not_mem_nil
  | cons happening rest ih =>
      cases happening with
      | disturb event =>
          obtain ⟨keptOn, same⟩ := disciplined.disturbed kept event
          exact ih keptOn (same.trans isExhausted)
      | move move =>
          have met := (disciplined.moves kept move).and
            (disciplined.finished kept isExhausted move)
          cases went : go move cursor with
          | mk outcome reached =>
              cases outcome with
              | error failure => exact (met.of_error went).2.elim
              | ok span? =>
                  obtain ⟨advances, rfl⟩ := met.of_ok went
                  intro report member
                  simp only [reports, make_of_go went, List.mem_cons]
                    at member
                  rcases member with rfl | later
                  · exact ⟨_, rfl, by simp⟩
                  · exact ih advances.2 advances.1 report later

/-- After a run a disciplined cursor still keeps its discipline. -/
theorem Disciplined.keeps_runs (disciplined : Disciplined disturb keeps)
    (kept : keeps last? cursor) (moves : List Move) :
    ∃ last?, keeps last? (runs moves cursor).2 := by
  induction moves generalizing last? cursor with
  | nil => exact ⟨last?, kept⟩
  | cons move rest ih =>
      have met := disciplined.moves kept move
      cases went : go move cursor with
      | mk outcome reached =>
          simp only [runs, make_of_go went]
          cases outcome with
          | error failure => exact ih (met.of_error went)
          | ok span? =>
              have advances := met.of_ok went
              cases span? with
              | none => exact ih advances.2
              | some span => exact ih advances.2.2.2

/-- What is reported of a disciplined cursor goes forward. -/
theorem Disciplined.forward (disciplined : Disciplined disturb keeps)
    (kept : keeps last? cursor) (happenings : List (Happening ι)) :
    Forward (reports disturb happenings cursor) ∧
      ∀ last ∈ last?, ∀ span ∈ (reports disturb happenings cursor).filterMap
        Report.span?, last < span := by
  induction happenings generalizing last? cursor with
  | nil =>
      exact ⟨.nil, fun _ _ _ member => absurd member List.not_mem_nil⟩
  | cons happening rest ih =>
      cases happening with
      | disturb event => exact ih (disciplined.disturbed kept event).1
      | move move =>
          have met := disciplined.moves kept move
          cases went : go move cursor with
          | mk outcome reached =>
              simp only [reports, make_of_go went]
              cases outcome with
              | error failure =>
                  obtain ⟨forward, after⟩ := ih (met.of_error went)
                  refine ⟨forward.cons nofun nofun nofun ?_ ?_, after⟩
                  · rintro ⟨_, answered, _⟩
                    cases answered
                  · rintro ⟨_, answered, _⟩
                    cases answered
              | ok span? =>
                  have advances := met.of_ok went
                  have reaches : (⟨move, (Except.ok span?).map move.reach,
                      standing reached⟩ : Report).span? = span? := by
                    simp [Report.span?, Except.map]
                  cases span? with
                  | none =>
                      obtain ⟨isExhausted, keptOn⟩ := advances
                      obtain ⟨forward, after⟩ := ih keptOn
                      refine ⟨forward.cons ?_ ?_ ?_ (fun _ => isExhausted)
                        fun _ => disciplined.ended_of_exhausted keptOn
                          isExhausted rest, ?_⟩
                      · rw [reaches]
                        nofun
                      · rw [reaches]
                        nofun
                      · rw [reaches]
                        nofun
                      · simpa only [List.filterMap_cons, reaches] using after
                  | some span =>
                      obtain ⟨beyond, landed, stands, keptOn⟩ := advances
                      obtain ⟨forward, after⟩ := ih keptOn
                      have notEnded : ¬ (⟨move,
                          (Except.ok (some span)).map move.reach,
                          standing reached⟩ : Report).Ended := by
                        rintro ⟨_, ⟨rfl⟩, none⟩
                        simp at none
                      refine ⟨forward.cons ?_ ?_ ?_
                        (fun ended => absurd ended notEnded)
                        (fun ended => absurd ended notEnded), ?_⟩
                      · rw [reaches]
                        rintro _ ⟨rfl⟩
                        exact after span rfl
                      · rw [reaches]
                        rintro _ ⟨rfl⟩
                        exact landed
                      · rw [reaches]
                        rintro _ ⟨rfl⟩
                        exact stands
                      · intro last isLast later member
                        simp only [List.filterMap_cons, reaches,
                          List.mem_cons] at member
                        rcases member with rfl | further
                        · exact beyond last isLast
                        · exact lt_trans (beyond last isLast)
                            (after span rfl later further)

/-- What is reported of a cursor in order goes forward. -/
theorem Orderly.forward (orderly : Orderly disturb last? cursor)
    (happenings : List (Happening ι)) :
    Forward (reports disturb happenings cursor) :=
  (Orderly.disciplined.forward orderly happenings).1

/-- What is carried by a cursor is in order exactly as it is. -/
theorem Carries.orderly {τ : Type} [Cursor τ] {wrap : σ → τ}
    (carries : Carries wrap) {disturbOuter : ι → τ → τ}
    (disturbs : ∀ event cursor, disturbOuter event (wrap cursor) =
      wrap (disturb event cursor))
    (orderly : Orderly disturb last? cursor) :
    Orderly disturbOuter last? (wrap cursor) := by
  refine ⟨fun last? outer => ∃ inner, outer = wrap inner ∧
    Orderly disturb last? inner, ?_, cursor, rfl, orderly⟩
  constructor
  · rintro last? _ ⟨inner, rfl, orderly⟩ move
    refine (carries.meets_go_iff move).mpr
      ((Orderly.disciplined.moves orderly move).mono ?_
        fun _ reached still => ⟨reached, rfl, still⟩)
    rintro (_ | span) reached advances
    · exact ⟨(carries.standing_eq reached).trans advances.1, reached, rfl,
        advances.2⟩
    · obtain ⟨beyond, landed, stands, keptOn⟩ := advances
      exact ⟨beyond, landed, (carries.standing_eq reached).trans stands,
        reached, rfl, keptOn⟩
  · rintro last? _ ⟨inner, rfl, orderly⟩ isExhausted move
    rw [carries.standing_eq] at isExhausted
    exact (carries.meets_go_iff move).mpr
      (Orderly.disciplined.finished orderly isExhausted move)
  · rintro last? _ ⟨inner, rfl, orderly⟩ event
    obtain ⟨keptOn, same⟩ := Orderly.disciplined.disturbed orderly event
    refine ⟨⟨_, disturbs event inner, keptOn⟩, ?_⟩
    rw [disturbs, carries.standing_eq, carries.standing_eq, same]

/-- What happens to a carried cursor is reported as of the cursor. -/
theorem Carries.reports_eq {τ : Type} [Cursor τ] {wrap : σ → τ}
    (carries : Carries wrap) {disturbOuter : ι → τ → τ}
    (disturbs : ∀ event cursor, disturbOuter event (wrap cursor) =
      wrap (disturb event cursor))
    (happenings : List (Happening ι)) (cursor : σ) :
    reports disturbOuter happenings (wrap cursor) =
      reports disturb happenings cursor := by
  induction happenings generalizing cursor with
  | nil => rfl
  | cons happening rest ih =>
      cases happening with
      | disturb event =>
          simp only [reports, disturbs]
          exact ih _
      | move move =>
          cases went : go move cursor with
          | mk outcome reached =>
              have wentOuter := carries.go_eq cursor move
              rw [went] at wentOuter
              simp only [reports, make_of_go went, make_of_go wentOuter,
                carries.standing_eq, ih]

/-- What happens to a carried cursor leaves the cursor carried. -/
theorem Carries.undergo_eq {τ : Type} [Cursor τ] {wrap : σ → τ}
    (carries : Carries wrap) {disturbOuter : ι → τ → τ}
    (disturbs : ∀ event cursor, disturbOuter event (wrap cursor) =
      wrap (disturb event cursor))
    (happenings : List (Happening ι)) (cursor : σ) :
    undergo disturbOuter happenings (wrap cursor) =
      wrap (undergo disturb happenings cursor) := by
  induction happenings generalizing cursor with
  | nil => rfl
  | cons happening rest ih =>
      cases happening with
      | disturb event =>
          simp only [undergo, disturbs]
          exact ih _
      | move move =>
          cases went : go move cursor with
          | mk outcome reached =>
              have wentOuter := carries.go_eq cursor move
              rw [went] at wentOuter
              simp only [undergo, make_of_go went, make_of_go wentOuter, ih]

/-- A cursor is in order if what carries it is. -/
theorem Carries.orderly_of {τ : Type} [Cursor τ] {wrap : σ → τ}
    (carries : Carries wrap) {disturbOuter : ι → τ → τ}
    (disturbs : ∀ event cursor, disturbOuter event (wrap cursor) =
      wrap (disturb event cursor))
    (orderly : Orderly disturbOuter last? (wrap cursor)) :
    Orderly disturb last? cursor := by
  refine ⟨fun last? inner => Orderly disturbOuter last? (wrap inner), ?_,
    orderly⟩
  constructor
  · intro last? inner orderly move
    refine ((carries.meets_go_iff move).mp
      (Orderly.disciplined.moves orderly move)).imp_answer ?_
    rintro (_ | span) reached advances
    · exact ⟨(carries.standing_eq reached).symm.trans advances.1, advances.2⟩
    · obtain ⟨beyond, landed, stands, keptOn⟩ := advances
      exact ⟨beyond, landed, (carries.standing_eq reached).symm.trans stands,
        keptOn⟩
  · intro last? inner orderly isExhausted move
    rw [← carries.standing_eq] at isExhausted
    exact (carries.meets_go_iff move).mp
      (Orderly.disciplined.finished orderly isExhausted move)
  · intro last? inner orderly event
    obtain ⟨keptOn, same⟩ := Orderly.disciplined.disturbed orderly event
    rw [disturbs, carries.standing_eq, carries.standing_eq] at same
    exact ⟨disturbs event inner ▸ keptOn, same⟩

end Cursor

end PositionalSearch
