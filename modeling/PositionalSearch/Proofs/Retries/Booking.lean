import PositionalSearch.Proofs.Retries.Terms

/-!
# Failures that go on record

A script says which calls fail, and the calls are counted, so the faults that
were met so far can be read off the postings.  A cursor over a term fails just
when one more of them is met, and reports that fault unchanged.
-/

namespace PositionalSearch

namespace Attempt

variable {ε σ α β : Type} {record : σ → List ε}

/-- A failure goes on record, and nothing else does. -/
def Books (record : σ → List ε) (attempt : Attempt ε σ α) (state : σ) : Prop :=
  attempt.Meets state
    (fun _ reached => (record reached).Perm (record state))
    (fun error reached => (record reached).Perm (error :: record state))

/-- What leaves the record as it is may come before. -/
theorem Books.of_perm {attempt : Attempt ε σ α} {state earlier : σ}
    (books : attempt.Books record state)
    (same : (record state).Perm (record earlier)) :
    attempt.Meets state
      (fun _ reached => (record reached).Perm (record earlier))
      (fun error reached => (record reached).Perm (error :: record earlier)) :=
  books.mono (fun _ _ kept => kept.trans same)
    fun error _ more => more.trans (same.cons error)

/-- What follows an attempt that books may depend on what that came to. -/
theorem Meets.books_bind {first : Attempt ε σ α} {rest : α → Attempt ε σ β}
    {state : σ} {answered : α → σ → Prop} {failed : ε → σ → Prop}
    (meets : first.Meets state answered failed)
    (books : first.Books record state)
    (goesOn : ∀ value reached, answered value reached →
      (rest value).Books record reached) :
    (first >>= rest).Books record state := by
  rw [Books, meets_bind]
  refine (meets.and books).mono ?_ fun _ _ both => both.2
  intro value reached both
  exact (goesOn value reached both.1).of_perm both.2

theorem Books.bind {first : Attempt ε σ α} {rest : α → Attempt ε σ β}
    {state : σ} (books : first.Books record state)
    (goesOn : ∀ value reached, (rest value).Books record reached) :
    (first >>= rest).Books record state :=
  books.books_bind books fun value reached _ => goesOn value reached

/-- A change that the record does not show. -/
theorem books_update {change : σ → σ} {state : σ}
    (same : record (change state) = record state) :
    (update change : Attempt ε σ Unit).Books record state :=
  List.Perm.of_eq same

end Attempt

/-! ## Scripts -/

namespace Script

/-- The faults planned for the first occasions of a call. -/
def met (script : Script) (call : PostingsCall) (occasions : Nat) :
    List ReadFault :=
  (List.range occasions).filterMap fun earlier =>
    script.fault? call (earlier + 1)

/-- The fault of the next occasion comes on top. -/
theorem met_succ_perm (script : Script) (call : PostingsCall)
    (occasions : Nat) :
    (script.met call (occasions + 1)).Perm
      ((script.fault? call (occasions + 1)).toList ++
        script.met call occasions) := by
  have added : script.met call (occasions + 1) =
      script.met call occasions ++
        (script.fault? call (occasions + 1)).toList := by
    rw [met, List.range_succ, List.filterMap_append]
    cases isPlanned : script.fault? call (occasions + 1) <;>
      simp [met, isPlanned]
  rw [added]
  exact List.perm_append_comm

/-- Each of them was planned for an occasion of its own. -/
theorem length_met_le (script : Script) (call : PostingsCall)
    (occasions : Nat) :
    (script.met call occasions).length ≤
      script.faults.countP (·.call = call) := by
  let meets (earlier : Nat) : Bool :=
    (script.fault? call (earlier + 1)).isSome
  let planned := script.faults.filter (·.call = call)
  have once : ((List.range occasions).filter meets).map (· + 1)
      |>.Nodup :=
    (List.nodup_range.filter _).map (add_left_injective 1)
  have known : ((List.range occasions).filter meets).map (· + 1) ⊆
      planned.map PlannedFault.occasion := by
    intro occasion member
    obtain ⟨earlier, isMet, rfl⟩ := List.mem_map.mp member
    obtain ⟨fault, isFault⟩ :=
      Option.isSome_iff_exists.mp (List.mem_filter.mp isMet).2
    obtain ⟨plan, isPlan, _⟩ := Option.map_eq_some_iff.mp isFault
    have matched := List.find?_some isPlan
    simp only [Bool.and_eq_true, beq_iff_eq] at matched
    exact List.mem_map.mpr ⟨plan, List.mem_filter.mpr
      ⟨List.mem_of_find?_eq_some isPlan, by simpa using matched.1⟩, matched.2⟩
  calc (script.met call occasions).length
      = ((List.range occasions).filter meets).length := by
        rw [met, List.length_filterMap_eq_countP, List.countP_eq_length_filter]
    _ = (((List.range occasions).filter meets).map (· + 1)).length :=
        (List.length_map _).symm
    _ ≤ (planned.map PlannedFault.occasion).length :=
        (once.subperm known).length_le
    _ = script.faults.countP (·.call = call) := by
        rw [List.length_map, List.countP_eq_length_filter]

/-- No fault is planned for two calls. -/
theorem countP_calls_le (faults : List PlannedFault) :
    faults.countP (·.call = .nextDocument) +
      faults.countP (·.call = .seekDocument) +
      faults.countP (·.call = .nextPosition) ≤ faults.length := by
  induction faults with
  | nil => exact Nat.le_refl _
  | cons first rest ih =>
      simp only [List.countP_cons, List.length_cons]
      cases first.call <;> simp <;> omega

end Script

/-! ## Scripted postings -/

namespace ScriptedPostings

/-- The faults that the calls made so far have met, call by call. -/
def hits (postings : ScriptedPostings) : List ReadFault :=
  [.nextDocument, .seekDocument, .nextPosition].flatMap fun call =>
    postings.script.met call (postings.calls.count call)

/-- No more faults are met than are planned. -/
theorem length_hits_le (postings : ScriptedPostings) :
    postings.hits.length ≤ postings.script.faults.length := by
  have ofCall := fun call =>
    postings.script.length_met_le call (postings.calls.count call)
  have all := Script.countP_calls_le postings.script.faults
  have first := ofCall .nextDocument
  have second := ofCall .seekDocument
  have third := ofCall .nextPosition
  simp only [hits, List.flatMap_cons, List.flatMap_nil, List.append_nil,
    List.length_append]
  omega

/-- One more call meets the fault that was planned for it. -/
theorem hits_add_perm (postings : ScriptedPostings) {call : PostingsCall}
    (reads : call ≠ .close) :
    (hits { postings with calls := postings.calls.add call }).Perm
      ((postings.script.fault? call
          ((postings.calls.add call).count call)).toList ++ postings.hits) := by
  refine List.perm_iff_count.mpr fun fault => ?_
  have more := (postings.script.met_succ_perm call
    (postings.calls.count call)).count_eq fault
  simp only [hits, List.flatMap_cons, List.flatMap_nil, List.append_nil,
    List.count_append] at more ⊢
  cases call with
  | nextDocument => simp only [CallCounts.add, CallCounts.count] at *; omega
  | seekDocument => simp only [CallCounts.add, CallCounts.count] at *; omega
  | nextPosition => simp only [CallCounts.add, CallCounts.count] at *; omega
  | close => exact absurd rfl reads

/-- A call that could be made on the stored postings books its fault. -/
theorem books_perform {α : Type} {call : PostingsCall} (reads : call ≠ .close)
    {plain : Attempt ReadFault StoredPostings α} {postings : ScriptedPostings}
    {answered : α → StoredPostings → Prop}
    (meets : plain.Meets postings.stored answered (fun _ _ => False)) :
    (perform call plain).Books hits postings := by
  obtain ⟨value, stored, went, _⟩ := meets.exists_ok
  have more := postings.hits_add_perm reads
  simp only [Attempt.Books, Attempt.Meets, Attempt.run, perform]
  cases planned : postings.script.fault? call
      ((postings.calls.add call).count call) with
  | some fault =>
      rw [planned] at more
      exact more
  | none =>
      rw [planned] at more
      rw [went]
      exact more

/-- So does a move between documents. -/
theorem books_performMove {call : PostingsCall} (reads : call ≠ .close)
    {plain : Attempt ReadFault StoredPostings (Option DocId)}
    {postings : ScriptedPostings}
    {answered : Option DocId → StoredPostings → Prop}
    (meets : plain.Meets postings.stored answered (fun _ _ => False)) :
    (performMove call plain).Books hits postings :=
  (books_perform reads meets).bind fun _ _ =>
    (Attempt.books_update rfl).bind fun _ _ => List.Perm.refl _

variable {faults : List PlannedFault} {postings : ScriptedPostings}
  {current? : Option PostedDocument} {taken : Nat}
  {rest : List PostedDocument}

theorem Stands.books_nextDocument
    (stands : postings.Stands faults current? taken rest) :
    (Postings.nextDocument : Attempt ReadFault ScriptedPostings _).Books hits
      postings :=
  books_performMove (show PostingsCall.nextDocument ≠ .close from nofun) ((StoredPostings.recites.nextDocument
    stands.stored).imp_failure fun _ _ failed => failed.1)

theorem Stands.books_nextPosition {posted : PostedDocument}
    (stands : postings.Stands faults (some posted) taken rest)
    (inside : taken < posted.positions.size) :
    (Postings.nextPosition : Attempt ReadFault ScriptedPostings _).Books hits
      postings :=
  books_perform (show PostingsCall.nextPosition ≠ .close from nofun) ((StoredPostings.recites.nextPosition
    stands.stored inside).imp_failure fun _ _ failed => failed.1)

end ScriptedPostings

/-! ## Terms -/

namespace Term

/-- The failures that a term has reported: the faults its postings have met. -/
def hits (term : Term ScriptedPostings) : List Failure :=
  term.postings.hits.map .unreadable

variable {term : Term ScriptedPostings} {faults : List PlannedFault}
  {posted : PostedDocument} {rest : List PostedDocument} {left : Visits}

theorem books_reading {α : Type} {call : Attempt ReadFault ScriptedPostings α}
    (books : call.Books ScriptedPostings.hits term.postings) :
    (reading call).Books hits term := by
  simp only [Attempt.Books, reading, Attempt.meets_mapFailure,
    Attempt.meets_within]
  exact books.mono (fun _ _ same => same.map _) fun _ _ more => more.map _

/-- An announced position is taken, or what fails is booked. -/
theorem books_takePosition
    (reads : Reads (ScriptedPostings.Stands faults) posted rest term)
    (announced : term.taken < posted.announced) :
    (takePosition posted.doc).Books hits term :=
  (books_reading (reads.postings.books_nextPosition
    (Nat.lt_of_lt_of_le announced (Nat.min_le_left _ _)))).bind fun _ _ =>
      (Attempt.books_update rfl).bind fun _ _ => List.Perm.refl _

/-- To go on in a document books what fails. -/
theorem books_advance (term : Term ScriptedPostings) {posted : PostedDocument}
    {rest : List PostedDocument}
    (reads : Reads (ScriptedPostings.Stands faults) posted rest term) :
    (advance posted.doc).Books hits term := by
  rw [advance, Attempt.Books]
  simp only [Attempt.meets_bind, Attempt.meets_look, reads.frequency]
  split
  · rename_i announced
    exact books_takePosition reads announced
  · have moved := (ScriptedPostings.recites faults).nextDocument reads.postings
    have booked := books_reading reads.postings.books_nextDocument
    simp only [reading, Attempt.meets_bind, Attempt.meets_mapFailure,
      Attempt.meets_within, Attempt.Books] at booked ⊢
    refine (moved.and booked).mono ?_ fun _ _ both => both.2
    rintro doc? postings ⟨⟨rfl, still⟩, same⟩
    cases rest with
    | nil => exact same
    | cons later others =>
        have forward : posted.doc < later.doc :=
          List.rel_of_pairwise_cons
            ((ScriptedPostings.recites faults).ascending reads.postings)
            List.mem_cons_self
        simp only [List.head?_cons, Option.map_some, forward, ↓reduceDIte,
          Attempt.meets_bind, Attempt.meets_update]
        have := DocId.room_lt_room forward
        exact (books_advance (standAt later.doc
          { term with postings := postings })
          ⟨still, (ScriptedPostings.recites faults).frequency still,
            rfl⟩).of_perm same
termination_by posted.doc.room

/-- So does to arrive in a document. -/
theorem books_arrive (term : Term ScriptedPostings)
    {later : List PostedDocument}
    (still : ScriptedPostings.Stands faults term.postings later.head? 0
      later.tail) :
    (arrive (later.head?.map PostedDocument.doc)).Books hits term := by
  cases later with
  | nil => exact List.Perm.refl _
  | cons posted rest =>
      exact books_advance (standAt posted.doc term)
        ⟨still, (ScriptedPostings.recites faults).frequency still, rfl⟩

/-- A term that goes on books what fails. -/
theorem books_onward (holds : Holds (ScriptedPostings.Stands faults) left term)
    (goes : term.standing.planNext = .ok true) :
    onward.Books hits term := by
  have reads : ∀ doc : DocId, term.standing.doc = .ok doc →
      onward term = advance doc term → onward.Books hits term := by
    intro doc isIn same
    obtain ⟨posted, rest, reads, rfl, _⟩ := holds.reads doc isIn
    exact (Attempt.meets_congr same).mpr (books_advance term reads)
  cases isStanding : term.standing with
  | unstarted =>
      unfold Holds at holds
      rw [isStanding] at holds
      obtain ⟨_, _, rest, still, _⟩ := holds
      refine (Attempt.meets_congr (show onward term =
        (do arrive (← reading Postings.nextDocument) :
          Attempt Failure (Term ScriptedPostings) _) term by
        simp only [onward, isStanding])).mpr ?_
      have moved := (ScriptedPostings.recites faults).nextDocument still
      have booked := books_reading still.books_nextDocument
      simp only [reading, Attempt.meets_bind, Attempt.meets_mapFailure,
        Attempt.meets_within, Attempt.Books] at booked ⊢
      refine (moved.and booked).mono ?_ fun _ _ both => both.2
      rintro doc? postings ⟨⟨rfl, still⟩, same⟩
      exact (books_arrive { term with postings := postings }
        still).of_perm same
  | on span =>
      exact reads span.doc (by rw [isStanding]; rfl)
        (by simp only [onward, isStanding])
  | atDocument doc =>
      exact reads doc (by rw [isStanding]; rfl)
        (by simp only [onward, isStanding])
  | exhausted =>
      rw [isStanding] at goes
      cases goes
  | closed =>
      rw [isStanding] at goes
      cases goes

/-- A term fails to go on just when it meets a fault, and reports that one. -/
theorem books_next (holds : Holds (ScriptedPostings.Stands faults) left term) :
    Attempt.Books hits Cursor.next term := by
  refine planned.meets_next ?_ (fun _ => .refl _) (books_onward holds)
  intro isClosed
  change term.standing = .closed at isClosed
  simp only [Holds, isClosed] at holds

end Term

end PositionalSearch
