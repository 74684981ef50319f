import PositionalSearch.Proofs.Occurrences
import PositionalSearch.Proofs.Retries.Exclusions

/-!
# Exclusions of terms

The span of a token is one position long, so the tokens of two terms overlap
where they are at one position of one document.  But at the last position
there is, a span cannot stop one position on: it is empty, and nothing
overlaps it.
-/

namespace PositionalSearch

/-! ## Tokens that overlap -/

/-- The last position of a document. -/
def lastPosition : Position := 4294967295

namespace Occurrence

/-- Tokens overlap where they are the same, but for the last position. -/
theorem conflicts_iff {first second : Occurrence} :
    Clash.plain.Conflicts first.span second.span ↔
      second.span = first.span ∧ first.position ≠ lastPosition := by
  have firstBound := first.position.toNat_lt
  rw [span_eq_iff, ne_eq, ← UInt32.toNat_inj, ← UInt32.toNat_inj,
    Clash.plain, Clash.Conflicts]
  simp only [span, Span.doc_ofToken, Span.start_ofToken,
    Span.toNat_stop_ofToken, UInt32.size, lastPosition, UInt32.reduceToNat]
  constructor
  · rintro ⟨sameDoc, starts, stops⟩
    exact ⟨⟨sameDoc, by omega⟩, by omega⟩
  · rintro ⟨⟨sameDoc, samePosition⟩, notLast⟩
    exact ⟨sameDoc, by omega, by omega⟩

end Occurrence

namespace Query

/--
A term without another answers, in ascending order and each of them once, its
tokens that are not tokens of the other one, and those at the last position of
a document.
-/
theorem without_term_drains {kept removed : List Occurrence}
    (few : Occurrence.Few kept) :
    ∃ answered : List Span,
      Walk.drain (without .plain (.term kept) (.term removed)).openTree =
        .ok answered ∧
      answered.Pairwise (· < ·) ∧
      ∀ span, span ∈ answered ↔ ∃ given ∈ kept, given.span = span ∧
        ((∀ other ∈ removed, other.span ≠ span) ∨
          given.position = lastPosition) := by
  have faultFree : (without .plain (.term kept) (.term removed)).FaultFree :=
    .without _ (.term kept) (.term removed)
  refine ⟨_, drain_openTree faultFree,
    List.pairwise_map.mpr (ordered_visits _), fun span => ?_⟩
  rw [visits, Clash.map_span_spare, List.mem_filter, decide_eq_true_eq]
  simp only [visits]
  rw [few.mem_map_span_visits]
  constructor
  · rintro ⟨⟨given, member, rfl⟩, free⟩
    refine ⟨given, member, rfl, or_iff_not_imp_right.mpr ?_⟩
    intro notLast other isOther same
    -- What is in conflict with a token is so with what its term yields.
    obtain ⟨barrier, isBarrier, conflicts⟩ := Clash.exists_conflict isOther
      (Occurrence.conflicts_iff.mpr ⟨same, notLast⟩)
    exact free _ (List.mem_map_of_mem isBarrier) conflicts
  · rintro ⟨given, member, rfl, apart⟩
    refine ⟨⟨given, member, rfl⟩, fun barrier isBarrier conflicts => ?_⟩
    obtain ⟨visit, isVisit, rfl⟩ := List.mem_map.mp isBarrier
    obtain ⟨other, latest, rfl⟩ :=
      Occurrence.exists_latest_of_mem_visits isVisit
    obtain ⟨same, notLast⟩ := Occurrence.conflicts_iff.mp conflicts
    exact apart.elim (fun absent => absent other latest.mem same) notLast

/-- Tokens of two documents, one of them given twice, one at the last place. -/
def farTokens : List Occurrence :=
  [⟨1, lastPosition, none⟩, ⟨1, 3, none⟩, ⟨2, 0, none⟩, ⟨1, 3, none⟩]

/-- Of the tokens that both terms have only the last one is answered. -/
theorem farTokens_without_drains :
    Occurrence.Few farTokens ∧
      Walk.drain (without .plain (.term farTokens)
        (.term [⟨1, lastPosition, none⟩, ⟨1, 3, none⟩])).openTree =
          .ok [.ofToken 1 lastPosition, .ofToken 2 0] ∧
      ¬ ∃ given ∈ farTokens, given.span = .ofToken 1 3 ∧
        ((∀ other ∈ [⟨1, lastPosition, none⟩, ⟨1, 3, none⟩],
          Occurrence.span other ≠ .ofToken 1 3) ∨
            given.position = lastPosition) := by
  have drained : Walk.drain (without .plain (.term farTokens)
      (.term [⟨1, lastPosition, none⟩, ⟨1, 3, none⟩])).openTree =
        .ok [.ofToken 1 lastPosition, .ofToken 2 0] := by
    cbv
  have few : Occurrence.Few farTokens :=
    Occurrence.few_of_length_le (by decide)
  obtain ⟨answered, isDrained, _, mem_answered⟩ := @without_term_drains
    farTokens [⟨1, lastPosition, none⟩, ⟨1, 3, none⟩] few
  rw [drained, Except.ok.injEq] at isDrained
  subst isDrained
  exact ⟨few, drained, (mem_answered _).not.mp (by decide)⟩

/-- A term without itself has still a token at the last position. -/
theorem last_token_outlasts_itself :
    Occurrence.Few [⟨1, lastPosition, none⟩] ∧
      Walk.drain (without .plain (.term [⟨1, lastPosition, none⟩])
        (.term [⟨1, lastPosition, none⟩])).openTree =
          .ok [.ofToken 1 lastPosition] :=
  ⟨Occurrence.few_of_length_le (by decide), by cbv⟩

end Query

end PositionalSearch
