import PositionalSearch.Proofs.Exact.Basic
import PositionalSearch.Proofs.InStep.Leaves

/-!
# Leaves are exact

A leaf on a span has taken an entry of its listing or a position of its term,
so it has payloads to show.
-/

namespace PositionalSearch

open Cursor (Arrives Candid Reliable)

variable {σ π : Type} [Cursor σ]

/-- What stands on a span is asked for what belongs to the span. -/
theorem Standing.requireSpan_bind_on {α : Type} {standing : Standing}
    {span : Span} (isOn : standing = .on span)
    (rest : Unit → Except Failure α) :
    (standing.requireSpan >>= rest) = rest () := by
  rw [isOn]
  rfl

/-- What is candid wherever it stands arrives. -/
theorem Cursor.Candid.reliable (candid : Candid fun _ : σ => True) :
    Reliable fun _ : σ => True :=
  fun _ _ move => (candid.moves trivial move).imp_failure fun _ _ _ => trivial

namespace Listed

/-- On a span, the cursor has an entry behind it. -/
def Stocked (cursor : Listed) : Prop :=
  ∀ span, cursor.standing = .on span → 0 < cursor.offset

theorem arrives_standAt (place : Nat) (cursor : Listed) :
    Arrives Stocked (standAt place) cursor := by
  simp only [Arrives, Attempt.Meets, Attempt.run, standAt]
  cases cursor.listing.entry? place with
  | none => exact ⟨by rintro _ ⟨⟩, rfl⟩
  | some entry => exact ⟨fun _ _ => Nat.succ_pos _, rfl⟩

theorem reliable : Reliable Stocked :=
  planned.reliable (fun _ _ => arrives_standAt _ _)
    fun _ _ => arrives_standAt _ _

theorem Stocked.exists_payloads {cursor : Listed} (stocked : cursor.Stocked)
    {span : Span} (isOn : cursor.standing = .on span) :
    ∃ stored, Cursor.payloads cursor = .ok stored := by
  cases offset : cursor.offset with
  | zero => exact absurd offset (Nat.ne_of_gt (stocked span isOn))
  | succ place =>
      have isStored : cursor.stored = .ok
          ((cursor.listing.entry? place).bind Entry.payload?).toList := by
        rw [stored, offset]
      exact ⟨_, (Standing.requireSpan_bind_on isOn _).trans isStored⟩

end Listed

namespace Probe

/-- On a span, the probe has an entry behind it. -/
def Stocked (probe : Probe) : Prop :=
  ∀ span, probe.standing = .on span → 0 < probe.offset

theorem arrives_stepOn (probe : Probe) : Arrives Stocked stepOn probe := by
  simp only [Arrives, Attempt.Meets, Attempt.run, stepOn]
  cases probe.listing.entry? probe.offset with
  | some entry => exact ⟨fun _ _ => Nat.succ_pos _, rfl⟩
  | none =>
      cases probe.fault? with
      | none => exact ⟨by rintro _ ⟨⟩, rfl⟩
      | some fault => trivial

theorem reliable : Reliable Stocked := by
  intro probe stocked move
  cases move with
  | next =>
      simp only [Cursor.go, Cursor.next, Arrives, Attempt.meets_bind,
        Attempt.meets_update, Attempt.meets_look]
      cases plan : probe.standing.planNext with
      | error failure => trivial
      | ok goes =>
          cases goes with
          | false => exact ⟨stocked, Standing.planNext_eq_false_iff.mp plan⟩
          | true => exact arrives_stepOn _
  | seek target =>
      simp only [Cursor.go, Cursor.seek, Arrives, Attempt.meets_bind,
        Attempt.meets_update, Attempt.meets_look]
      cases plan : probe.standing.planSeek target with
      | error failure => trivial
      | ok choice =>
          cases choice with
          | finished =>
              exact ⟨stocked, Standing.planSeek_eq_finished_iff.mp plan⟩
          | stepOn => exact arrives_stepOn _
          | forward => exact arrives_stepOn _

theorem Stocked.exists_payloads {probe : Probe} (stocked : probe.Stocked)
    {span : Span} (isOn : probe.standing = .on span) :
    ∃ stored, Cursor.payloads probe = .ok stored := by
  cases offset : probe.offset with
  | zero => exact absurd offset (Nat.ne_of_gt (stocked span isOn))
  | succ place =>
      have isStored : probe.stored = .ok
          ((probe.listing.entry? place).bind Entry.payload?).toList := by
        rw [stored, offset]
      exact ⟨_, (Standing.requireSpan_bind_on isOn _).trans isStored⟩

end Probe

end PositionalSearch
