import Mathlib
import PositionalSearch.Proofs.HeadQueue

/-!
# What a queue of heads holds

A queue is changed by adding a head, by taking the least one out, by putting
another in its place, and by clearing it.  An account runs beside the queue and
books the heads that went in and those that came out.  After any changes to an
empty queue the books balance, and the queue answers for what it holds: the
least head is first, and taking heads out until there are none sorts them.
-/

namespace PositionalSearch

namespace HeadQueue

variable {ι : Type}

/-- The heads of a queue, in no order. -/
def held (queue : HeadQueue ι) : Multiset (Head ι) := queue.heads.toList

theorem held_empty : (empty : HeadQueue ι).held = 0 := rfl

/-- A queue that holds a head has a first one. -/
theorem size_pos_iff (queue : HeadQueue ι) :
    0 < queue.heads.size ↔ queue.held ≠ 0 := by
  simp [held, Array.size_pos_iff]

theorem least?_eq_none_iff (queue : HeadQueue ι) :
    queue.least? = none ↔ queue.held = 0 := by
  simp [least?, held]

theorem mem_held_of_least? {queue : HeadQueue ι} {least : Head ι}
    (first : queue.least? = some least) : least ∈ queue.held := by
  obtain ⟨filled, rfl⟩ := Array.getElem?_eq_some_iff.mp first
  exact Multiset.mem_coe.mpr (Array.getElem_mem_toList filled)

/-- The least head beside the others. -/
theorem cons_held_tail {queue : HeadQueue ι} {least : Head ι}
    (first : queue.least? = some least) :
    least ::ₘ (queue.heads.toList.tail : Multiset (Head ι)) = queue.held := by
  obtain ⟨⟨list⟩⟩ := queue
  cases list with
  | nil => simp [least?] at first
  | cons head rest =>
      have same : head = least := by simpa [least?] using first
      subst same
      rfl

variable [LinearOrder ι]

theorem held_push (queue : HeadQueue ι) (head : Head ι) :
    (queue.push head).held = head ::ₘ queue.held :=
  Multiset.coe_eq_coe.mpr (push_perm queue head)

theorem cons_held_replaceLeast {queue : HeadQueue ι} {least : Head ι}
    (first : queue.least? = some least) (filled : 0 < queue.heads.size)
    (head : Head ι) :
    least ::ₘ (queue.replaceLeast filled head).held =
      head ::ₘ queue.held := by
  have exchanged : (queue.replaceLeast filled head).held =
      head ::ₘ (queue.heads.toList.tail : Multiset (Head ι)) :=
    Multiset.coe_eq_coe.mpr (replaceLeast_perm queue filled head)
  rw [exchanged, Multiset.cons_swap, cons_held_tail first]

theorem cons_held_dropLeast {queue : HeadQueue ι} {least : Head ι}
    (first : queue.least? = some least) :
    least ::ₘ queue.dropLeast.held = queue.held := by
  have dropped : queue.dropLeast.held =
      (queue.heads.toList.tail : Multiset (Head ι)) :=
    Multiset.coe_eq_coe.mpr (dropLeast_perm queue)
  rw [dropped, cons_held_tail first]

theorem pop?_eq_some_iff {queue rest : HeadQueue ι} {least : Head ι} :
    queue.pop? = some (least, rest) ↔
      queue.least? = some least ∧ queue.dropLeast = rest := by
  simp [pop?, Option.map_eq_some_iff]

theorem replaceLeast?_eq_some_iff {queue next : HeadQueue ι}
    {head : Head ι} :
    queue.replaceLeast? head = some next ↔
      ∃ filled, queue.replaceLeast filled head = next := by
  simp [replaceLeast?]

/-! ## The least head first -/

/-- A queue answers for the heads it holds. -/
structure Prioritizes (queue : HeadQueue ι) : Prop where
  least_none : queue.least? = none ↔ queue.held = 0
  least_some : ∀ least, queue.least? = some least ↔
    least ∈ queue.held ∧ ∀ head ∈ queue.held, least ≤ head
  pop_none : queue.pop? = none ↔ queue.held = 0
  /-- To pop is to take out the least head and nothing else. -/
  pop_some : ∀ least rest, queue.pop? = some (least, rest) →
    queue.least? = some least ∧ least ::ₘ rest.held = queue.held
  replace_none : ∀ head, queue.replaceLeast? head = none ↔ queue.held = 0
  /-- To replace is to take out the least head and to add another. -/
  replace_some : ∀ head next, queue.replaceLeast? head = some next →
    ∃ least, queue.least? = some least ∧
      least ::ₘ next.held = head ::ₘ queue.held
  /-- Popping until none is left yields every head held. -/
  drains : (queue.drain : Multiset (Head ι)) = queue.held
  sorts : queue.drain.Pairwise (· ≤ ·)

theorem drain_eq_nil {queue : HeadQueue ι} (popped : queue.pop? = none) :
    queue.drain = [] := by
  unfold drain
  split
  · rfl
  · simp_all

theorem drain_eq_cons {queue rest : HeadQueue ι} {least : Head ι}
    (popped : queue.pop? = some (least, rest)) :
    queue.drain = least :: rest.drain := by
  rw [drain]
  split
  · simp_all
  · simp_all

/-- A drained queue yields the heads it held, the least first. -/
theorem Heaped.drain_held {queue : HeadQueue ι} (heaped : queue.Heaped) :
    (queue.drain : Multiset (Head ι)) = queue.held ∧
      queue.drain.Pairwise (· ≤ ·) := by
  -- Popping leaves one head less, and the rest is heaped again.
  induction left : queue.held.card generalizing queue with
  | zero =>
      have none : queue.held = 0 := Multiset.card_eq_zero.mp left
      have popped : queue.pop? = Option.none := by
        simp [pop?, (least?_eq_none_iff queue).mpr none]
      rw [drain_eq_nil popped, none]
      exact ⟨rfl, .nil⟩
  | succ fewer ih =>
      have some : queue.least? ≠ none := by
        intro none
        simp [(least?_eq_none_iff queue).mp none] at left
      obtain ⟨least, first⟩ := Option.ne_none_iff_exists'.mp some
      have remaining := cons_held_dropLeast first
      have fewerLeft : queue.dropLeast.held.card = fewer := by
        rw [← remaining, Multiset.card_cons] at left
        exact Nat.succ_injective left
      obtain ⟨drains, sorts⟩ := ih (heaped_dropLeast heaped) fewerLeft
      rw [drain_eq_cons (pop?_eq_some_iff.mpr ⟨first, rfl⟩)]
      refine ⟨by rw [← Multiset.cons_coe, drains, remaining],
        .cons (fun head later => ?_) sorts⟩
      have member : head ∈ queue.dropLeast.held := by
        rw [← drains]
        exact Multiset.mem_coe.mpr later
      have kept : head ∈ queue.held := by
        rw [← remaining]
        exact Multiset.mem_cons_of_mem member
      exact heaped.least_le first
        (Array.mem_toList_iff.mp (Multiset.mem_coe.mp kept))

/-- The first head of a heap is the only one that is least. -/
theorem Heaped.least?_eq_some_iff {queue : HeadQueue ι}
    (heaped : queue.Heaped) (least : Head ι) :
    queue.least? = some least ↔
      least ∈ queue.held ∧ ∀ head ∈ queue.held, least ≤ head := by
  have notAfter {first : Head ι} (isFirst : queue.least? = some first)
      {head : Head ι} (member : head ∈ queue.held) : first ≤ head :=
    heaped.least_le isFirst
      (Array.mem_toList_iff.mp (Multiset.mem_coe.mp member))
  constructor
  · intro first
    exact ⟨mem_held_of_least? first, fun head member =>
      notAfter first member⟩
  · rintro ⟨member, isLeast⟩
    cases first : queue.least? with
    | none =>
        rw [(least?_eq_none_iff queue).mp first] at member
        exact absurd member (Multiset.notMem_zero least)
    | some head =>
        exact congrArg some (le_antisymm (notAfter first member)
          (isLeast head (mem_held_of_least? first)))

theorem Heaped.prioritizes {queue : HeadQueue ι} (heaped : queue.Heaped) :
    queue.Prioritizes where
  least_none := least?_eq_none_iff queue
  least_some := heaped.least?_eq_some_iff
  pop_none := by
    rw [← least?_eq_none_iff]
    simp [pop?]
  pop_some least rest popped := by
    obtain ⟨first, rfl⟩ := pop?_eq_some_iff.mp popped
    exact ⟨first, cons_held_dropLeast first⟩
  replace_none head := by
    rw [replaceLeast?, dite_eq_right_iff]
    simp [size_pos_iff]
  replace_some head next replaced := by
    obtain ⟨filled, rfl⟩ := replaceLeast?_eq_some_iff.mp replaced
    have first : queue.least? = some queue.heads[0] :=
      Array.getElem?_eq_getElem filled
    exact ⟨_, first, cons_held_replaceLeast first filled head⟩
  drains := heaped.drain_held.1
  sorts := heaped.drain_held.2

/-! ## Accounts -/

/-- What is done to a queue. -/
inductive Change (ι : Type) where
  | push (head : Head ι)
  | pop
  | replace (head : Head ι)
  | clear

/-- A queue, with the heads that went in and those that came out. -/
structure Account (ι : Type) where
  queue : HeadQueue ι
  added : Multiset (Head ι)
  removed : Multiset (Head ι)

namespace Account

/-- The account of an empty queue. -/
def opened : Account ι := ⟨.empty, 0, 0⟩

/--
Change the queue and book it: what a pop answers came out, and so did the first
head where another is put in its place.  An empty queue has none to replace.
-/
def change (account : Account ι) : Change ι → Option (Account ι)
  | .push head =>
      some { account with
        queue := account.queue.push head
        added := head ::ₘ account.added }
  | .pop =>
      some (account.queue.pop?.elim account fun popped =>
        { account with
          queue := popped.2
          removed := popped.1 ::ₘ account.removed })
  | .replace head =>
      (account.queue.replaceLeast? head).bind fun queue =>
        account.queue.least?.map fun least =>
          ⟨queue, head ::ₘ account.added, least ::ₘ account.removed⟩
  | .clear =>
      some { account with
        queue := .empty
        removed := account.queue.held + account.removed }

/-- Make changes to an empty queue, in their order. -/
def run (changes : List (Change ι)) : Option (Account ι) :=
  changes.foldlM change opened

/-- The queue is heaped, and holds what went in and did not come out. -/
structure Balanced (account : Account ι) : Prop where
  heaped : account.queue.Heaped
  balance : account.queue.held + account.removed = account.added

theorem balanced_opened : (opened : Account ι).Balanced :=
  ⟨heaped_empty, rfl⟩

/-- Only to replace a head of an empty queue is refused. -/
theorem change_eq_none_iff (account : Account ι) (change : Change ι) :
    account.change change = none ↔
      (∃ head, change = .replace head) ∧ account.queue.held = 0 := by
  cases change with
  | push head => simp [Account.change]
  | pop => simp [Account.change]
  | clear => simp [Account.change]
  | replace head =>
      rw [Account.change, Option.bind_eq_none_iff]
      constructor
      · intro refused
        refine ⟨⟨head, rfl⟩, ?_⟩
        cases first : account.queue.least? with
        | none => exact (least?_eq_none_iff _).mp first
        | some least =>
            obtain ⟨filled, _⟩ := Array.getElem?_eq_some_iff.mp first
            have := refused _ (replaceLeast?_eq_some_iff.mpr ⟨filled, rfl⟩)
            simp [first] at this
      · rintro ⟨-, holdsNone⟩ queue replaced
        rw [(least?_eq_none_iff _).mpr holdsNone]
        rfl

/-- A change keeps the balance. -/
theorem Balanced.change {account next : Account ι}
    (balanced : account.Balanced) {change : Change ι}
    (changed : account.change change = some next) : next.Balanced := by
  obtain ⟨heaped, balance⟩ := balanced
  cases change with
  | push head =>
      cases changed
      refine ⟨heaped_push heaped head, ?_⟩
      rw [held_push, Multiset.cons_add, balance]
  | pop =>
      cases popped : account.queue.pop? with
      | none =>
          simp only [Account.change, popped, Option.elim_none] at changed
          cases changed
          exact ⟨heaped, balance⟩
      | some answer =>
          obtain ⟨least, rest⟩ := answer
          simp only [Account.change, popped, Option.elim_some] at changed
          cases changed
          obtain ⟨first, rfl⟩ := pop?_eq_some_iff.mp popped
          refine ⟨heaped_dropLeast heaped, ?_⟩
          rw [Multiset.add_cons, ← Multiset.cons_add,
            cons_held_dropLeast first, balance]
  | replace head =>
      obtain ⟨queue, replaced, booked⟩ := Option.bind_eq_some_iff.mp changed
      obtain ⟨least, first, rfl⟩ := Option.map_eq_some_iff.mp booked
      obtain ⟨filled, rfl⟩ := replaceLeast?_eq_some_iff.mp replaced
      refine ⟨heaped_replaceLeast heaped filled head, ?_⟩
      rw [Multiset.add_cons, ← Multiset.cons_add,
        cons_held_replaceLeast first filled head, Multiset.cons_add, balance]
  | clear =>
      cases changed
      refine ⟨heaped_empty, ?_⟩
      rw [held_empty, zero_add, balance]

/-- Any changes keep the balance. -/
theorem Balanced.foldlM {account last : Account ι}
    (balanced : account.Balanced) {changes : List (Change ι)}
    (changed : changes.foldlM Account.change account = some last) :
    last.Balanced := by
  induction changes generalizing account with
  | nil =>
      cases changed
      exact balanced
  | cons change changes ih =>
      obtain ⟨next, first, rest⟩ := Option.bind_eq_some_iff.mp changed
      exact ih (balanced.change first) rest

/--
After any changes to an empty queue, it holds the heads that went in without
those that came out, the least head is first in all that the queue does, and
every change but one can be made: to replace a head where there is none.
-/
theorem run_prioritizes {changes : List (Change ι)} {account : Account ι}
    (reached : run changes = some account) :
    account.queue.held + account.removed = account.added ∧
      account.queue.Prioritizes ∧
      ∀ change, account.change change = none ↔
        (∃ head, change = .replace head) ∧ account.queue.held = 0 :=
  have balanced : account.Balanced := balanced_opened.foldlM reached
  ⟨balanced.balance, balanced.heaped.prioritizes, change_eq_none_iff account⟩

/-- Heads on one span and others, replaced by lesser, equal and greater ones. -/
def exchanges : List (Change Nat) :=
  [.push ⟨.ofToken 4 1, 0⟩, .pop, .pop, .push ⟨.ofToken 1 9, 2⟩, .clear,
    .push ⟨.ofToken 2 0, 1⟩, .push ⟨.ofToken 1 9, 2⟩, .push ⟨.ofToken 1 9, 0⟩,
    .push ⟨.ofToken 3 0, 4⟩, .replace ⟨.ofToken 1 2, 0⟩,
    .replace ⟨.ofToken 1 2, 0⟩, .replace ⟨.ofToken 2 7, 0⟩]

/-- The exchanges are made; the queue then holds the heads that are left. -/
theorem exchanges_prioritize : ∃ account, run exchanges = some account ∧
    account.queue.drain = [⟨.ofToken 1 9, 2⟩, ⟨.ofToken 2 0, 1⟩,
      ⟨.ofToken 2 7, 0⟩, ⟨.ofToken 3 0, 4⟩] ∧
    account.queue.held + account.removed = account.added ∧
    account.queue.Prioritizes ∧
    ∀ change, account.change change = none ↔
      (∃ head, change = .replace head) ∧ account.queue.held = 0 := by
  have drained : (run exchanges).map (·.queue.drain) =
      some [⟨.ofToken 1 9, 2⟩, ⟨.ofToken 2 0, 1⟩, ⟨.ofToken 2 7, 0⟩,
        ⟨.ofToken 3 0, 4⟩] := by
    decide +kernel
  obtain ⟨account, reached, drains⟩ := Option.map_eq_some_iff.mp drained
  exact ⟨account, reached, drains, run_prioritizes reached⟩

end Account

end HeadQueue

end PositionalSearch
