import RobinHood.Proofs.Order
import RobinHood.Table.Probe

/-!
Where a walk ends. In an ordered ring it ends at the first accepted value on the path of its hash,
or at a slot that gives way, and then no slot of the table holds an accepted value of that hash.
-/

namespace RobinHood

variable {α : Type}

def Cell.matches (hash : UInt64) (accept : α → Bool) (cell : Cell α) : Bool :=
  cell.hash == hash && accept cell.value

theorem Cell.matches_iff {hash : UInt64} {accept : α → Bool} {cell : Cell α} :
    cell.matches hash accept = true ↔ cell.hash = hash ∧ accept cell.value = true := by
  simp [Cell.matches]

namespace Table

variable {table : Table α} {hash : UInt64} {accept : α → Bool}

/-- All slots before `distance` on the path of a hash are taken by values that do not give way. -/
def Passed (table : Table α) (hash : UInt64) (distance : Nat) : Prop :=
  ∀ steps < distance, steps < table.reach (table.after (table.home hash) steps)

structure FoundAt (table : Table α) (hash : UInt64) (accept : α → Bool) (index distance : Nat) :
    Prop where
  index_eq : index = table.after (table.home hash) distance
  displacement_eq : table.displacement hash index = distance
  cell : ∃ cell, table.slot index = some cell ∧ cell.matches hash accept = true
  first : ∀ steps < distance, ∀ cell,
    table.slot (table.after (table.home hash) steps) = some cell →
      cell.matches hash accept = false
  passed : table.Passed hash distance

structure VacantAt (table : Table α) (hash : UInt64) (accept : α → Bool) (index distance : Nat) :
    Prop where
  index_eq : index = table.after (table.home hash) distance
  round : distance ≤ table.slotCount
  passed : table.Passed hash distance
  gives : table.reach index ≤ distance
  absent : ∀ {position : Nat} {cell : Cell α}, table.slot position = some cell →
    cell.matches hash accept = false

theorem probeAt_of_free {distance : Nat}
    (free : table.slot (table.after (table.home hash) distance) = none) :
    table.probeAt hash accept distance =
      some (.vacant (table.after (table.home hash) distance) distance) := by
  simp only [probeAt, free]

theorem probeAt_of_cell {distance : Nat} {cell : Cell α}
    (held : table.slot (table.after (table.home hash) distance) = some cell) :
    table.probeAt hash accept distance =
      if cell.matches hash accept = true then
        some (.found (table.after (table.home hash) distance) distance)
      else if table.reach (table.after (table.home hash) distance) ≤ distance then
        some (.vacant (table.after (table.home hash) distance) distance)
      else none := by
  simp only [probeAt, held, reach_of_cell held, Nat.add_one_le_iff]
  rfl

theorem probeAt_eq_none_iff {distance : Nat} :
    table.probeAt hash accept distance = none ↔
      ∃ cell, table.slot (table.after (table.home hash) distance) = some cell ∧
        cell.matches hash accept = false ∧
          distance < table.reach (table.after (table.home hash) distance) := by
  cases held : table.slot (table.after (table.home hash) distance) with
  | none => simp [probeAt_of_free held]
  | some cell =>
      rw [probeAt_of_cell held]
      by_cases accepted : cell.matches hash accept = true
      · simp [accepted]
      · simp [accepted]

theorem probeAt_eq_found_iff {distance index found : Nat} :
    table.probeAt hash accept distance = some (.found index found) ↔
      index = table.after (table.home hash) distance ∧ found = distance ∧
        ∃ cell, table.slot index = some cell ∧ cell.matches hash accept = true := by
  cases held : table.slot (table.after (table.home hash) distance) with
  | none =>
      simp only [probeAt_of_free held, Option.some.injEq, reduceCtorEq, false_iff]
      rintro ⟨rfl, _, cell, present, _⟩
      simp [held] at present
  | some cell =>
      rw [probeAt_of_cell held]
      by_cases accepted : cell.matches hash accept = true
      · simp only [accepted, if_true, Option.some.injEq, Probe.found.injEq]
        constructor
        · rintro ⟨rfl, rfl⟩
          exact ⟨rfl, rfl, cell, held, accepted⟩
        · rintro ⟨rfl, rfl, _⟩
          exact ⟨rfl, rfl⟩
      · simp only [accepted, Bool.false_eq_true, if_false]
        constructor
        · intro answered
          split at answered <;> simp at answered
        · rintro ⟨rfl, _, other, present, matched⟩
          rw [held, Option.some.injEq] at present
          subst other
          exact absurd matched accepted

theorem probeAt_eq_vacant {distance index left : Nat}
    (answered : table.probeAt hash accept distance = some (.vacant index left)) :
    index = table.after (table.home hash) distance ∧ left = distance ∧
      table.reach index ≤ distance ∧
        ∀ cell, table.slot index = some cell → cell.matches hash accept = false := by
  cases held : table.slot (table.after (table.home hash) distance) with
  | none =>
      simp only [probeAt_of_free held, Option.some.injEq, Probe.vacant.injEq] at answered
      obtain ⟨rfl, rfl⟩ := answered
      refine ⟨rfl, rfl, by simp [reach_of_free held], ?_⟩
      intro cell present
      simp [held] at present
  | some cell =>
      rw [probeAt_of_cell held] at answered
      split at answered
      · simp at answered
      · rename_i refused
        split at answered
        · rename_i gives
          simp only [Option.some.injEq, Probe.vacant.injEq] at answered
          obtain ⟨rfl, rfl⟩ := answered
          refine ⟨rfl, rfl, gives, ?_⟩
          intro other present
          rw [held, Option.some.injEq] at present
          rw [← present]
          simpa using refused
        · simp at answered

theorem Shaped.reach_le (shaped : Shaped table) (index : Nat) :
    table.reach index ≤ table.slotCount := by
  cases held : table.slot index with
  | none => simp [reach_of_free held]
  | some cell =>
      rw [reach_of_cell held]
      exact shaped.displacement_lt cell.hash index

theorem Shaped.probe_answers (shaped : Shaped table) (odd : hash % 2 = 1) (accept : α → Bool) :
    ∃ answer, table.probe hash accept = .ok answer ∧
      firstAnswer (table.probeAt hash accept) 0 (table.slotCount + 1) = some answer := by
  have allocated : table.slotCount ≠ 0 := by
    have positive := shaped.allocated
    omega
  have inside : ¬ table.slotCount ≤ table.home hash := by
    have below := shaped.home_lt hash
    omega
  have odd' : ¬ hash % 2 = 0 := by rw [odd]; decide
  cases answered : firstAnswer (table.probeAt hash accept) 0 (table.slotCount + 1) with
  | some answer => exact ⟨answer, by simp [probe, allocated, odd', inside, answered], rfl⟩
  | none =>
      have silent := firstAnswer_eq_none_iff.mp answered table.slotCount (by omega)
      obtain ⟨_, _, _, beyond⟩ := probeAt_eq_none_iff.mp silent
      have limit := shaped.reach_le (table.after (table.home hash) (0 + table.slotCount))
      omega

theorem Ordered.probe_cases (ordered : Ordered table) (odd : hash % 2 = 1)
    (accept : α → Bool) :
    (∃ index distance, table.probe hash accept = .ok (.found index distance) ∧
        FoundAt table hash accept index distance) ∨
      ∃ index distance, table.probe hash accept = .ok (.vacant index distance) ∧
        VacantAt table hash accept index distance := by
  have shaped := ordered.shaped
  obtain ⟨answer, probed, answered⟩ := shaped.probe_answers odd accept
  obtain ⟨offset, within, here, before⟩ := firstAnswer_eq_some_iff.mp answered
  simp only [Nat.zero_add] at here before
  have earlier (steps : Nat) (ahead : steps < offset) :=
    probeAt_eq_none_iff.mp (before steps ahead)
  have passed : table.Passed hash offset := by
    intro steps ahead
    obtain ⟨_, _, _, beyond⟩ := earlier steps ahead
    exact beyond
  cases answer with
  | found index distance =>
      obtain ⟨indexEq, rfl, cell, held, matched⟩ := probeAt_eq_found_iff.mp here
      have inside : distance < table.slotCount := by
        by_contra beyond
        obtain rfl : distance = table.slotCount := by omega
        obtain ⟨resident, present, rejected, _⟩ := earlier 0 shaped.allocated
        rw [after_zero (shaped.home_lt hash)] at present
        rw [indexEq, after_round (shaped.home_lt hash), present, Option.some.injEq] at held
        subst resident
        simp [matched] at rejected
      refine Or.inl ⟨index, distance, probed, indexEq, ?_, ⟨cell, held, matched⟩, ?_, passed⟩
      · rw [indexEq, shaped.displacement_after hash inside]
      · intro steps ahead resident present
        obtain ⟨other, taken, rejected, _⟩ := earlier steps ahead
        rw [present, Option.some.injEq] at taken
        rwa [taken]
  | vacant index distance =>
      obtain ⟨indexEq, rfl, gives, rejected⟩ := probeAt_eq_vacant here
      refine Or.inr ⟨index, distance, probed, indexEq, by omega, passed, gives, ?_⟩
      intro position cell held
      by_contra kept
      have matched : cell.matches hash accept = true := by simpa using kept
      have hashEq := (Cell.matches_iff.mp matched).1
      have arrival := shaped.after_displacement cell.hash (lt_of_slot held)
      by_cases late : distance ≤ table.displacement cell.hash position
      · have beyond := ordered.lt_reach_of_le held late
        rw [hashEq, ← indexEq] at beyond
        omega
      · obtain ⟨resident, present, refused, _⟩ :=
          earlier (table.displacement cell.hash position) (by omega)
        rw [← hashEq, arrival, held, Option.some.injEq] at present
        subst resident
        simp [matched] at refused

theorem VacantAt.distance_lt (vacant : VacantAt table hash accept index distance)
    (shaped : Shaped table) (free : ∃ position < table.slotCount, table.slot position = none) :
    distance < table.slotCount := by
  obtain ⟨hole, bound, empty⟩ := free
  obtain ⟨steps, stepsBound, rfl⟩ := exists_after (shaped.home_lt hash) bound
  by_contra beyond
  have taken := vacant.passed steps (by omega)
  rw [reach_of_free empty] at taken
  omega

theorem VacantAt.index_lt (vacant : VacantAt table hash accept index distance)
    (shaped : Shaped table) : index < table.slotCount := by
  rw [vacant.index_eq]
  exact after_lt shaped.allocated _ _

theorem VacantAt.displacement_eq (vacant : VacantAt table hash accept index distance)
    (shaped : Shaped table) (free : ∃ position < table.slotCount, table.slot position = none) :
    table.displacement hash index = distance := by
  rw [vacant.index_eq, shaped.displacement_after hash (vacant.distance_lt shaped free)]

theorem VacantAt.allowed (vacant : VacantAt table hash accept index distance)
    (shaped : Shaped table) : distance ≤ table.reach (table.previous index) := by
  cases distance with
  | zero => exact Nat.zero_le _
  | succ distance =>
      have before := vacant.passed distance (by omega)
      have inside := after_lt shaped.allocated (table.home hash) distance
      have arrival : table.previous index = table.after (table.home hash) distance := by
        rw [vacant.index_eq, ← after_after, ← next_eq, previous_next inside]
      rw [arrival]
      exact before

theorem storedHash_odd (raw : UInt64) : storedHash raw % 2 = 1 := by
  rw [← UInt64.toNat_inj]
  have bit := Nat.testBit_or (mix raw).toNat 1 0
  simp only [Nat.testBit_zero, Nat.one_mod, decide_true, Bool.or_true, decide_eq_true_eq] at bit
  simpa only [storedHash, UInt64.toNat_mod, UInt64.toNat_or, UInt64.reduceToNat] using bit

end Table

end RobinHood
