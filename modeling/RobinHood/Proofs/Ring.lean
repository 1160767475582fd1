import Mathlib
import RobinHood.Table.Check

/-!
Arithmetic on the ring of slots: steps after a slot, distances from home, and the shape that a
table with slots has. The reach of a slot, one more than the displacement of its value and zero if
it is free, carries the order of the whole ring.
-/

namespace RobinHood.Table

variable {α β : Type} {table : Table α} {other : Table β}

theorem wordSize_eq : UInt64.size = 2 ^ 64 :=
  rfl

theorem after_lt (allocated : 0 < table.slotCount) (index steps : Nat) :
    table.after index steps < table.slotCount :=
  Nat.mod_lt _ allocated

@[simp] theorem after_after (table : Table α) (index first second : Nat) :
    table.after (table.after index first) second = table.after index (first + second) := by
  simp [after, Nat.add_assoc]

theorem after_zero {index : Nat} (bound : index < table.slotCount) :
    table.after index 0 = index :=
  Nat.mod_eq_of_lt bound

@[simp] theorem after_slotCount_add (table : Table α) (index steps : Nat) :
    table.after index (table.slotCount + steps) = table.after index steps := by
  simp only [after]
  rw [Nat.add_left_comm, Nat.add_mod_left]

theorem after_round {index : Nat} (bound : index < table.slotCount) :
    table.after index table.slotCount = index := by
  have round := table.after_slotCount_add index 0
  rwa [Nat.add_zero, after_zero bound] at round

theorem after_cases {index : Nat} (bound : index < table.slotCount) (steps : Nat)
    (round : steps ≤ table.slotCount) :
    index + steps < table.slotCount ∧ table.after index steps = index + steps ∨
      table.slotCount ≤ index + steps ∧
        table.after index steps = index + steps - table.slotCount := by
  by_cases inside : index + steps < table.slotCount
  · exact Or.inl ⟨inside, Nat.mod_eq_of_lt inside⟩
  · refine Or.inr ⟨by omega, ?_⟩
    rw [after, Nat.mod_eq_sub_mod (by omega), Nat.mod_eq_of_lt (by omega)]

theorem after_injective {index first second : Nat} (bound : index < table.slotCount)
    (firstBound : first < table.slotCount) (secondBound : second < table.slotCount)
    (same : table.after index first = table.after index second) : first = second := by
  have firstCases := after_cases bound first (Nat.le_of_lt firstBound)
  have secondCases := after_cases bound second (Nat.le_of_lt secondBound)
  omega

theorem exists_after {base index : Nat} (baseBound : base < table.slotCount)
    (bound : index < table.slotCount) :
    ∃ steps < table.slotCount, table.after base steps = index := by
  by_cases ahead : base ≤ index
  · refine ⟨index - base, by omega, ?_⟩
    have cases := after_cases baseBound (index - base) (by omega)
    omega
  · refine ⟨index + table.slotCount - base, by omega, ?_⟩
    have cases := after_cases baseBound (index + table.slotCount - base) (by omega)
    omega

/-- How many slots `index` lies after `base` on the ring. -/
def ahead (table : Table α) (base index : Nat) : Nat :=
  (index + table.slotCount - base) % table.slotCount

theorem ahead_cases {base index : Nat} (baseBound : base < table.slotCount)
    (bound : index < table.slotCount) :
    base ≤ index ∧ table.ahead base index = index - base ∨
      index < base ∧ table.ahead base index = index + table.slotCount - base := by
  by_cases wrapped : base ≤ index
  · refine Or.inl ⟨wrapped, ?_⟩
    rw [ahead, Nat.mod_eq_sub_mod (by omega), Nat.mod_eq_of_lt (by omega)]
    omega
  · exact Or.inr ⟨by omega, Nat.mod_eq_of_lt (by omega)⟩

theorem next_eq (table : Table α) (index : Nat) : table.next index = table.after index 1 := rfl

theorem next_after (table : Table α) (index steps : Nat) :
    table.next (table.after index steps) = table.after index (steps + 1) := by
  rw [next_eq, after_after]

theorem previous_eq {index : Nat} (bound : index < table.slotCount) :
    table.previous index = table.after index (table.slotCount - 1) := by
  simp only [previous, after]
  congr 1
  omega

theorem next_previous {index : Nat} (bound : index < table.slotCount) :
    table.next (table.previous index) = index := by
  rw [previous_eq bound, next_eq, after_after, Nat.sub_add_cancel (by omega), after_round bound]

theorem previous_next {index : Nat} (bound : index < table.slotCount) :
    table.previous (table.next index) = index := by
  have nextBound : table.next index < table.slotCount := after_lt (by omega) index 1
  rw [previous_eq nextBound, next_eq, after_after, Nat.add_sub_cancel' (by omega),
    after_round bound]

structure Shaped (table : Table α) : Prop where
  power : ∃ width, 4 ≤ width ∧ table.slotCount = 2 ^ width
  mask : table.mask = table.slotCount - 1
  shift : (2 ^ 64 - 1) >>> table.shift = table.mask
  trigger : table.trigger = triggerOf table.mask

/-- Two tables whose rings have the same geometry. -/
structure SameShape (table : Table α) (other : Table β) : Prop where
  slotCount : other.slotCount = table.slotCount
  mask : other.mask = table.mask
  shift : other.shift = table.shift
  trigger : other.trigger = table.trigger

theorem SameShape.refl (table : Table α) : SameShape table table :=
  ⟨rfl, rfl, rfl, rfl⟩

theorem SameShape.trans {third : Table α} {second : Table α} (first : SameShape table second)
    (rest : SameShape second third) : SameShape table third :=
  ⟨rest.slotCount.trans first.slotCount, rest.mask.trans first.mask,
    rest.shift.trans first.shift, rest.trigger.trans first.trigger⟩

theorem SameShape.after (same : SameShape table other) (index steps : Nat) :
    other.after index steps = table.after index steps := by
  simp only [Table.after, same.slotCount]

theorem SameShape.home (same : SameShape table other) (hash : UInt64) :
    other.home hash = table.home hash := by
  simp only [Table.home, same.shift]

theorem SameShape.displacement (same : SameShape table other) (hash : UInt64) (index : Nat) :
    other.displacement hash index = table.displacement hash index := by
  simp only [Table.displacement, same.slotCount, same.home]

theorem SameShape.shaped (same : SameShape table other) (shaped : Shaped table) :
    Shaped other := by
  refine ⟨?_, ?_, ?_, ?_⟩
  · rw [same.slotCount]
    exact shaped.power
  · rw [same.mask, same.slotCount, shaped.mask]
  · rw [same.shift, same.mask, shaped.shift]
  · rw [same.trigger, same.mask, shaped.trigger]

theorem Shaped.sixteen_le (shaped : Shaped table) : 16 ≤ table.slotCount := by
  obtain ⟨width, least, count⟩ := shaped.power
  rw [count]
  exact Nat.pow_le_pow_right (Nat.succ_pos 1) least

theorem Shaped.allocated (shaped : Shaped table) : 0 < table.slotCount := by
  have least := shaped.sixteen_le
  omega

theorem allOnes_shiftRight (amount : Nat) : (2 ^ 64 - 1) >>> amount = 2 ^ (64 - amount) - 1 := by
  apply Nat.eq_of_testBit_eq
  intro bit
  rw [Nat.testBit_shiftRight, Nat.testBit_two_pow_sub_one, Nat.testBit_two_pow_sub_one,
    decide_eq_decide]
  omega

theorem Shaped.shift_add_width (shaped : Shaped table) {width : Nat}
    (count : table.slotCount = 2 ^ width) : table.shift + width = 64 := by
  have least := shaped.sixteen_le
  have homes := shaped.shift
  rw [allOnes_shiftRight, shaped.mask, count] at homes
  have kept := Nat.two_pow_pos (64 - table.shift)
  have same : 2 ^ (64 - table.shift) = 2 ^ width := by omega
  have bits : 64 - table.shift = width := Nat.pow_right_injective (Nat.le_refl 2) same
  have positive : width ≠ 0 := by
    rintro rfl
    omega
  omega

theorem Shaped.width_le (shaped : Shaped table) {width : Nat}
    (count : table.slotCount = 2 ^ width) : width ≤ 64 := by
  have bits := shaped.shift_add_width count
  omega

theorem Shaped.home_lt (shaped : Shaped table) (hash : UInt64) :
    table.home hash < table.slotCount := by
  have bound : hash.toNat ≤ 2 ^ 64 - 1 := Nat.le_sub_one_of_lt hash.toNat_lt
  have shifted : hash.toNat >>> table.shift ≤ (2 ^ 64 - 1) >>> table.shift := by
    rw [Nat.shiftRight_eq_div_pow, Nat.shiftRight_eq_div_pow]
    exact Nat.div_le_div_right bound
  rw [shaped.shift, shaped.mask] at shifted
  have allocated := shaped.allocated
  simp only [home]
  omega

theorem Shaped.displacement_lt (shaped : Shaped table) (hash : UInt64) (index : Nat) :
    table.displacement hash index < table.slotCount :=
  Nat.mod_lt _ shaped.allocated

theorem Shaped.displacement_cases (shaped : Shaped table) (hash : UInt64) {index : Nat}
    (bound : index < table.slotCount) :
    table.home hash ≤ index ∧ table.displacement hash index = index - table.home hash ∨
      index < table.home hash ∧
        table.displacement hash index = index + table.slotCount - table.home hash :=
  ahead_cases (shaped.home_lt hash) bound

theorem Shaped.after_displacement (shaped : Shaped table) (hash : UInt64) {index : Nat}
    (bound : index < table.slotCount) :
    table.after (table.home hash) (table.displacement hash index) = index := by
  have homeBound := shaped.home_lt hash
  have distance := shaped.displacement_lt hash index
  have walk := after_cases homeBound _ (Nat.le_of_lt distance)
  have apart := shaped.displacement_cases hash bound
  omega

theorem Shaped.displacement_after (shaped : Shaped table) (hash : UInt64) {steps : Nat}
    (bound : steps < table.slotCount) :
    table.displacement hash (table.after (table.home hash) steps) = steps := by
  have homeBound := shaped.home_lt hash
  have walk := after_cases homeBound _ (Nat.le_of_lt bound)
  have apart := shaped.displacement_cases hash
    (after_lt shaped.allocated (table.home hash) steps)
  omega

theorem Shaped.displacement_next (shaped : Shaped table) (hash : UInt64) {index : Nat}
    (bound : index < table.slotCount)
    (inside : table.displacement hash index + 1 < table.slotCount) :
    table.displacement hash (table.next index) = table.displacement hash index + 1 := by
  have step : table.next index =
      table.after (table.home hash) (table.displacement hash index + 1) := by
    rw [next_eq, ← after_after, shaped.after_displacement hash bound]
  rw [step, shaped.displacement_after hash inside]

theorem Shaped.displacement_before_next (shaped : Shaped table) (hash : UInt64) {index : Nat}
    (bound : index < table.slotCount) (displaced : 0 < table.displacement hash (table.next index)) :
    table.displacement hash index + 1 = table.displacement hash (table.next index) := by
  have inside := after_lt shaped.allocated index 1
  have walk := after_cases bound 1 shaped.allocated
  have here := shaped.displacement_cases hash bound
  have there := shaped.displacement_cases hash inside
  have homeBound := shaped.home_lt hash
  rw [next_eq] at displaced ⊢
  omega

/-- One more than the displacement of the value in a slot; zero if the slot is free. -/
def reach (table : Table α) (index : Nat) : Nat :=
  match table.slot index with
  | none => 0
  | some cell => table.displacement cell.hash index + 1

theorem reach_of_free {index : Nat} (free : table.slot index = none) : table.reach index = 0 := by
  simp [reach, free]

theorem reach_of_cell {index : Nat} {cell : Cell α} (held : table.slot index = some cell) :
    table.reach index = table.displacement cell.hash index + 1 := by
  simp [reach, held]

theorem reach_eq_zero_iff {index : Nat} : table.reach index = 0 ↔ table.slot index = none := by
  cases held : table.slot index with
  | none => simp [reach_of_free held]
  | some cell => simp [reach_of_cell held]

theorem exists_cell_of_lt_reach {index steps : Nat} (beyond : steps < table.reach index) :
    ∃ cell, table.slot index = some cell ∧ steps ≤ table.displacement cell.hash index := by
  cases held : table.slot index with
  | none =>
      rw [reach_of_free held] at beyond
      omega
  | some cell =>
      rw [reach_of_cell held] at beyond
      exact ⟨cell, rfl, by omega⟩

theorem allowance_eq (table : Table α) (index : Nat) :
    table.allowance index = table.reach (table.previous index) := rfl

theorem SameShape.reach_congr {other : Table α} (same : SameShape table other) {index : Nat}
    (slot : other.slot index = table.slot index) : other.reach index = table.reach index := by
  simp only [Table.reach, slot, same.displacement]

theorem slot_eq_getElem {index : Nat} (bound : index < table.slots.size) :
    table.slot index = table.slots[index] := by
  simp [slot, Array.getD, bound]

theorem slot_of_le {index : Nat} (outside : table.slotCount ≤ index) :
    table.slot index = none := by
  simp only [slot, Array.getD, slotCount] at outside ⊢
  rw [dif_neg (by omega)]

theorem lt_of_slot {index : Nat} {cell : Cell α} (held : table.slot index = some cell) :
    index < table.slotCount := by
  by_contra outside
  rw [slot_of_le (by omega)] at held
  simp at held

end RobinHood.Table
