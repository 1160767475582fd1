import RobinHood.Proofs.Order

/-!
The structural check accepts exactly the valid tables: those without slots that count nothing, and
those with the right geometry, odd hashes, an ordered ring and a true count.
-/

namespace RobinHood.Table

variable {α : Type} {table : Table α}

theorem isPowerOfTwo_iff {count : Nat} :
    isPowerOfTwo count = true ↔ ∃ width, count = 2 ^ width := by
  simp only [isPowerOfTwo, beq_iff_eq, Nat.one_shiftLeft]
  constructor
  · intro same
    exact ⟨_, same.symm⟩
  · rintro ⟨width, rfl⟩
    rw [Nat.log2_two_pow]

theorem sixteen_le_two_pow_iff {width : Nat} : 16 ≤ 2 ^ width ↔ 4 ≤ width :=
  Nat.pow_le_pow_iff_right (a := 2) (n := 4) (by decide)

theorem power_iff {count : Nat} :
    ¬ (¬ isPowerOfTwo count ∨ count < leastSlots) ↔ ∃ width, 4 ≤ width ∧ count = 2 ^ width := by
  simp only [not_or, not_not, isPowerOfTwo_iff, leastSlots, Nat.not_lt]
  constructor
  · rintro ⟨⟨width, rfl⟩, least⟩
    exact ⟨width, sixteen_le_two_pow_iff.mp least, rfl⟩
  · rintro ⟨width, least, rfl⟩
    exact ⟨⟨width, rfl⟩, sixteen_le_two_pow_iff.mpr least⟩

theorem geometryFault_eq_none_iff :
    table.geometryFault = none ↔ Shaped table ∧ table.population ≤ table.trigger := by
  simp only [geometryFault, wordSize_eq]
  constructor
  · intro clear
    split at clear
    · simp at clear
    rename_i power
    split at clear
    · simp at clear
    rename_i mask
    split at clear
    · simp at clear
    rename_i shift
    split at clear
    · simp at clear
    rename_i trigger
    split at clear
    · simp at clear
    rename_i roomy
    exact ⟨⟨power_iff.mp power, Classical.not_not.mp mask, Classical.not_not.mp shift,
      Classical.not_not.mp trigger⟩, by omega⟩
  · rintro ⟨shaped, roomy⟩
    rw [if_neg (power_iff.mpr shaped.power), if_neg (not_not.mpr shaped.mask),
      if_neg (not_not.mpr shaped.shift), if_neg (not_not.mpr shaped.trigger), if_neg (by omega)]

theorem odd_iff {hash : UInt64} : ¬ hash % 2 = 0 ↔ hash % 2 = 1 := by
  rw [← UInt64.toNat_inj, ← UInt64.toNat_inj]
  simp only [UInt64.toNat_mod, UInt64.reduceToNat]
  omega

theorem faultAt_eq_none_iff {index : Nat} :
    table.faultAt index = none ↔ ∀ cell, table.slot index = some cell →
      cell.hash % 2 = 1 ∧ table.displacement cell.hash index ≤ table.allowance index := by
  cases held : table.slot index with
  | none => simp [faultAt, held]
  | some cell =>
      simp only [faultAt, held, Option.some.injEq, forall_eq']
      constructor
      · intro clear
        split at clear
        · simp at clear
        rename_i odd
        split at clear
        · simp at clear
        rename_i allowed
        exact ⟨odd_iff.mp odd, by omega⟩
      · rintro ⟨odd, allowed⟩
        rw [if_neg (odd_iff.mpr odd), if_neg (by omega)]

/-- No value is displaced further than the slot before it allows. -/
def Neighbourly (table : Table α) : Prop :=
  ∀ index cell, table.slot index = some cell →
    table.displacement cell.hash index ≤ table.allowance index

theorem Shaped.neighbourly_iff (shaped : Shaped table) :
    table.Neighbourly ↔
      ∀ index < table.slotCount, table.reach (table.next index) ≤ table.reach index + 1 := by
  constructor
  · intro neighbourly index bound
    cases held : table.slot (table.next index) with
    | none => simp [reach_of_free held]
    | some cell =>
        have allowed := neighbourly _ cell held
        rw [Table.allowance_eq, previous_next bound] at allowed
        rw [reach_of_cell held]
        omega
  · intro gradual index cell held
    have bound := lt_of_slot held
    have before : table.previous index < table.slotCount := Nat.mod_lt _ shaped.allocated
    have step := gradual _ before
    rw [next_previous bound, reach_of_cell held] at step
    rw [Table.allowance_eq]
    omega

theorem Ordered.neighbourly (ordered : Ordered table) : table.Neighbourly :=
  ordered.shaped.neighbourly_iff.mpr fun _ => ordered.gradual

theorem Ordered.displacement_le_allowance (ordered : Ordered table) {index : Nat} {cell : Cell α}
    (held : table.slot index = some cell) :
    table.displacement cell.hash index ≤ table.allowance index :=
  ordered.neighbourly index cell held

theorem faults_eq_none_iff (shaped : Shaped table) :
    firstAnswer table.faultAt 0 table.slotCount = none ↔ Ordered table := by
  rw [firstAnswer_eq_none_iff]
  simp only [Nat.zero_add, faultAt_eq_none_iff]
  constructor
  · intro clear
    have neighbourly : table.Neighbourly := fun index cell held =>
      (clear index (lt_of_slot held) cell held).2
    refine ⟨shaped, ?_, ?_⟩
    · intro index cell held
      exact (clear index (lt_of_slot held) cell held).1
    · intro index bound
      exact shaped.neighbourly_iff.mp neighbourly index bound
  · intro ordered index _ cell held
    exact ⟨ordered.odd held, ordered.displacement_le_allowance held⟩

theorem check_iff_valid : table.check = .ok () ↔ Valid table := by
  simp only [check]
  by_cases unallocated : table.slotCount = 0
  · rw [if_pos unallocated]
    constructor
    · intro passed
      split at passed
      · simp at passed
      rename_i clear
      exact .unallocated unallocated (by omega) (by omega)
    · intro valid
      cases valid with
      | unallocated _ population trigger => simp [population, trigger]
      | allocated sound =>
          have positive := sound.shaped.allocated
          omega
  · rw [if_neg unallocated]
    constructor
    · intro passed
      cases geometry : table.geometryFault with
      | some reason => simp [geometry] at passed
      | none =>
          obtain ⟨shaped, roomy⟩ := geometryFault_eq_none_iff.mp geometry
          cases faults : firstAnswer table.faultAt 0 table.slotCount with
          | some fault => simp [geometry, faults] at passed
          | none =>
              simp only [geometry, faults] at passed
              split at passed
              · simp at passed
              rename_i counted
              exact .allocated ⟨(faults_eq_none_iff shaped).mp faults, by omega, roomy⟩
    · intro valid
      have sound := valid.sound unallocated
      rw [geometryFault_eq_none_iff.mpr ⟨sound.shaped, sound.roomy⟩]
      simp [(faults_eq_none_iff sound.shaped).mpr sound.toOrdered, sound.counted]

end RobinHood.Table
