import RobinHood.Proofs.Guarded.Sweeps

/-!
What the structural check accepts, and what it reports. It compares each value with the slot before
it only, yet this is as much as to say that no slot on the way of a value was skipped, round the
whole ring and in any table of the right geometry.
-/

namespace RobinHood.Table

open Guarded

variable {α : Type} {table : Table α}

/-- Each slot from the home of a value up to its own is taken, by a value at least as far from home
as the slot is from that home. -/
def NoneSkipped (table : Table α) : Prop :=
  ∀ index cell, table.slot index = some cell → ∀ steps < table.displacement cell.hash index,
    ∃ resident, table.slot (table.after (table.home cell.hash) steps) = some resident ∧
      steps ≤ table.displacement resident.hash (table.after (table.home cell.hash) steps)

structure WellFormed (table : Table α) : Prop where
  power : ∃ width, 4 ≤ width ∧ table.slotCount = 2 ^ width
  mask : table.mask + 1 = table.slotCount
  shift : table.shift + Nat.log2 table.slotCount = 64
  trigger : 8 * table.trigger = 7 * table.slotCount
  population : table.population =
    (List.range table.slotCount).countP fun index => (table.slot index).isSome
  roomy : table.population ≤ table.trigger
  odd : ∀ index cell, table.slot index = some cell → cell.hash % 2 = 1
  noneSkipped : table.NoneSkipped

def Faultless (table : Table α) (index : Nat) : Prop :=
  ∀ cell, table.slot index = some cell →
    cell.hash % 2 = 1 ∧ table.displacement cell.hash index ≤ table.allowance index

/-- The geometry is right, and this slot is the first whose value has a fault. -/
structure FirstFault (table : Table α) (index : Nat) (fault : Cell α → Prop) : Prop where
  shaped : Shaped table
  roomy : table.population ≤ table.trigger
  cell : ∃ cell, table.slot index = some cell ∧ fault cell
  before : ∀ earlier < index, table.Faultless earlier

theorem Shaped.previous_of_displaced (shaped : Shaped table) {index steps : Nat} {cell : Cell α}
    (held : table.slot index = some cell)
    (displaced : table.displacement cell.hash index = steps + 1) :
    table.previous index = table.after (table.home cell.hash) steps := by
  have inside := after_lt shaped.allocated (table.home cell.hash) steps
  have arrival := shaped.after_displacement cell.hash (lt_of_slot held)
  rw [displaced, ← after_after, ← Table.next_eq] at arrival
  rw [← arrival, previous_next inside]

theorem Shaped.neighbourly_iff_noneSkipped (shaped : Shaped table) :
    table.Neighbourly ↔ table.NoneSkipped := by
  constructor
  · -- Along the way the reach grows by at most one a slot, so none before can have been too low.
    intro neighbourly index cell held steps before
    have gradual := shaped.neighbourly_iff.mp neighbourly
    exact exists_cell_of_lt_reach (shaped.lt_reach_of_le gradual held (Nat.le_of_lt before))
  · -- The last slot of the way is the one before the value.
    intro noneSkipped index cell held
    cases displaced : table.displacement cell.hash index with
    | zero => exact Nat.zero_le _
    | succ steps =>
        obtain ⟨resident, present, far⟩ := noneSkipped index cell held steps (by omega)
        rw [Table.allowance_eq, shaped.previous_of_displaced held displaced,
          reach_of_cell present]
        omega

theorem ordered_iff :
    Ordered table ↔ Shaped table ∧
      (∀ index cell, table.slot index = some cell → cell.hash % 2 = 1) ∧ table.NoneSkipped := by
  constructor
  · intro ordered
    exact ⟨ordered.shaped, fun _ _ held => ordered.odd held,
      ordered.shaped.neighbourly_iff_noneSkipped.mp ordered.neighbourly⟩
  · rintro ⟨shaped, odd, noneSkipped⟩
    have neighbourly := shaped.neighbourly_iff_noneSkipped.mpr noneSkipped
    exact ⟨shaped, fun held => odd _ _ held, fun bound =>
      shaped.neighbourly_iff.mp neighbourly _ bound⟩

theorem length_cells (table : Table α) :
    table.cells.length =
      (List.range table.slotCount).countP fun index => (table.slot index).isSome := by
  rw [cells_eq, List.length_filterMap_eq_countP]

theorem shaped_iff :
    Shaped table ↔ (∃ width, 4 ≤ width ∧ table.slotCount = 2 ^ width) ∧
      table.mask + 1 = table.slotCount ∧ table.shift + Nat.log2 table.slotCount = 64 ∧
        8 * table.trigger = 7 * table.slotCount := by
  constructor
  · intro shaped
    obtain ⟨width, least, count⟩ := shaped.power
    have positive := shaped.allocated
    refine ⟨shaped.power, ?_, ?_, shaped.eight_mul_trigger⟩
    · rw [shaped.mask, Nat.sub_add_cancel positive]
    · rw [count, Nat.log2_two_pow, shaped.shift_add_width count]
  · rintro ⟨⟨width, least, count⟩, mask, bits, share⟩
    obtain ⟨excess, rfl⟩ : ∃ excess, width = excess + 3 := ⟨width - 3, by omega⟩
    have maskEq : table.mask = 2 ^ (excess + 3) - 1 := by omega
    have eighths := eight_mul_triggerOf excess
    rw [count, Nat.log2_two_pow] at bits
    refine ⟨⟨_, least, count⟩, by omega, ?_, ?_⟩
    · rw [allOnes_shiftRight, maskEq, show 64 - table.shift = excess + 3 by omega]
    · rw [maskEq]
      omega

theorem wellFormed_iff_sound : table.WellFormed ↔ Sound table := by
  constructor
  · intro formed
    have shaped := shaped_iff.mpr ⟨formed.power, formed.mask, formed.shift, formed.trigger⟩
    refine ⟨ordered_iff.mpr ⟨shaped, formed.odd, formed.noneSkipped⟩, ?_, formed.roomy⟩
    rw [length_cells, formed.population]
  · intro sound
    obtain ⟨shaped, odd, noneSkipped⟩ := ordered_iff.mp sound.toOrdered
    obtain ⟨power, mask, shift, trigger⟩ := shaped_iff.mp shaped
    exact ⟨power, mask, shift, trigger, by rw [← length_cells, sound.counted], sound.roomy, odd,
      noneSkipped⟩

theorem faultAt_eq_even_iff {index : Nat} :
    table.faultAt index = some (.invariantViolation index "cached hash is even") ↔
      ∃ cell, table.slot index = some cell ∧ cell.hash % 2 = 0 := by
  cases held : table.slot index with
  | none => simp [faultAt, held]
  | some cell =>
      simp only [faultAt, held, Option.some.injEq, exists_eq_left']
      by_cases even : cell.hash % 2 = 0
      · simp [even]
      · simp only [even, if_false, iff_false]
        split <;> simp

theorem faultAt_eq_misplaced_iff {index : Nat} :
    table.faultAt index = some (.invariantViolation index
        "value displaced further than its predecessor allows") ↔
      ∃ cell, table.slot index = some cell ∧ cell.hash % 2 = 1 ∧
        table.allowance index < table.displacement cell.hash index := by
  cases held : table.slot index with
  | none => simp [faultAt, held]
  | some cell =>
      simp only [faultAt, held, Option.some.injEq, exists_eq_left', ← odd_iff]
      by_cases even : cell.hash % 2 = 0 <;> simp [even]

theorem eq_of_faultAt {index named : Nat} {reason : String}
    (fault : table.faultAt index = some (.invariantViolation named reason)) : named = index := by
  rw [faultAt] at fault
  grind

def SlotReason (reason : String) : Prop :=
  reason = "cached hash is even" ∨
    reason = "value displaced further than its predecessor allows"

theorem geometryFault_ne {reason : String} (slotReason : SlotReason reason) :
    table.geometryFault ≠ some reason := by
  rw [geometryFault]
  rcases slotReason with rfl | rfl <;> grind

theorem of_check_eq_error {index : Nat} {reason : String} (slotReason : SlotReason reason)
    (reported : table.check = .error (.invariantViolation index reason)) :
    (Shaped table ∧ table.population ≤ table.trigger) ∧
      table.faultAt index = some (.invariantViolation index reason) ∧
        ∀ earlier < index, table.faultAt earlier = none := by
  -- What the other checks report, of the geometry or of the count, has another reason.
  rw [check] at reported
  split at reported
  next =>
    split at reported
    · have same := Except.error.inj reported
      rcases slotReason with rfl | rfl <;> simp at same
    · simp at reported
  next =>
    split at reported
    next wrong fault =>
      have same := Except.error.inj reported
      simp only [TableError.invariantViolation.injEq] at same
      exact absurd (same.2 ▸ fault) (geometryFault_ne slotReason)
    next right =>
      refine ⟨geometryFault_eq_none_iff.mp right, ?_⟩
      split at reported
      next fault first =>
        obtain ⟨offset, _, here, before⟩ := firstAnswer_eq_some_iff.mp first
        rw [Except.error.inj reported, Nat.zero_add] at here
        obtain rfl := eq_of_faultAt here
        exact ⟨here, fun earlier ahead => by simpa using before earlier ahead⟩
      next =>
        split at reported
        · have same := Except.error.inj reported
          rcases slotReason with rfl | rfl <;> simp at same
        · simp at reported

theorem check_eq_error {index : Nat} {reason : String} (shaped : Shaped table)
    (roomy : table.population ≤ table.trigger)
    (here : table.faultAt index = some (.invariantViolation index reason))
    (before : ∀ earlier < index, table.faultAt earlier = none) :
    table.check = .error (.invariantViolation index reason) := by
  have bound : index < table.slotCount := by
    by_contra outside
    simp [faultAt, slot_of_le (Nat.not_lt.mp outside)] at here
  have first : firstAnswer table.faultAt 0 table.slotCount =
      some (.invariantViolation index reason) :=
    firstAnswer_eq_some_iff.mpr ⟨index, bound, by simpa using here, by simpa using before⟩
  rw [check, if_neg (Nat.ne_of_gt shaped.allocated),
    geometryFault_eq_none_iff.mpr ⟨shaped, roomy⟩, first]

theorem check_eq_error_iff {index : Nat} {reason : String} {fault : Cell α → Prop}
    (slotReason : SlotReason reason)
    (meaning : table.faultAt index = some (.invariantViolation index reason) ↔
      ∃ cell, table.slot index = some cell ∧ fault cell) :
    table.check = .error (.invariantViolation index reason) ↔ table.FirstFault index fault := by
  constructor
  · intro reported
    obtain ⟨⟨shaped, roomy⟩, here, before⟩ := of_check_eq_error slotReason reported
    exact ⟨shaped, roomy, meaning.mp here, fun earlier ahead =>
      faultAt_eq_none_iff.mp (before earlier ahead)⟩
  · intro first
    exact check_eq_error first.shaped first.roomy (meaning.mpr first.cell) fun earlier ahead =>
      faultAt_eq_none_iff.mpr (first.before earlier ahead)

theorem check_eq_ok_iff :
    table.check = .ok () ↔
      (table.slotCount = 0 ∧ table.population = 0 ∧ table.trigger = 0) ∨ table.WellFormed := by
  rw [check_iff_valid, wellFormed_iff_sound]
  constructor
  · intro valid
    cases valid with
    | unallocated slots population trigger => exact Or.inl ⟨slots, population, trigger⟩
    | allocated sound => exact Or.inr sound
  · rintro (⟨slots, population, trigger⟩ | sound)
    · exact .unallocated slots population trigger
    · exact .allocated sound

/-- The check of any table at all: what it accepts, that its rule for neighbours is the rule for
whole ways, what it reports of a slot, and that on words it ends in the same way. -/
theorem check_exact (table : Table α) :
    (table.check = .ok () ↔
        (table.slotCount = 0 ∧ table.population = 0 ∧ table.trigger = 0) ∨ table.WellFormed) ∧
      (Shaped table → (table.Neighbourly ↔ table.NoneSkipped)) ∧
      (∀ index, table.check = .error (.invariantViolation index "cached hash is even") ↔
        table.FirstFault index fun cell => cell.hash % 2 = 0) ∧
      (∀ index, table.check = .error (.invariantViolation index
          "value displaced further than its predecessor allows") ↔
        table.FirstFault index fun cell =>
          cell.hash % 2 = 1 ∧ table.allowance index < table.displacement cell.hash index) ∧
      (table.slotCount < 2 ^ 64 → (table.slotCount ≠ 0 → table.shift < 64) →
        Guarded.check table = Guarded.ofExcept table.check) := by
  refine ⟨check_eq_ok_iff, fun shaped => shaped.neighbourly_iff_noneSkipped, ?_, ?_,
    check_eq_ofExcept⟩
  · exact fun index => check_eq_error_iff (Or.inl rfl) faultAt_eq_even_iff
  · exact fun index => check_eq_error_iff (Or.inr rfl) faultAt_eq_misplaced_iff

def behindFree : Table Nat :=
  ofSlots (#[none, some ⟨1, 10⟩] ++ Array.replicate 14 none) 1

theorem check_behindFree :
    behindFree.check =
        .error (.invariantViolation 1 "value displaced further than its predecessor allows") ∧
      Shaped behindFree ∧ ¬ behindFree.NoneSkipped ∧
        Guarded.check behindFree = Guarded.fail
          (.invariantViolation 1 "value displaced further than its predecessor allows") := by
  obtain ⟨_, neighbours, _, misplaced, words⟩ := check_exact behindFree
  have reported : behindFree.check =
      .error (.invariantViolation 1 "value displaced further than its predecessor allows") := by
    decide +kernel
  have first := (misplaced 1).mp reported
  refine ⟨reported, first.shaped, ?_, ?_⟩
  · intro noneSkipped
    obtain ⟨cell, held, _, far⟩ := first.cell
    have near := (neighbours first.shaped).mpr noneSkipped 1 cell held
    omega
  · rw [words (by decide +kernel) (by decide +kernel), reported]
    rfl

end RobinHood.Table
