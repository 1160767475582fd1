import RobinHood.Proofs.Gaps

/-!
The order of the ring: going one slot forward raises the reach by at most one. Walked backwards
this gives the whole path of every value, and one free slot bounds every reach.
-/

namespace RobinHood.Table

variable {α : Type} {table : Table α}

theorem eight_mul_triggerOf (width : Nat) :
    8 * triggerOf (2 ^ (width + 3) - 1) = 7 * 2 ^ (width + 3) := by
  have positive : 0 < 2 ^ width := Nat.two_pow_pos width
  have whole : 2 ^ (width + 3) = 8 * 2 ^ width := by
    rw [Nat.pow_add, Nat.mul_comm]
  have eighth : (2 ^ (width + 3) - 1) >>> 3 = 2 ^ width - 1 := by
    rw [Nat.shiftRight_eq_div_pow, whole]
    omega
  have kept : triggerOf (2 ^ (width + 3) - 1) = 2 ^ width * 7 := by
    rw [triggerOf, eighth]
    apply Nat.eq_of_testBit_eq
    intro bit
    have seven : Nat.testBit 7 (bit - width) = decide (bit - width < 3) :=
      Nat.testBit_two_pow_sub_one 3 (bit - width)
    rw [Nat.testBit_xor, Nat.testBit_two_pow_sub_one, Nat.testBit_two_pow_sub_one,
      Nat.testBit_two_pow_mul, seven]
    by_cases low : bit < width
    · simp [low, show bit < width + 3 by omega]
    · simp only [low, decide_false, Bool.xor_false, show width ≤ bit by omega, decide_true,
        Bool.true_and, decide_eq_decide]
      omega
  rw [kept, whole]
  omega

theorem Shaped.eight_mul_trigger (shaped : Shaped table) :
    8 * table.trigger = 7 * table.slotCount := by
  obtain ⟨width, least, count⟩ := shaped.power
  obtain ⟨excess, rfl⟩ : ∃ excess, width = excess + 3 := ⟨width - 3, by omega⟩
  rw [shaped.trigger, shaped.mask, count]
  exact eight_mul_triggerOf excess

theorem Shaped.reach_after_le (shaped : Shaped table)
    (gradual : ∀ index < table.slotCount, table.reach (table.next index) ≤ table.reach index + 1)
    {base : Nat} (bound : base < table.slotCount) (steps : Nat) :
    table.reach (table.after base steps) ≤ table.reach base + steps := by
  induction steps with
  | zero => rw [after_zero bound, Nat.add_zero]
  | succ steps ih =>
      have step := gradual _ (after_lt shaped.allocated base steps)
      rw [next_after] at step
      omega

theorem Shaped.lt_reach_of_le (shaped : Shaped table)
    (gradual : ∀ index < table.slotCount, table.reach (table.next index) ≤ table.reach index + 1)
    {index steps : Nat} {cell : Cell α} (held : table.slot index = some cell)
    (before : steps ≤ table.displacement cell.hash index) :
    steps < table.reach (table.after (table.home cell.hash) steps) := by
  have bound := lt_of_slot held
  have inside := after_lt shaped.allocated (table.home cell.hash) steps
  have rest := shaped.reach_after_le gradual inside (table.displacement cell.hash index - steps)
  rw [after_after, Nat.add_sub_cancel' before, shaped.after_displacement _ bound,
    reach_of_cell held] at rest
  omega

structure Ordered (table : Table α) : Prop where
  shaped : Shaped table
  odd : ∀ {index : Nat} {cell : Cell α}, table.slot index = some cell → cell.hash % 2 = 1
  gradual : ∀ {index : Nat}, index < table.slotCount →
    table.reach (table.next index) ≤ table.reach index + 1

structure Sound (table : Table α) : Prop extends Ordered table where
  counted : table.cells.length = table.population
  roomy : table.population ≤ table.trigger

theorem Sound.population_lt (sound : Sound table) : table.population + 2 ≤ table.slotCount := by
  have share := sound.shaped.eight_mul_trigger
  have least := sound.shaped.sixteen_le
  have roomy := sound.roomy
  omega

theorem Sound.exists_free (sound : Sound table) :
    ∃ index < table.slotCount, table.slot index = none := by
  apply Table.exists_free
  have below := sound.population_lt
  have counted := sound.counted
  omega

/-- A table without slots, or one whose ring is in order and counted. -/
inductive Valid (table : Table α) : Prop where
  | unallocated (slots : table.slotCount = 0) (population : table.population = 0)
      (trigger : table.trigger = 0)
  | allocated (sound : Sound table)

theorem valid_empty : Valid (empty : Table α) :=
  .unallocated rfl rfl rfl

theorem Valid.sound (valid : Valid table) (allocated : table.slotCount ≠ 0) : Sound table := by
  cases valid with
  | unallocated slots => exact absurd slots allocated
  | allocated sound => exact sound

theorem cells_of_unallocated (slots : table.slotCount = 0) : table.cells = [] := by
  rw [cells_eq, slots]
  rfl

theorem Valid.counted (valid : Valid table) : table.cells.length = table.population := by
  cases valid with
  | unallocated slots population => rw [cells_of_unallocated slots, population, List.length_nil]
  | allocated sound => exact sound.counted

theorem Valid.odd (valid : Valid table) {cell : Cell α} (member : cell ∈ table.cells) :
    cell.hash % 2 = 1 := by
  cases valid with
  | unallocated slots =>
      rw [cells_of_unallocated slots] at member
      simp at member
  | allocated sound =>
      obtain ⟨index, held⟩ := mem_cells.mp member
      exact sound.odd held

theorem Valid.roomy (valid : Valid table) : table.population ≤ table.trigger := by
  cases valid with
  | unallocated _ population trigger => omega
  | allocated sound => exact sound.roomy

theorem Valid.eight_mul_trigger (valid : Valid table) :
    8 * table.trigger = 7 * table.slotCount := by
  cases valid with
  | unallocated slots _ trigger => omega
  | allocated sound => exact sound.shaped.eight_mul_trigger

theorem Valid.slotCount_ne_zero (valid : Valid table) (occupied : table.population ≠ 0) :
    table.slotCount ≠ 0 := by
  have roomy := valid.roomy
  have share := valid.eight_mul_trigger
  omega

theorem Ordered.reach_after_le (ordered : Ordered table) {base : Nat}
    (bound : base < table.slotCount) (steps : Nat) :
    table.reach (table.after base steps) ≤ table.reach base + steps :=
  ordered.shaped.reach_after_le (fun _ => ordered.gradual) bound steps

theorem Ordered.lt_reach_of_le (ordered : Ordered table) {index steps : Nat} {cell : Cell α}
    (held : table.slot index = some cell) (before : steps ≤ table.displacement cell.hash index) :
    steps < table.reach (table.after (table.home cell.hash) steps) :=
  ordered.shaped.lt_reach_of_le (fun _ => ordered.gradual) held before

theorem Ordered.reach_lt (ordered : Ordered table)
    (free : ∃ index < table.slotCount, table.slot index = none) {index : Nat}
    (bound : index < table.slotCount) : table.reach index < table.slotCount := by
  obtain ⟨hole, holeBound, empty⟩ := free
  obtain ⟨steps, stepsBound, rfl⟩ := exists_after holeBound bound
  have climb := ordered.reach_after_le holeBound steps
  rw [reach_of_free empty] at climb
  omega

theorem Ordered.displacement_next (ordered : Ordered table)
    (free : ∃ index < table.slotCount, table.slot index = none) {index : Nat} {cell : Cell α}
    (held : table.slot index = some cell) :
    table.displacement cell.hash (table.next index) = table.reach index := by
  have bound := lt_of_slot held
  have low := ordered.reach_lt free bound
  rw [reach_of_cell held] at low ⊢
  exact ordered.shaped.displacement_next cell.hash bound low

theorem Ordered.put (ordered : Ordered table) {index : Nat} {cell : Cell α}
    (bound : index < table.slotCount) (odd : cell.hash % 2 = 1)
    (allowed : table.displacement cell.hash index ≤ table.reach (table.previous index))
    (raised : table.reach index ≤ table.displacement cell.hash index + 1) :
    Ordered (table.put index (some cell)) := by
  have same := put_sameShape table index (some cell)
  have here : (table.put index (some cell)).reach index =
      table.displacement cell.hash index + 1 := by
    rw [reach_of_cell (slot_put_self (some cell) bound), same.displacement]
  have elsewhere {position : Nat} (apart : position ≠ index) :
      (table.put index (some cell)).reach position = table.reach position :=
    same.reach_congr (slot_put_of_ne (some cell) bound apart)
  refine ⟨same.shaped ordered.shaped, ?_, ?_⟩
  · intro position resident held
    rw [slot_put table (some cell) bound] at held
    split at held
    · simp only [Option.some.injEq] at held
      subst resident
      exact odd
    · exact ordered.odd held
  · intro position positionBound
    rw [same.slotCount] at positionBound
    have step := ordered.gradual positionBound
    rw [next_eq, same.after, ← next_eq]
    by_cases lands : table.next position = index
    · have before : table.previous index = position := by rw [← lands, previous_next positionBound]
      rw [lands, here]
      by_cases loops : position = index
      · rw [loops, here]
        omega
      · rw [elsewhere loops]
        rw [before] at allowed
        omega
    · rw [elsewhere lands]
      by_cases leaves : position = index
      · subst position
        rw [here]
        omega
      · rw [elsewhere leaves]
        exact step

theorem reach_modifyAt (table : Table α) (index : Nat) (change : α → α) (position : Nat) :
    (table.modifyAt index change).reach position = table.reach position := by
  cases held : table.slot index with
  | none => rw [modifyAt_of_free change held]
  | some cell =>
      rw [modifyAt_eq_put change held]
      have bound := lt_of_slot held
      have same := put_sameShape table index (some { cell with value := change cell.value })
      by_cases here : position = index
      · subst position
        rw [reach_of_cell (slot_put_self _ bound), reach_of_cell held, same.displacement]
      · exact same.reach_congr (slot_put_of_ne _ bound here)

theorem modifyAt_sameShape (table : Table α) (index : Nat) (change : α → α) :
    SameShape table (table.modifyAt index change) := by
  refine ⟨?_, rfl, rfl, rfl⟩
  simp [modifyAt, slotCount]

theorem Ordered.modifyAt (ordered : Ordered table) (index : Nat) (change : α → α) :
    Ordered (table.modifyAt index change) := by
  have same := modifyAt_sameShape table index change
  refine ⟨same.shaped ordered.shaped, ?_, ?_⟩
  · intro position resident held
    cases present : table.slot index with
    | none =>
        rw [modifyAt_of_free change present] at held
        exact ordered.odd held
    | some cell =>
        rw [modifyAt_eq_put change present, slot_put table _ (lt_of_slot present)] at held
        split at held
        · simp only [Option.some.injEq] at held
          subst resident
          have before := ordered.odd present
          exact before
        · exact ordered.odd held
  · intro position bound
    rw [same.slotCount] at bound
    rw [next_eq, same.after, ← next_eq, reach_modifyAt, reach_modifyAt]
    exact ordered.gradual bound

theorem length_cells_modifyAt (table : Table α) (index : Nat) (change : α → α) :
    (table.modifyAt index change).cells.length = table.cells.length := by
  cases held : table.slot index with
  | none => rw [modifyAt_of_free change held]
  | some cell =>
      rw [modifyAt_eq_put change held]
      have exchanged := (cells_put_cell { cell with value := change cell.value } held).length_eq
      simpa using exchanged

theorem Sound.modifyAt (sound : Sound table) (index : Nat) (change : α → α) :
    Sound (table.modifyAt index change) := by
  refine ⟨sound.toOrdered.modifyAt index change, ?_, sound.roomy⟩
  rw [length_cells_modifyAt]
  exact sound.counted

theorem Ordered.of_free (shaped : Shaped table)
    (free : ∀ index, table.slot index = none) : Ordered table := by
  refine ⟨shaped, ?_, ?_⟩
  · intro index cell held
    rw [free] at held
    simp at held
  · intro index _
    rw [reach_of_free (free _)]
    exact Nat.zero_le _

end RobinHood.Table
