import RobinHood.Proofs.Order
import RobinHood.Table.Growth

/-!
Moving to a larger ring. A cell that is carried on always fits behind the slot before it, so every
partly filled ring on the way is ordered, and a free slot ends each walk. Nothing can fail but the
request for memory.
-/

namespace RobinHood

theorem bind_of_ok {α β : Type} {first : Except TableError α} {next : α → Except TableError β}
    {result : α} {outcome : Except TableError β} (done : first = .ok result)
    (rest : next result = outcome) : (first >>= next) = outcome := by
  rw [done]
  exact rest

theorem exists_of_bind {ε α β : Type} {first : Except ε α} {next : α → Except ε β} {result : β}
    (done : first >>= next = .ok result) :
    ∃ middle, first = .ok middle ∧ next middle = .ok result := by
  cases first with
  | error error => simp [bind, Except.bind] at done
  | ok middle => exact ⟨middle, rfl, done⟩

theorem exists_of_map {α β : Type} {first : Except TableError α} {change : α → β} {result : β}
    (done : first.map change = .ok result) :
    ∃ middle, first = .ok middle ∧ change middle = result := by
  cases first with
  | error error => simp [Except.map] at done
  | ok middle => exact ⟨middle, rfl, Except.ok.inj done⟩

inductive Memory.Refusal (memory : Memory) : TableError → Prop
  | overflow : Refusal memory .capacityOverflow
  | refused {slots : Nat} : memory.grants slots = false →
      Refusal memory (.allocationFailure slots)

structure Memory.Supplies (memory : Memory) (slots : Nat) : Prop where
  counted : slots < 2 ^ 64
  addressed : slots * memory.slotBytes < 2 ^ 63
  granted : memory.grants slots = true

/-- Every request is granted that a table for so many values can make. -/
def Memory.Provides (memory : Memory) (demand : Nat) : Prop :=
  ∀ slots ≤ max 16 (4 * demand), memory.Supplies slots

theorem Memory.allocate_cases (α : Type) (memory : Memory) (slots : Nat) :
    memory.allocate (α := α) slots = .ok (Array.replicate slots none) ∨
      ∃ error, memory.allocate (α := α) slots = .error error ∧ memory.Refusal error ∧
        ¬ memory.Supplies slots := by
  by_cases large : UInt64.size / 2 ≤ slots * memory.slotBytes
  · refine Or.inr ⟨.capacityOverflow, by rw [allocate, if_pos large], .overflow, ?_⟩
    intro supplied
    have addressed := supplied.addressed
    rw [Table.wordSize_eq] at large
    omega
  · rw [allocate, if_neg large]
    cases granted : memory.grants slots with
    | true => exact Or.inl rfl
    | false =>
        refine Or.inr ⟨.allocationFailure slots, rfl, .refused granted, ?_⟩
        intro supplied
        simp [supplied.granted] at granted

theorem Memory.eq_replicate_of_allocate {α : Type} {memory : Memory} {slots : Nat}
    {fresh : Array (Slot α)} (granted : memory.allocate slots = .ok fresh) :
    fresh = Array.replicate slots none := by
  rcases memory.allocate_cases α slots with allocated | ⟨error, refused, _⟩
  · exact (Except.ok.inj (allocated.symm.trans granted)).symm
  · rw [refused] at granted
    simp at granted

namespace Table

variable {α : Type} {table : Table α}

structure Placed (table result : Table α) (added : List (Cell α)) : Prop where
  ordered : Ordered result
  shape : SameShape table result
  population : result.population = table.population
  cells : result.cells.Perm (added ++ table.cells)

theorem free_ahead {other : Table α} {resident : Cell α} {index steps : Nat}
    (same : SameShape table other) (bound : index < table.slotCount)
    (held : table.slot index = some resident)
    (kept : ∀ position, position ≠ index → other.slot position = table.slot position)
    (free : ∃ offset < steps + 1, table.slot (table.after index offset) = none) :
    ∃ offset < steps, other.slot (other.after (table.next index) offset) = none := by
  obtain ⟨offset, within, empty⟩ := free
  cases offset with
  | zero =>
      rw [after_zero bound, held] at empty
      simp at empty
  | succ offset =>
      refine ⟨offset, by omega, ?_⟩
      rw [same.after, next_eq, after_after, Nat.add_comm 1 offset, kept _ ?_]
      · exact empty
      · intro loops
        rw [loops, held] at empty
        simp at empty

theorem settle_spec {carried : Cell α} {index distance steps : Nat} (ordered : Ordered table)
    (bound : index < table.slotCount) (odd : carried.hash % 2 = 1)
    (travelled : distance = table.displacement carried.hash index)
    (allowed : distance ≤ table.reach (table.previous index))
    (free : ∃ offset < steps, table.slot (table.after index offset) = none) :
    ∃ result, table.settle carried index distance steps = .ok result ∧
      Placed table result [carried] := by
  -- The carried cell never passes a free slot, so the first one ahead bounds the walk.
  induction steps generalizing table carried index distance with
  | zero =>
      obtain ⟨offset, impossible, _⟩ := free
      omega
  | succ steps ih =>
      have allocated := ordered.shaped.allocated
      have hole : ∃ hole < table.slotCount, table.slot hole = none := by
        obtain ⟨offset, _, empty⟩ := free
        exact ⟨_, after_lt allocated index offset, empty⟩
      have nextBound := after_lt allocated index 1
      rw [settle]
      cases held : table.slot index with
      | none =>
          refine ⟨table.put index (some carried), fill_eq_put carried bound held, ?_,
            put_sameShape _ _ _, rfl, cells_put_free carried bound held⟩
          refine ordered.put bound odd (by omega) ?_
          rw [reach_of_free held]
          exact Nat.zero_le _
      | some resident =>
          have arrival := ordered.displacement_next hole held
          have low := ordered.reach_lt hole bound
          have here := reach_of_cell held
          by_cases closer : table.displacement resident.hash index < distance
          · let swapped := table.put index (some carried)
            have same : SameShape table swapped := put_sameShape _ _ _
            have swappedOrdered : Ordered swapped :=
              ordered.put bound odd (by omega) (by omega)
            have carriedReach : swapped.reach index = distance + 1 := by
              rw [reach_of_cell (slot_put_self (some carried) bound), same.displacement, travelled]
            have before : swapped.previous (table.next index) = index := by
              rw [next_eq, ← same.after, ← next_eq]
              exact previous_next (by rw [same.slotCount]; exact bound)
            have ahead := free_ahead same bound held (fun _ apart => slot_put_of_ne _ bound apart)
              free
            obtain ⟨result, settled, placed⟩ := @ih swapped resident (table.next index)
              (table.displacement resident.hash index + 1) swappedOrdered
              (by rw [same.slotCount]; exact nextBound) (ordered.odd held)
              (by rw [same.displacement, arrival, here]) (by rw [before, carriedReach]; omega) ahead
            refine ⟨result, ?_, placed.ordered, same.trans placed.shape, placed.population, ?_⟩
            · simp only [closer, if_true]
              exact settled
            · exact placed.cells.trans (cells_put_cell carried held)
          · have rejected : table.displacement carried.hash (table.next index) = distance + 1 := by
              rw [ordered.shaped.displacement_next carried.hash bound (by omega), travelled]
            have ahead := free_ahead (SameShape.refl table) bound held (fun _ _ => rfl) free
            obtain ⟨result, settled, placed⟩ := @ih table carried (table.next index) (distance + 1)
              ordered nextBound odd rejected.symm (by rw [previous_next bound]; omega) ahead
            refine ⟨result, ?_, placed⟩
            simp only [closer, if_false]
            exact settled

theorem place_spec {cell : Cell α} (ordered : Ordered table) (odd : cell.hash % 2 = 1)
    (room : table.cells.length < table.slotCount) :
    ∃ result, table.place cell = .ok result ∧ Placed table result [cell] := by
  have bound := ordered.shaped.home_lt cell.hash
  have inside : ¬ table.slotCount ≤ table.home cell.hash := by omega
  have home : 0 = table.displacement cell.hash (table.home cell.hash) := by
    have start := ordered.shaped.displacement_after cell.hash ordered.shaped.allocated
    rw [after_zero bound] at start
    exact start.symm
  obtain ⟨hole, holeBound, empty⟩ := exists_free room
  obtain ⟨offset, offsetBound, rfl⟩ := exists_after bound holeBound
  obtain ⟨result, settled, placed⟩ := settle_spec ordered bound odd home (Nat.zero_le _)
    ⟨offset, offsetBound, empty⟩
  exact ⟨result, by simp only [place, inside, if_false, settled], placed⟩

theorem foldlM_place_spec (added : List (Cell α)) (ordered : Ordered table)
    (odd : ∀ cell ∈ added, cell.hash % 2 = 1)
    (room : added.length + table.cells.length < table.slotCount) :
    ∃ result, added.foldlM place table = .ok result ∧ Placed table result added := by
  induction added generalizing table with
  | nil => exact ⟨table, rfl, ordered, SameShape.refl table, rfl, List.Perm.refl _⟩
  | cons cell rest ih =>
      rw [List.length_cons] at room
      obtain ⟨middle, placed, step⟩ := place_spec ordered (odd cell (by simp)) (by omega)
      have length := step.cells.length_eq
      rw [List.length_append, List.length_singleton] at length
      obtain ⟨result, folded, tail⟩ := ih step.ordered
        (fun other member => odd other (List.mem_cons_of_mem _ member))
        (by rw [step.shape.slotCount]; omega)
      refine ⟨result, ?_, tail.ordered, step.shape.trans tail.shape,
        tail.population.trans step.population, ?_⟩
      · rw [List.foldlM_cons, placed]
        exact folded
      · exact (tail.cells.trans (step.cells.append_left rest)).trans List.perm_middle

theorem ofSlots_shaped {width population : Nat} {slots : Array (Slot α)} (least : 4 ≤ width)
    (most : width ≤ 64) (size : slots.size = 2 ^ width) : Shaped (ofSlots slots population) := by
  have positive : 0 < 2 ^ width := Nat.two_pow_pos width
  have nonzero : slots.size ≠ 0 := by omega
  simp only [ofSlots, nonzero, if_false]
  refine ⟨⟨width, least, size⟩, rfl, ?_, rfl⟩
  simp only [size, Nat.log2_two_pow, allOnes_shiftRight, Nat.sub_sub_self most]

@[simp] theorem slots_ofSlots (slots : Array (Slot α)) (population : Nat) :
    (ofSlots slots population).slots = slots := by
  simp only [ofSlots]
  split <;> rfl

@[simp] theorem population_ofSlots (slots : Array (Slot α)) (population : Nat) :
    (ofSlots slots population).population = population := by
  simp only [ofSlots]
  split <;> rfl

theorem cells_of_free (free : ∀ index, table.slot index = none) : table.cells = [] := by
  apply List.eq_nil_iff_forall_not_mem.mpr
  intro cell member
  obtain ⟨index, held⟩ := mem_cells.mp member
  rw [free] at held
  simp at held

theorem slot_ofSlots_replicate (count population index : Nat) :
    (ofSlots (Array.replicate count (none : Slot α)) population).slot index = none := by
  simp [slot, Array.getD]

structure Grown (table grown : Table α) : Prop where
  sound : Sound grown
  population : grown.population = table.population
  cells : grown.cells.Perm table.cells

theorem Sound.grown (sound : Sound table) : Grown table table :=
  ⟨sound, rfl, List.Perm.refl _⟩

theorem isPowerOfTwo_two_pow (width : Nat) : isPowerOfTwo (2 ^ width) = true := by
  simp [isPowerOfTwo, Nat.log2_two_pow, Nat.one_shiftLeft]

theorem Valid.refill_spec (valid : Valid table) {width slots : Nat} (power : slots = 2 ^ width)
    (least : 4 ≤ width) (most : width ≤ 64) (larger : table.slotCount < slots) :
    ∃ grown, table.cells.foldlM place
        (ofSlots (Array.replicate slots none) table.population) = .ok grown ∧
      Grown table grown ∧ grown.slotCount = slots := by
  let fresh : Table α := ofSlots (Array.replicate slots none) table.population
  have shaped : Shaped fresh := ofSlots_shaped least most (by simp [power])
  have free : ∀ index, fresh.slot index = none := slot_ofSlots_replicate _ _
  have emptied : fresh.cells = [] := cells_of_free free
  have freshCount : fresh.slotCount = slots := by simp [fresh, slotCount]
  have counted := valid.counted
  have roomy := valid.roomy
  have share := valid.eight_mul_trigger
  obtain ⟨grown, placed, result⟩ := foldlM_place_spec table.cells
    (Ordered.of_free shaped free) (fun cell => valid.odd)
    (by rw [emptied, List.length_nil, freshCount]; omega)
  have cells := result.cells
  rw [emptied, List.append_nil] at cells
  have grownShare := result.ordered.shaped.eight_mul_trigger
  have grownCount : grown.slotCount = slots := result.shape.slotCount.trans freshCount
  have population : grown.population = table.population :=
    result.population.trans (population_ofSlots _ _)
  refine ⟨grown, placed, ⟨⟨result.ordered, ?_, ?_⟩, population, cells⟩, grownCount⟩
  · rw [cells.length_eq, counted, population]
  · omega

theorem resize_of_larger (memory : Memory) {slots : Nat} (power : isPowerOfTwo slots = true)
    (larger : table.slotCount < slots) :
    table.resize memory slots = (memory.allocate slots >>= fun fresh =>
      table.cells.foldlM place (ofSlots fresh table.population)) := by
  have accepted : ¬ (¬ isPowerOfTwo slots ∨ slots ≤ table.slotCount) := by
    rw [power]
    simp only [not_true_eq_false, false_or]
    omega
  simp only [resize, accepted, if_false]

theorem Valid.resize_of_granted (valid : Valid table) {memory : Memory} {width slots : Nat}
    {fresh : Array (Slot α)} (power : slots = 2 ^ width) (least : 4 ≤ width) (most : width ≤ 64)
    (larger : table.slotCount < slots) (granted : memory.allocate slots = .ok fresh) :
    ∃ grown, table.resize memory slots = .ok grown ∧ Grown table grown ∧
      grown.slotCount = slots := by
  obtain ⟨grown, placed, grows, count⟩ := valid.refill_spec power least most larger
  refine ⟨grown, ?_, grows, count⟩
  rw [resize_of_larger memory (power ▸ isPowerOfTwo_two_pow width) larger]
  refine bind_of_ok granted ?_
  rw [Memory.eq_replicate_of_allocate granted]
  exact placed

theorem Valid.resize_cases (valid : Valid table) (memory : Memory) {width slots : Nat}
    (power : slots = 2 ^ width) (least : 4 ≤ width) (most : width ≤ 64)
    (larger : table.slotCount < slots) :
    (∃ grown, table.resize memory slots = .ok grown ∧ Grown table grown ∧
        grown.slotCount = slots) ∨
      ∃ error, table.resize memory slots = .error error ∧ memory.Refusal error ∧
        ¬ memory.Supplies slots := by
  rcases memory.allocate_cases α slots with allocated | ⟨error, refused, refusal, missing⟩
  · exact Or.inl (valid.resize_of_granted power least most larger allocated)
  · refine Or.inr ⟨error, ?_, refusal, missing⟩
    rw [resize_of_larger memory (power ▸ isPowerOfTwo_two_pow width) larger, refused]
    rfl

def nextSlots (table : Table α) : Nat :=
  if table.slotCount = 0 then leastSlots else 2 * table.slotCount

theorem grow_eq (memory : Memory) (table : Table α) :
    table.grow memory = if 2 ^ 64 ≤ table.nextSlots then .error .capacityOverflow
      else table.resize memory table.nextSlots := by
  by_cases unallocated : table.slotCount = 0
  · have small : ¬ 2 ^ 64 ≤ leastSlots := by decide
    simp only [grow, nextSlots, unallocated, if_true, if_neg small]
  · simp only [grow, nextSlots, unallocated, if_false, wordSize_eq]

theorem Valid.nextSlots_cases (valid : Valid table) : table.slotCount < table.nextSlots ∧
    (2 ^ 64 ≤ table.nextSlots ∨ ∃ width, table.nextSlots = 2 ^ width ∧ 4 ≤ width ∧ width ≤ 63) := by
  by_cases unallocated : table.slotCount = 0
  · simp only [nextSlots, unallocated, if_true]
    exact ⟨by decide, Or.inr ⟨4, rfl, by omega, by omega⟩⟩
  · simp only [nextSlots, unallocated, if_false]
    refine ⟨by omega, ?_⟩
    obtain ⟨width, least, count⟩ := (valid.sound unallocated).shaped.power
    by_cases large : 2 ^ 64 ≤ 2 * table.slotCount
    · exact Or.inl large
    · have power : 2 * table.slotCount = 2 ^ (width + 1) := by
        rw [count, Nat.pow_succ, Nat.mul_comm]
      have most : width + 1 < 64 := by
        rw [← Nat.pow_lt_pow_iff_right (a := 2) (by decide), ← power]
        omega
      exact Or.inr ⟨width + 1, power, by omega, by omega⟩

theorem Valid.grow_cases (valid : Valid table) (memory : Memory) :
    (∃ grown, table.grow memory = .ok grown ∧ Grown table grown ∧
        grown.slotCount = table.nextSlots) ∨
      ∃ error, table.grow memory = .error error ∧ memory.Refusal error ∧
        ¬ memory.Supplies table.nextSlots := by
  rw [grow_eq]
  split
  next large =>
    refine Or.inr ⟨.capacityOverflow, rfl, .overflow, ?_⟩
    intro supplied
    exact absurd supplied.counted (Nat.not_lt.mpr large)
  next fits =>
    obtain ⟨larger, large | ⟨width, power, least, most⟩⟩ := valid.nextSlots_cases
    · exact absurd large fits
    · exact valid.resize_cases memory power least (by omega) larger

/-- What an entry finds: a ring in order, with the same cells and room for one more. -/
structure Ready (table ready : Table α) : Prop extends Grown table ready where
  room : ready.population < ready.trigger

theorem Valid.growIfFull_cases (valid : Valid table) (memory : Memory) :
    (∃ ready, table.growIfFull memory = .ok ready ∧ Ready table ready) ∨
      ∃ error, table.growIfFull memory = .error error ∧ memory.Refusal error ∧
        ¬ memory.Provides table.population := by
  have roomy := valid.roomy
  have share := valid.eight_mul_trigger
  by_cases full : table.population = table.trigger
  · simp only [growIfFull, full, if_true]
    rcases valid.grow_cases memory with
      ⟨grown, done, keeps, count⟩ | ⟨error, failed, refusal, missing⟩
    · refine Or.inl ⟨grown, done, keeps, ?_⟩
      have grownShare := keeps.sound.shaped.eight_mul_trigger
      have population := keeps.population
      simp only [nextSlots, leastSlots] at count
      split at count <;> omega
    · refine Or.inr ⟨error, failed, refusal, ?_⟩
      intro provided
      refine missing (provided _ ?_)
      simp only [nextSlots, leastSlots]
      split <;> omega
  · have allocated : table.slotCount ≠ 0 := by omega
    refine Or.inl ⟨table, by simp only [growIfFull, full, if_false], ?_⟩
    exact ⟨(valid.sound allocated).grown, by omega⟩

theorem slotsFor_cases (required : Nat) :
    (∃ width, slotsFor required = .ok (2 ^ width) ∧ 4 ≤ width ∧ width < 64 ∧
        required ≤ triggerOf (2 ^ width - 1) ∧ 2 ^ width ≤ max 16 (4 * required)) ∨
      slotsFor required = .error .capacityOverflow ∧ 2 ^ 64 ≤ 4 * required := by
  have share (width : Nat) (least : 3 ≤ width) :
      8 * triggerOf (2 ^ width - 1) = 7 * 2 ^ width := by
    obtain ⟨excess, rfl⟩ : ∃ excess, width = excess + 3 := ⟨width - 3, by omega⟩
    exact eight_mul_triggerOf excess
  simp only [slotsFor, Nat.one_shiftLeft]
  cases found : firstWhere (fun power => decide (required ≤ triggerOf (2 ^ power - 1))) 4 60 with
  | none =>
      have short := firstWhere_eq_none_iff.mp found 63 (by omega) (by omega)
      have largest := share 63 (by omega)
      simp only [decide_eq_false_iff_not] at short
      refine Or.inr ⟨rfl, ?_⟩
      omega
  | some width =>
      obtain ⟨least, below, fits, before⟩ := firstWhere_eq_some_iff.mp found
      refine Or.inl ⟨width, rfl, least, by omega, by simpa using fits, ?_⟩
      by_cases first : width = 4
      · subst width
        omega
      · have short := before (width - 1) (by omega) (by omega)
        have half := share (width - 1) (by omega)
        have double : 2 ^ width = 2 * 2 ^ (width - 1) := by
          rw [← Nat.pow_succ', Nat.succ_eq_add_one, Nat.sub_add_cancel (by omega)]
        simp only [decide_eq_false_iff_not] at short
        omega

theorem Valid.reserve_cases (valid : Valid table) (memory : Memory) (additional : Nat) :
    (∃ reserved, table.reserve memory additional = .ok reserved ∧ Valid reserved ∧
        reserved.population = table.population ∧ reserved.cells.Perm table.cells) ∨
      ∃ error, table.reserve memory additional = .error error ∧ memory.Refusal error ∧
        ¬ memory.Provides (table.population + additional) := by
  simp only [reserve, wordSize_eq]
  have bounded (provided : memory.Provides (table.population + additional)) :
      4 * (table.population + additional) < 2 ^ 64 := by
    have counted := (provided (4 * (table.population + additional)) (by omega)).counted
    exact counted
  by_cases large : 2 ^ 64 ≤ table.population + additional
  · rw [if_pos large]
    refine Or.inr ⟨.capacityOverflow, rfl, .overflow, ?_⟩
    intro provided
    have limit := bounded provided
    omega
  · rw [if_neg large]
    by_cases fits : table.population + additional = 0 ∨
        table.population + additional ≤ table.trigger
    · rw [if_pos fits]
      exact Or.inl ⟨table, rfl, valid, rfl, List.Perm.refl _⟩
    · rw [if_neg fits]
      rcases slotsFor_cases (table.population + additional) with
        ⟨width, slots, least, most, enough, bound⟩ | ⟨overflow, limit⟩
      · rw [slots]
        have share := valid.eight_mul_trigger
        have larger : table.slotCount < 2 ^ width := by
          obtain ⟨excess, rfl⟩ : ∃ excess, width = excess + 3 := ⟨width - 3, by omega⟩
          have grownShare := eight_mul_triggerOf excess
          omega
        rcases valid.resize_cases memory rfl least (by omega) larger with
          ⟨grown, done, keeps, _⟩ | ⟨error, failed, refusal, missing⟩
        · exact Or.inl ⟨grown, done, .allocated keeps.sound, keeps.population, keeps.cells⟩
        · exact Or.inr ⟨error, failed, refusal, fun provided => missing (provided _ bound)⟩
      · rw [overflow]
        refine Or.inr ⟨.capacityOverflow, rfl, .overflow, ?_⟩
        intro provided
        have limit' := bounded provided
        omega

end Table

end RobinHood
