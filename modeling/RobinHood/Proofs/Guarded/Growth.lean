import RobinHood.Proofs.Guarded.Shifting
import RobinHood.Proofs.SlotCounts

/-!
Growing step by step. Slot counts are doubled as long as they fit a word; a slot count that a word
can hold is at most half of the words, so no walk through a larger ring counts too far.
-/

namespace RobinHood

variable {α : Type}

namespace Guarded

def double (slots : Nat) : Guarded Nat :=
  if 2 * slots < UInt64.size then pure (2 * slots) else fail .capacityOverflow

noncomputable section

def slotsFrom (required : Nat) : (slots : Nat) → Guarded Nat :=
  loop fun slots => do
    if Table.triggerOf (← sub slots 1) < required then return .again (← double slots)
    else return .done slots

def trailingZeros (word : Nat) : Nat :=
  (firstWhere word.testBit 0 64).getD 64

def setGeometry (slots : Array (Slot α)) (population : Nat) : Guarded (Table α) := do
  if slots.size = 0 then return { slots, mask := 0, shift := 64, population, trigger := 0 }
  else
    let mask ← sub slots.size 1
    let shift ← sub 64 (trailingZeros slots.size)
    ensure ((← shiftRight (UInt64.size - 1) shift) = mask)
    return { slots, mask, shift, population, trigger := Table.triggerOf mask }

/-- Leaves a carried cell in a slot if its resident is closer to home; the resident goes on. -/
def exchange (table : Table α) (carried : Cell α) (index distance : Nat) :
    Guarded (Table α × Cell α × Nat) := do
  match ← fetch table.slots index with
  | none => return (table, carried, distance)
  | some resident =>
      let settled ← displacement table resident.hash index
      if settled < distance then
        let slots ← store table.slots index (some carried)
        return ({ table with slots }, resident, settled)
      else return (table, carried, distance)

def reinsertFrom (table : Table α) (carried : Cell α) (index distance : Nat) :
    Guarded (Table α) :=
  loop (fun (table, carried, index, distance) => do
    if readsFree (← fetch table.slots index) then
      return .done { table with slots := ← fill table.slots index carried }
    else
      let (table, carried, distance) ← exchange table carried index distance
      let distance ← add distance 1
      return .again (table, carried, ← next table index, distance))
    (table, carried, index, distance)

def reinsert (table : Table α) (cell : Cell α) : Guarded (Table α) := do
  reinsertFrom table cell (← home table cell.hash) 0

def resize (memory : Memory) (table : Table α) (slots : Nat) : Guarded (Table α) := do
  ensure (Table.isPowerOfTwo slots = true)
  ensure (table.slotCount < slots)
  let fresh ← ofExcept (memory.allocate slots)
  let larger ← setGeometry fresh table.population
  table.slots.toList.foldlM (fun larger slot => slot.elim (pure larger) (reinsert larger)) larger

def grow (memory : Memory) (table : Table α) : Guarded (Table α) := do
  if table.slotCount = 0 then resize memory table Table.leastSlots
  else resize memory table (← double table.slotCount)

def growIfFull (memory : Memory) (table : Table α) : Guarded (Table α) := do
  if table.population = table.trigger then grow memory table else return table

def reserve (memory : Memory) (table : Table α) (additional : Nat) : Guarded (Table α) := do
  let required := table.population + additional
  if UInt64.size ≤ required then fail .capacityOverflow
  else if required = 0 ∨ required ≤ table.trigger then return table
  else resize memory table (← slotsFrom required Table.leastSlots)

def withCapacity (memory : Memory) (capacity : Nat) : Guarded (Table α) :=
  reserve memory Table.empty capacity

end

theorem slotsFrom_turn (required slots : Nat) :
    slotsFrom required slots = (do
      if Table.triggerOf (← sub slots 1) < required then slotsFrom required (← double slots)
      else return slots) := by
  rw [slotsFrom, loop_eq, bind_assoc]
  simp only [ite_bind, bind_assoc, pure_done_then, pure_again_then]

theorem reinsertFrom_turn (table : Table α) (carried : Cell α) (index distance : Nat) :
    reinsertFrom table carried index distance = (do
      if readsFree (← fetch table.slots index) then
        return { table with slots := ← fill table.slots index carried }
      else
        let (table, carried, distance) ← exchange table carried index distance
        let distance ← add distance 1
        reinsertFrom table carried (← next table index) distance) := by
  rw [reinsertFrom, loop_eq, bind_assoc]
  simp only [ite_bind, bind_assoc, pure_done_then, pure_again_then]
  rfl

theorem firstWhere_succ (test : Nat → Bool) (start count : Nat) :
    firstWhere test start (count + 1) =
      if test start = true then some start else firstWhere test (start + 1) count := by
  rw [firstWhere, firstAnswer]
  cases test start <;> rfl

theorem double_two_pow {power : Nat} (fits : power + 1 < 64) :
    double (2 ^ power) = pure (2 ^ (power + 1)) := by
  have below : 2 ^ (power + 1) < UInt64.size := Nat.pow_lt_pow_right (by decide) fits
  rw [double, ← Nat.pow_succ', if_pos below]

theorem slotsFrom_two_pow (required : Nat) {power count : Nat} (range : power + count + 1 = 64) :
    slotsFrom required (2 ^ power) = ofExcept
      (match firstWhere (fun power => required ≤ Table.triggerOf ((1 <<< power) - 1)) power
          (count + 1) with
      | some power => .ok (1 <<< power)
      | none => .error .capacityOverflow) := by
  induction count generalizing power with
  | zero =>
      obtain rfl : power = 63 := by omega
      rw [slotsFrom_turn, sub_of Nat.one_le_two_pow, pure_bind, firstWhere_succ, Nat.one_shiftLeft]
      by_cases enough : required ≤ Table.triggerOf (2 ^ 63 - 1)
      · rw [if_neg (Nat.not_lt.mpr enough), if_pos (by simpa using enough)]
        rfl
      · rw [if_pos (Nat.not_le.mp enough), if_neg (by simpa using enough)]
        rfl
  | succ count ih =>
      rw [slotsFrom_turn, sub_of Nat.one_le_two_pow, pure_bind, firstWhere_succ, Nat.one_shiftLeft]
      by_cases enough : required ≤ Table.triggerOf (2 ^ power - 1)
      · rw [if_neg (Nat.not_lt.mpr enough), if_pos (by simpa using enough)]
        simp only [Nat.one_shiftLeft]
        rfl
      · rw [if_pos (Nat.not_le.mp enough), if_neg (by simpa using enough),
          double_two_pow (by omega), pure_bind]
        exact ih (by omega)

theorem slotsFrom_eq (required : Nat) :
    slotsFrom required Table.leastSlots = ofExcept (Table.slotsFor required) :=
  slotsFrom_two_pow required (show 4 + 59 + 1 = 64 from rfl)

theorem trailingZeros_two_pow {width : Nat} (fits : width < 64) :
    trailingZeros (2 ^ width) = width := by
  have first : firstWhere (2 ^ width).testBit 0 64 = some width := by
    refine firstWhere_eq_some_iff.mpr ⟨Nat.zero_le _, by omega, Nat.testBit_two_pow_self, ?_⟩
    intro earlier _ before
    exact Nat.testBit_two_pow_of_ne (by omega)
  rw [trailingZeros, first]
  rfl

end Guarded

namespace Table

open Guarded

variable {table : Table α} {memory : Memory}

theorem setGeometry_eq {width : Nat} {slots : Array (Slot α)} (population : Nat)
    (size : slots.size = 2 ^ width) (least : 4 ≤ width) (most : width < 64) :
    setGeometry slots population = pure (ofSlots slots population) := by
  have shaped : Shaped (ofSlots slots population) :=
    ofSlots_shaped least (Nat.le_of_lt most) size
  have allocated : slots.size ≠ 0 := by
    rw [size]
    exact (Nat.two_pow_pos width).ne'
  have laid : ofSlots slots population =
      { slots, mask := slots.size - 1, shift := 64 - trailingZeros slots.size, population,
        trigger := triggerOf (slots.size - 1) } := by
    rw [ofSlots, if_neg allocated, size, Nat.log2_two_pow, trailingZeros_two_pow most]
  rw [laid] at shaped
  have narrow : trailingZeros slots.size ≤ 64 := by
    rw [size, trailingZeros_two_pow most]
    omega
  have short : 64 - trailingZeros slots.size < 64 := shaped.shift_lt
  have agrees : (UInt64.size - 1) >>> (64 - trailingZeros slots.size) = slots.size - 1 :=
    shaped.shift
  rw [setGeometry, if_neg allocated, sub_of (Nat.one_le_iff_ne_zero.mpr allocated), pure_bind,
    sub_of narrow, pure_bind, shiftRight_of short, pure_bind, ensure_of agrees, pure_bind, laid]

theorem exchange_of_cell (shaped : Shaped table) {carried resident : Cell α}
    {index distance : Nat} (held : table.slot index = some resident) :
    exchange table carried index distance = pure
      (if table.displacement resident.hash index < distance then
        (table.put index (some carried), resident, table.displacement resident.hash index)
      else (table, carried, distance)) := by
  have bound := lt_of_slot held
  rw [exchange, fetch_slots bound, pure_bind, held]
  simp only [shaped.displacement_eq, pure_bind, store_slots _ bound]
  split <;> rfl

theorem Shaped.reinsertFrom_eq (shaped : Shaped table) (counted : table.slotCount < 2 ^ 64)
    {carried : Cell α} {index distance steps : Nat} {result : Table α}
    (bound : index < table.slotCount)
    (odd : ∀ position cell, table.slot position = some cell → cell.hash % 2 = 1)
    (carriedOdd : carried.hash % 2 = 1) (fits : distance + steps < 2 ^ 64)
    (wide : table.slotCount + steps ≤ 2 ^ 64)
    (settled : table.settle carried index distance steps = .ok result) :
    reinsertFrom table carried index distance = pure result := by
  induction steps generalizing table carried index distance with
  | zero => simp [settle] at settled
  | succ steps ih =>
      have nextBound := after_lt shaped.allocated index 1
      rw [reinsertFrom_turn, fetch_slots bound, pure_bind, readsFree_slot (odd index)]
      rw [settle] at settled
      cases held : table.slot index with
      | none =>
          rw [held] at settled
          simp only [fill_eq_put carried bound held, Except.ok.injEq] at settled
          rw [if_pos (isFree_iff.mpr held), fill_of_free bound held, pure_bind, ← settled]
          rfl
      | some resident =>
          have taken : ¬ table.isFree index = true := by simp [isFree, held]
          rw [held] at settled
          rw [if_neg taken, exchange_of_cell shaped held, pure_bind]
          have low := shaped.displacement_lt resident.hash index
          by_cases closer : table.displacement resident.hash index < distance
          · have same : SameShape table (table.put index (some carried)) := put_sameShape _ _ _
            simp only [closer, if_true] at settled ⊢
            rw [add_of (by omega), pure_bind, same.guarded_next, shaped.next_eq counted bound,
              pure_bind]
            refine ih (same.shaped shaped) (by rw [same.slotCount]; exact counted)
              (by rw [same.slotCount]; exact nextBound) ?_ (odd index resident held) (by omega)
              (by rw [same.slotCount]; omega) settled
            intro position cell present
            rw [slot_put _ _ bound] at present
            split at present
            · rw [← Option.some.inj present]
              exact carriedOdd
            · exact odd position cell present
          · simp only [closer, if_false] at settled ⊢
            rw [add_of (by omega), pure_bind, shaped.next_eq counted bound, pure_bind]
            exact ih shaped counted nextBound odd carriedOdd (by omega) (by omega) settled

theorem Ordered.reinsert_eq (ordered : Ordered table) (counted : table.slotCount < 2 ^ 64)
    {cell : Cell α} (odd : cell.hash % 2 = 1) {result : Table α}
    (placed : table.place cell = .ok result) : reinsert table cell = pure result := by
  have bound := ordered.shaped.home_lt cell.hash
  obtain ⟨width, _, count⟩ := ordered.shaped.power
  have half : table.slotCount + table.slotCount ≤ 2 ^ 64 := by
    rw [count] at counted ⊢
    have below : width < 64 := (Nat.pow_lt_pow_iff_right (by decide)).mp counted
    rw [← Nat.two_mul, ← Nat.pow_succ']
    exact Nat.pow_le_pow_right (by decide) below
  rw [place, if_neg (Nat.not_le.mpr bound)] at placed
  rw [reinsert, ordered.shaped.home_eq, pure_bind]
  exact ordered.shaped.reinsertFrom_eq counted bound (fun _ _ => ordered.odd) odd (by omega) half
    placed

theorem foldlM_reinsert_eq (slots : List (Slot α)) (ordered : Ordered table)
    (counted : table.slotCount < 2 ^ 64)
    (odd : ∀ cell ∈ slots.filterMap id, cell.hash % 2 = 1)
    (room : (slots.filterMap id).length + table.cells.length < table.slotCount)
    {result : Table α} (placed : (slots.filterMap id).foldlM place table = .ok result) :
    slots.foldlM (fun larger slot => slot.elim (pure larger) (reinsert larger)) table =
      pure result := by
  induction slots generalizing table with
  | nil =>
      obtain rfl := Except.ok.inj placed
      rfl
  | cons slot rest ih =>
      rw [List.foldlM_cons]
      cases slot with
      | none => exact ih ordered counted odd room placed
      | some cell =>
          have cells : (some cell :: rest).filterMap id = cell :: rest.filterMap id := rfl
          rw [cells] at odd room placed
          rw [List.length_cons] at room
          rw [List.foldlM_cons] at placed
          obtain ⟨middle, first, step⟩ := place_spec ordered (odd cell (by simp)) (by omega)
          have length := step.cells.length_eq
          rw [List.length_append, List.length_singleton] at length
          rw [first] at placed
          rw [Option.elim_some, ordered.reinsert_eq counted (odd cell (by simp)) first, pure_bind]
          refine ih step.ordered (by rw [step.shape.slotCount]; exact counted)
            (fun other member => odd other (List.mem_cons_of_mem _ member)) ?_ placed
          rw [step.shape.slotCount]
          omega

theorem allocate_follows (memory : Memory) (slots : Nat) :
    Follows memory.Refusal (· = Array.replicate slots (none : Slot α))
      (ofExcept (memory.allocate slots)) (memory.allocate slots) := by
  rcases memory.allocate_cases α slots with granted | ⟨error, refused, refusal, _⟩
  · exact .of_eq (by rw [granted]; rfl) granted rfl
  · exact .of_error (by rw [refused]; rfl) refused refusal

theorem Valid.resize_follows (valid : Valid table) (memory : Memory) {width slots : Nat}
    (power : slots = 2 ^ width) (least : 4 ≤ width) (most : width < 64)
    (larger : table.slotCount < slots) :
    Follows memory.Refusal (fun _ => True) (Guarded.resize memory table slots)
      (table.resize memory slots) := by
  have whole : isPowerOfTwo slots = true := by rw [power, isPowerOfTwo_two_pow]
  rw [Guarded.resize, ensure_of whole, pure_bind, ensure_of larger, pure_bind,
    resize_of_larger memory whole larger]
  refine (allocate_follows memory slots).bind ?_
  rintro _ rfl
  have size : (Array.replicate slots (none : Slot α)).size = 2 ^ width := by simp [power]
  let fresh : Table α := ofSlots (Array.replicate slots none) table.population
  have shaped : Shaped fresh := ofSlots_shaped least (Nat.le_of_lt most) size
  have free : ∀ index, fresh.slot index = none := slot_ofSlots_replicate _ _
  have freshCount : fresh.slotCount = slots := by simp [fresh, slotCount]
  have fits : fresh.slotCount < 2 ^ 64 := by
    rw [freshCount, power]
    exact Nat.pow_lt_pow_right (by decide) most
  have room : table.cells.length + fresh.cells.length < fresh.slotCount := by
    have counted := valid.counted
    have roomy := valid.roomy
    have share := valid.eight_mul_trigger
    rw [cells_of_free free, List.length_nil, freshCount]
    omega
  obtain ⟨grown, placed, _⟩ := valid.refill_spec power least (Nat.le_of_lt most) larger
  have moved := foldlM_reinsert_eq table.slots.toList (Ordered.of_free shaped free) fits
    (fun cell => valid.odd) room placed
  rw [setGeometry_eq _ size least most, pure_bind]
  exact .of_eq moved placed trivial

theorem Valid.grow_follows (valid : Valid table) (memory : Memory) :
    Follows memory.Refusal (fun _ => True) (Guarded.grow memory table) (table.grow memory) := by
  by_cases unallocated : table.slotCount = 0
  · rw [Guarded.grow, if_pos unallocated, Table.grow, if_pos unallocated]
    exact valid.resize_follows memory (show leastSlots = 2 ^ 4 from rfl) (by omega) (by omega)
      (by rw [unallocated]; decide)
  · rw [Guarded.grow, if_neg unallocated, Table.grow, if_neg unallocated, double]
    obtain ⟨width, least, count⟩ := (valid.sound unallocated).shaped.power
    by_cases fits : 2 * table.slotCount < UInt64.size
    · have power : 2 * table.slotCount = 2 ^ (width + 1) := by
        rw [count, Nat.pow_succ, Nat.mul_comm]
      have most : width + 1 < 64 := by
        rw [← Nat.pow_lt_pow_iff_right (a := 2) (by decide), ← power]
        exact fits
      rw [if_pos fits, pure_bind, if_neg (Nat.not_le.mpr fits)]
      exact valid.resize_follows memory power (by omega) most (by omega)
    · rw [if_neg fits, if_pos (Nat.not_lt.mp fits)]
      exact .error .overflow

theorem Safe.of_growIfFull (safe : Safe table) {ready : Table α}
    (grew : table.growIfFull memory = .ok ready) : Safe ready ∧ Ready table ready := by
  rcases safe.valid.growIfFull_cases memory with ⟨other, done, is⟩ | ⟨error, failed, _⟩
  · obtain rfl := Except.ok.inj (done.symm.trans grew)
    refine ⟨⟨.allocated is.sound, ?_⟩, is⟩
    unfold growIfFull at grew
    split at grew
    · exact (slotCount_of_grow grew).2
    · rw [← Except.ok.inj grew]
      exact safe.counted
  · rw [failed] at grew
    simp at grew

theorem Safe.growIfFull_follows (safe : Safe table) (memory : Memory) :
    Follows memory.Refusal (fun ready => Safe ready ∧ Ready table ready)
      (Guarded.growIfFull memory table) (table.growIfFull memory) := by
  have follows : Follows memory.Refusal (fun _ => True) (Guarded.growIfFull memory table)
      (table.growIfFull memory) := by
    unfold Guarded.growIfFull growIfFull
    split
    · exact safe.valid.grow_follows memory
    · exact .answer trivial
  exact follows.of_ok fun _ grew => safe.of_growIfFull grew

theorem Safe.of_reserve (safe : Safe table) {additional : Nat} {reserved : Table α}
    (done : table.reserve memory additional = .ok reserved) : Safe reserved := by
  rcases safe.valid.reserve_cases memory additional with
    ⟨other, same, valid, _⟩ | ⟨error, failed, _⟩
  · obtain rfl := Except.ok.inj (same.symm.trans done)
    refine ⟨valid, ?_⟩
    rcases slotCount_of_reserve done with kept | ⟨_, counted⟩
    · rw [kept]
      exact safe.counted
    · exact counted
  · rw [failed] at done
    simp at done

theorem Safe.reserve_follows (safe : Safe table) (memory : Memory) (additional : Nat) :
    Follows memory.Refusal Safe (Guarded.reserve memory table additional)
      (table.reserve memory additional) := by
  have follows : Follows memory.Refusal (fun _ => True) (Guarded.reserve memory table additional)
      (table.reserve memory additional) := by
    simp only [Guarded.reserve, reserve]
    split
    · exact .error .overflow
    · split
      · exact .answer trivial
      · rename_i short
        rw [slotsFrom_eq]
        rcases slotsFor_cases (table.population + additional) with
          ⟨width, slots, least, most, enough, _⟩ | ⟨overflow, _⟩
        · have share := safe.valid.eight_mul_trigger
          have larger : table.slotCount < 2 ^ width := by
            obtain ⟨excess, rfl⟩ : ∃ excess, width = excess + 3 := ⟨width - 3, by omega⟩
            have grownShare := eight_mul_triggerOf excess
            omega
          rw [slots]
          exact safe.valid.resize_follows memory rfl least most larger
        · rw [overflow]
          exact .error .overflow
  exact follows.of_ok fun _ done => safe.of_reserve done

theorem safe_empty : Safe (empty : Table α) :=
  ⟨valid_empty, Nat.two_pow_pos 64⟩

theorem withCapacity_follows (memory : Memory) (capacity : Nat) :
    Follows memory.Refusal Safe (Guarded.withCapacity (α := α) memory capacity)
      (Table.withCapacity memory capacity) :=
  safe_empty.reserve_follows memory capacity

end Table

end RobinHood
