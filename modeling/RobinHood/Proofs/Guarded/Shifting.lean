import RobinHood.Proofs.Guarded.Lookup

/-!
Adding and removing step by step. A run of slots moves by rotations of the array; if the run passes
the end of the array, one slot is carried over between two of them. The outcome is that of moving
the slots one by one.
-/

namespace RobinHood

variable {α : Type}

namespace Guarded

noncomputable section

def nextFree (table : Table α) : (start : Nat) → Guarded Nat :=
  loop fun index => do
    if readsFree (← fetch table.slots index) then return .done index
    else return .again (← next table index)

def shiftForward (table : Table α) (first free : Nat) : Guarded (Array (Slot α)) := do
  if first < free then rotateRight table.slots first (← add free 1)
  else
    let slots ← rotateRight table.slots 0 (← add free 1)
    let slots ← swap slots 0 table.mask
    rotateRight slots first slots.size

def fill (slots : Array (Slot α)) (index : Nat) (cell : Cell α) : Guarded (Array (Slot α)) := do
  ensure (readsFree (← fetch slots index) = true)
  let slots ← store slots index (some cell)
  match ← fetch slots index with
  | some _ => return slots
  | none => stop .unreachable

/-- Leaves a slot free by moving the run from there on. -/
def makeRoom (table : Table α) (index : Nat) : Guarded (Array (Slot α)) := do
  if readsFree (← fetch table.slots index) then return table.slots
  else shiftForward table index (← nextFree table index)

def insertAt (table : Table α) (index : Nat) (hash : UInt64) (value : α) :
    Guarded (Table α) := do
  ensure (table.population < table.trigger)
  let slots ← makeRoom table index
  let population ← add table.population 1
  let slots ← fill slots index { hash, value }
  return { table with slots, population }

/-- The first slot from `index` on that is free or holds a value at its home. -/
def runEnd (table : Table α) : (start : Nat) → Guarded Nat :=
  loop fun index => do
    match ← fetch table.slots index with
    | none => return .done index
    | some cell =>
        if (← displacement table cell.hash index) = 0 then return .done index
        else return .again (← next table index)

def shiftBackward (table : Table α) (hole last : Nat) : Guarded (Array (Slot α)) := do
  if hole < last then rotateLeft table.slots hole last
  else
    let slots ← rotateLeft table.slots hole table.slots.size
    if 0 < last then
      let slots ← swap slots table.mask 0
      rotateLeft slots 0 last
    else return slots

def removeAt (table : Table α) (index : Nat) : Guarded (α × Table α) := do
  match ← fetch table.slots index with
  | none => stop .unreachable
  | some cell =>
      let holed := { table with slots := ← store table.slots index none }
      let last ← runEnd holed (← next holed index)
      let slots ← shiftBackward holed index last
      let population ← sub holed.population 1
      return (cell.value, { holed with slots, population })

end

theorem nextFree_turn (table : Table α) (index : Nat) :
    nextFree table index = (do
      if readsFree (← fetch table.slots index) then return index
      else nextFree table (← next table index)) := by
  rw [nextFree, loop_eq, bind_assoc]
  simp only [ite_bind, bind_assoc, pure_done_then, pure_again_then]

theorem runEnd_turn (table : Table α) (index : Nat) :
    runEnd table index = (do
      match ← fetch table.slots index with
      | none => return index
      | some cell =>
          if (← displacement table cell.hash index) = 0 then return index
          else runEnd table (← next table index)) := by
  rw [runEnd, loop_eq, bind_assoc]
  refine bind_congr fun slot => ?_
  cases slot with
  | none => rfl
  | some cell => simp only [ite_bind, bind_assoc, pure_done_then, pure_again_then]

end Guarded

namespace Table

open Guarded

variable {table : Table α} {index : Nat}

theorem slots_eq_of_after {slots : Array (Slot α)} (other : Array (Slot α))
    (bound : index < table.slotCount) (size : slots.size = table.slotCount)
    (otherSize : other.size = table.slotCount)
    (same : ∀ offset < table.slotCount, slots.getD (table.after index offset) none =
      other.getD (table.after index offset) none) : slots = other := by
  apply Array.ext
  · rw [size, otherSize]
  · intro position inside otherInside
    obtain ⟨offset, offsetBound, rfl⟩ := exists_after bound (size ▸ inside)
    have here := same offset offsetBound
    simpa [Array.getD, inside, otherInside] using here

theorem getD_mapIdx (slots : Array (Slot α)) (change : Nat → Slot α → Slot α) {position : Nat}
    (bound : position < slots.size) :
    (slots.mapIdx change).getD position none = change position (slots.getD position none) := by
  simp [Array.getD, bound]

theorem openGap_add (slots : Array (Slot α)) (start first rest : Nat) :
    openGap slots start (first + rest) =
      openGap (openGap slots (start + first) rest) start first := by
  induction rest generalizing slots with
  | zero => rfl
  | succ rest ih => rw [← Nat.add_assoc, openGap_succ, ih, openGap_succ, Nat.add_assoc]

theorem closeGap_add (slots : Array (Slot α)) (start first rest : Nat) :
    closeGap slots start (first + rest) =
      closeGap (closeGap slots start first) (start + first) rest := by
  induction rest with
  | zero => rfl
  | succ rest ih => rw [← Nat.add_assoc, closeGap_succ, ih, closeGap_succ, Nat.add_assoc]

theorem swapNext_round (slots : Array (Slot α)) (index : Nat) :
    swapNext slots (slots.size + index) = swapNext slots index := by
  simp only [swapNext, Nat.add_assoc, Nat.add_mod_left]

theorem openGap_round (slots : Array (Slot α)) (start steps : Nat) :
    openGap slots (slots.size + start) steps = openGap slots start steps := by
  induction steps generalizing slots with
  | zero => rfl
  | succ steps ih =>
      have turned := ih (swapNext slots (start + steps))
      rw [size_swapNext] at turned
      rw [openGap_succ, openGap_succ, Nat.add_assoc, swapNext_round, turned]

theorem closeGap_round (slots : Array (Slot α)) (start steps : Nat) :
    closeGap slots (slots.size + start) steps = closeGap slots start steps := by
  induction steps with
  | zero => rfl
  | succ steps ih =>
      have turned := swapNext_round (closeGap slots start steps) (start + steps)
      rw [size_closeGap] at turned
      rw [closeGap_succ, closeGap_succ, ih, Nat.add_assoc, turned]

theorem rotateRight_eq_openGap {slots : Array (Slot α)} {start steps : Nat}
    (inside : start + steps < slots.size) :
    rotateRight slots start (start + steps + 1) = pure (openGap slots start steps) := by
  let table : Table α := empty.withSlots slots
  have size : slots.size = table.slotCount := rfl
  have bound : start < table.slotCount := by omega
  rw [rotateRight, if_pos ⟨by omega, by omega⟩]
  congr 1
  refine slots_eq_of_after _ bound Array.size_mapIdx (size_openGap _ _ _) ?_
  intro offset offsetBound
  have here := after_cases bound offset (Nat.le_of_lt offsetBound)
  have before := after_cases bound (offset - 1) (by omega)
  have last := after_cases bound steps (by omega)
  rw [getD_mapIdx slots _ (after_lt (Nat.zero_lt_of_lt bound) start offset)]
  refine Eq.trans ?_ (table.slot_openGap bound (by omega) offsetBound).symm
  change _ = ite _ (slots.getD _ _) (ite _ (slots.getD _ _) (slots.getD _ _))
  split_ifs <;> first | omega | congr 1 <;> omega

theorem rotateLeft_eq_closeGap {slots : Array (Slot α)} {start steps : Nat}
    (inside : start + steps < slots.size) :
    rotateLeft slots start (start + steps + 1) = pure (closeGap slots start steps) := by
  let table : Table α := empty.withSlots slots
  have size : slots.size = table.slotCount := rfl
  have bound : start < table.slotCount := by omega
  rw [rotateLeft, if_pos ⟨by omega, by omega⟩]
  congr 1
  refine slots_eq_of_after _ bound Array.size_mapIdx (size_closeGap _ _ _) ?_
  intro offset offsetBound
  have here := after_cases bound offset (Nat.le_of_lt offsetBound)
  have following := after_cases bound (offset + 1) (by omega)
  have first := after_zero bound
  rw [getD_mapIdx slots _ (after_lt (Nat.zero_lt_of_lt bound) start offset)]
  refine Eq.trans ?_ (table.slot_closeGap bound (by omega) offsetBound).symm
  change _ = ite _ (slots.getD _ _) (ite _ (slots.getD _ _) (slots.getD _ _))
  split_ifs <;> first | omega | congr 1 <;> omega

theorem openGap_across (slots : Array (Slot α)) {start tail : Nat}
    (last : start + tail + 1 = slots.size) (front : Nat) :
    openGap slots start (tail + (1 + front)) =
      openGap (swapNext (openGap slots 0 front) (start + tail)) start tail := by
  have round := openGap_round slots 0 front
  rw [← last, Nat.add_zero] at round
  rw [openGap_add, openGap_add slots (start + tail), round, openGap_succ, openGap_zero,
    Nat.add_zero]

theorem closeGap_across (slots : Array (Slot α)) {start tail : Nat}
    (last : start + tail + 1 = slots.size) (front : Nat) :
    closeGap slots start (tail + (1 + front)) =
      closeGap (swapNext (closeGap slots start tail) (start + tail)) 0 front := by
  have round := closeGap_round (swapNext (closeGap slots start tail) (start + tail)) 0 front
  rw [size_swapNext, size_closeGap, ← last, Nat.add_zero] at round
  rw [closeGap_add, closeGap_add _ (start + tail), closeGap_succ, closeGap_zero, Nat.add_zero,
    round]

theorem swap_eq_swapNext {slots : Array (Slot α)} {last : Nat} (ends : last + 1 = slots.size) :
    swap slots last 0 = pure (swapNext slots last) := by
  have bound : last < slots.size := by omega
  rw [swap, dif_pos bound, dif_pos (by omega)]
  simp only [swapNext, Nat.mod_eq_of_lt bound, ends, Nat.mod_self, Array.swapIfInBounds,
    dif_pos bound, dif_pos (Nat.zero_lt_of_lt bound)]

theorem swap_comm {slots : Array (Slot α)} {first second : Nat} (bound : first < slots.size)
    (secondBound : second < slots.size) : swap slots first second = swap slots second first := by
  rw [swap, dif_pos bound, dif_pos secondBound, swap, dif_pos secondBound, dif_pos bound,
    Array.swap_comm]

theorem Shaped.shiftForward_eq (shaped : Shaped table) (counted : table.slotCount < 2 ^ 64)
    (bound : index < table.slotCount) {steps : Nat} (moves : 0 < steps)
    (round : steps < table.slotCount) :
    shiftForward table index (table.after index steps) =
      pure (openGap table.slots index steps) := by
  have mask := shaped.mask
  have size : table.slots.size = table.slotCount := rfl
  rcases after_cases bound steps (Nat.le_of_lt round) with ⟨straight, free⟩ | ⟨wraps, free⟩
  · rw [free, shiftForward, if_pos (by omega), add_of (by omega), pure_bind,
      rotateRight_eq_openGap straight]
  · obtain ⟨tail, front, rfl, last⟩ : ∃ tail front, steps = tail + (1 + front) ∧
        index + tail = table.mask :=
      ⟨table.mask - index, index + steps - table.slotCount, by omega, by omega⟩
    have landed : table.after index (tail + (1 + front)) = 0 + front := by omega
    have openedSize : (openGap table.slots 0 front).size = table.slotCount := size_openGap _ _ _
    have carriedSize : (swapNext (openGap table.slots 0 front) table.mask).size =
        index + tail + 1 := by
      rw [size_swapNext, openedSize]
      omega
    rw [landed, shiftForward, if_neg (by omega), add_of (by omega), pure_bind,
      rotateRight_eq_openGap (by omega), pure_bind, swap_comm (by omega) (by omega),
      swap_eq_swapNext (by omega), pure_bind, carriedSize, rotateRight_eq_openGap (by omega),
      openGap_across _ (by omega), last]

theorem Shaped.shiftBackward_eq (shaped : Shaped table) (bound : index < table.slotCount)
    {steps : Nat} (positive : 0 < steps) (round : steps < table.slotCount) :
    shiftBackward table index (table.after index steps) =
      pure (closeGap table.slots index (steps - 1)) := by
  have mask := shaped.mask
  have size : table.slots.size = table.slotCount := rfl
  rcases after_cases bound steps (Nat.le_of_lt round) with ⟨straight, ends⟩ | ⟨wraps, ends⟩
  · have last : table.after index steps = index + (steps - 1) + 1 := by omega
    rw [last, shiftBackward, if_pos (by omega), rotateLeft_eq_closeGap (by omega)]
  · obtain ⟨tail, last⟩ : ∃ tail, index + tail = table.mask := ⟨table.mask - index, by omega⟩
    have whole : table.slots.size = index + tail + 1 := by omega
    rw [shiftBackward, if_neg (by omega), whole, rotateLeft_eq_closeGap (by omega), pure_bind]
    have closedSize : (closeGap table.slots index tail).size = table.slotCount :=
      size_closeGap _ _ _
    by_cases home : table.after index steps = 0
    · obtain rfl : steps = tail + 1 := by omega
      rw [if_neg (by omega), Nat.add_sub_cancel]
    · obtain ⟨front, rfl⟩ : ∃ front, steps = tail + (1 + front) + 1 :=
        ⟨steps - tail - 2, by omega⟩
      have landed : table.after index (tail + (1 + front) + 1) = 0 + front + 1 := by omega
      have carriedSize : (swapNext (closeGap table.slots index tail) table.mask).size =
          table.slotCount := (size_swapNext _ _).trans closedSize
      rw [landed, if_pos (by omega), swap_eq_swapNext (by omega), pure_bind,
        rotateLeft_eq_closeGap (by omega), Nat.add_sub_cancel, closeGap_across _ (by omega), last]

theorem after_next (table : Table α) (index steps : Nat) :
    table.after (table.next index) steps = table.after index (steps + 1) := by
  rw [next_eq, after_after, Nat.add_comm]

theorem Ordered.nextFree_eq (ordered : Ordered table) (counted : table.slotCount < 2 ^ 64)
    (bound : index < table.slotCount) {steps : Nat}
    (hole : table.slot (table.after index steps) = none)
    (run : ∀ earlier < steps, table.slot (table.after index earlier) ≠ none) :
    nextFree table index = pure (table.after index steps) := by
  induction steps generalizing index with
  | zero =>
      rw [after_zero bound] at hole ⊢
      rw [nextFree_turn, fetch_slots bound, pure_bind, hole, readsFree_none, if_pos rfl]
  | succ steps ih =>
      have taken := run 0 (by omega)
      rw [after_zero bound, Ne, ← isFree_iff] at taken
      rw [nextFree_turn, fetch_slots bound, pure_bind, readsFree_slot fun _ => ordered.odd,
        if_neg taken, ordered.shaped.next_eq counted bound, pure_bind, ← after_next]
      refine ih (after_lt ordered.shaped.allocated index 1) ?_ ?_
      · rwa [after_next]
      · intro earlier before
        rw [after_next]
        exact run (earlier + 1) (by omega)

theorem fill_of_free {cell : Cell α} (bound : index < table.slotCount)
    (free : table.slot index = none) :
    Guarded.fill table.slots index cell = pure (table.put index (some cell)).slots := by
  have stored : index < (table.put index (some cell)).slotCount := by
    rw [(put_sameShape table index (some cell)).slotCount]
    exact bound
  rw [Guarded.fill, fetch_slots bound, pure_bind, free, ensure_of readsFree_none, pure_bind,
    store_slots _ bound, pure_bind, fetch_slots stored, pure_bind, slot_put_self _ bound]

theorem Ordered.makeRoom_eq (ordered : Ordered table) (counted : table.slotCount < 2 ^ 64)
    (bound : index < table.slotCount) {steps : Nat} (round : steps < table.slotCount)
    (hole : table.slot (table.after index steps) = none)
    (run : ∀ earlier < steps, table.slot (table.after index earlier) ≠ none) :
    makeRoom table index = pure (openGap table.slots index steps) := by
  rw [makeRoom, fetch_slots bound, pure_bind, readsFree_slot fun _ => ordered.odd]
  cases steps with
  | zero =>
      rw [after_zero bound, ← isFree_iff] at hole
      rw [if_pos hole, openGap_zero]
  | succ steps =>
      have taken := run 0 (by omega)
      rw [after_zero bound, Ne, ← isFree_iff] at taken
      rw [if_neg taken, ordered.nextFree_eq counted bound hole run, pure_bind,
        ordered.shaped.shiftForward_eq counted bound (Nat.succ_pos steps) round]

theorem Sound.insertAt_eq (sound : Sound table) (counted : table.slotCount < 2 ^ 64)
    (bound : index < table.slotCount) (room : table.population < table.trigger) {hash : UInt64}
    {value : α} {result : Table α} (inserted : table.insertAt index hash value = .ok result) :
    Guarded.insertAt table index hash value = pure result := by
  obtain ⟨steps, round, found, hole, run⟩ := stepsToFree_spec bound sound.exists_free
  have below := sound.population_lt
  let opened := table.withSlots (openGap table.slots index steps)
  have openedBound : index < opened.slotCount := by
    rw [(withSlots_sameShape (size_openGap _ _ _) : SameShape table opened).slotCount]
    exact bound
  have filled : Guarded.fill (openGap table.slots index steps) index { hash, value } =
      pure (opened.put index (some { hash, value })).slots :=
    fill_of_free openedBound (slot_openGap_start bound round hole)
  rw [insertAt_of_steps bound room round found hole] at inserted
  rw [Guarded.insertAt, ensure_of room, pure_bind,
    sound.toOrdered.makeRoom_eq counted bound round hole run, pure_bind, add_of (by omega),
    pure_bind, filled, pure_bind, ← Except.ok.inj inserted]
  rfl

theorem Shaped.runEnd_eq (shaped : Shaped table) (counted : table.slotCount < 2 ^ 64)
    (bound : index < table.slotCount) {steps : Nat}
    (ends : table.reach (table.after index steps) ≤ 1)
    (run : ∀ earlier < steps, 1 < table.reach (table.after index earlier)) :
    runEnd table index = pure (table.after index steps) := by
  induction steps generalizing index with
  | zero =>
      rw [after_zero bound] at ends ⊢
      rw [runEnd_turn, fetch_slots bound, pure_bind]
      cases held : table.slot index with
      | none => rfl
      | some cell =>
          rw [reach_of_cell held] at ends
          simp only [shaped.displacement_eq, pure_bind]
          rw [if_pos (by omega)]
  | succ steps ih =>
      have displaced := run 0 (by omega)
      rw [after_zero bound] at displaced
      rw [runEnd_turn, fetch_slots bound, pure_bind]
      cases held : table.slot index with
      | none =>
          rw [reach_of_free held] at displaced
          omega
      | some cell =>
          rw [reach_of_cell held] at displaced
          simp only [shaped.displacement_eq, pure_bind, shaped.next_eq counted bound]
          rw [if_neg (by omega), ← after_next]
          refine ih (after_lt shaped.allocated index 1) ?_ ?_
          · rwa [after_next]
          · intro earlier before
            rw [after_next]
            exact run (earlier + 1) (by omega)

theorem Sound.removeAt_eq (sound : Sound table) (counted : table.slotCount < 2 ^ 64)
    {cell : Cell α} (held : table.slot index = some cell) {answer : α × Table α}
    (removed : table.removeAt index = .ok answer) :
    Guarded.removeAt table index = pure answer := by
  have bound := lt_of_slot held
  have occupied := (Valid.allocated sound).population_ne_zero held
  obtain ⟨steps, found, positive, round, run, ends⟩ := endsRun_spec held sound.exists_free
  obtain ⟨steps, rfl⟩ : ∃ earlier, steps = earlier + 1 := ⟨steps - 1, by omega⟩
  let holed := table.put index none
  have same : SameShape table holed := put_sameShape table index none
  have shaped : Shaped holed := same.shaped sound.shaped
  have holedBound : index < holed.slotCount := by rw [same.slotCount]; exact bound
  have holedCounted : holed.slotCount < 2 ^ 64 := by rw [same.slotCount]; exact counted
  have reach {offset : Nat} (later : 0 < offset) (below : offset < table.slotCount) :
      holed.reach (holed.after index offset) = table.reach (table.after index offset) := by
    rw [same.after, same.reach_congr (slot_put_after none bound later below)]
  have nextBound : holed.next index < holed.slotCount := after_lt shaped.allocated index 1
  have ended : runEnd holed (holed.next index) =
      pure (holed.after (holed.next index) steps) := by
    refine shaped.runEnd_eq holedCounted nextBound ?_ ?_
    · rw [after_next, reach (by omega) round]
      exact ends
    · intro earlier before
      rw [after_next, reach (by omega) (by omega)]
      exact run (earlier + 1) (by omega) (by omega)
  rw [after_next] at ended
  have closed := shaped.shiftBackward_eq holedBound (Nat.succ_pos steps)
    (by rw [same.slotCount]; exact round)
  have stored : store table.slots index none = pure holed.slots := store_slots none bound
  have lowered : sub holed.population 1 = pure (table.population - 1) :=
    sub_of (Nat.one_le_iff_ne_zero.mpr occupied)
  rw [removeAt_of_steps held occupied found] at removed
  rw [Guarded.removeAt, fetch_slots bound, pure_bind, held]
  simp only [stored, pure_bind]
  change (do
    let last ← runEnd holed (← Guarded.next holed index)
    let slots ← shiftBackward holed index last
    let population ← sub holed.population 1
    pure (cell.value, { holed with slots, population })) = _
  rw [shaped.next_eq holedCounted holedBound, pure_bind, ended, pure_bind, closed, pure_bind,
    lowered, pure_bind, ← Except.ok.inj removed]

end Table

end RobinHood
