import RobinHood.Proofs.Ring

/-!
What a table holds: its cells as a list, taken from any slot of the ring, and how writing one slot
changes them.
-/

namespace RobinHood.Table

variable {α : Type} {table : Table α}

theorem toList_slots (table : Table α) :
    table.slots.toList = (List.range table.slotCount).map table.slot := by
  apply List.ext_getElem
  · simp [slotCount]
  · intro index bound _
    have inside : index < table.slots.size := by simpa using bound
    simp [slot_eq_getElem inside]

theorem cells_eq (table : Table α) :
    table.cells = (List.range table.slotCount).filterMap table.slot := by
  rw [cells, toList_slots, List.filterMap_map]
  rfl

theorem map_after_range (table : Table α) (base : Nat) :
    (List.range table.slotCount).map (table.after base) =
      (List.range table.slotCount).rotate base := by
  apply List.ext_getElem
  · simp
  · intro steps _ _
    simp [List.getElem_rotate, after, Nat.add_comm]

theorem cells_perm_from (table : Table α) (base : Nat) :
    ((List.range table.slotCount).filterMap fun steps => table.slot (table.after base steps)).Perm
      table.cells := by
  have rotated : ((List.range table.slotCount).map (table.after base)).Perm
      (List.range table.slotCount) := by
    rw [map_after_range]
    exact List.rotate_perm _ _
  have walked := rotated.filterMap table.slot
  rw [List.filterMap_map, ← cells_eq] at walked
  exact walked

theorem mem_cells {cell : Cell α} :
    cell ∈ table.cells ↔ ∃ index, table.slot index = some cell := by
  rw [cells_eq]
  simp only [List.mem_filterMap, List.mem_range]
  constructor
  · rintro ⟨index, _, held⟩
    exact ⟨index, held⟩
  · rintro ⟨index, held⟩
    exact ⟨index, lt_of_slot held, held⟩

theorem exists_free (room : table.cells.length < table.slotCount) :
    ∃ index < table.slotCount, table.slot index = none := by
  by_contra full
  have occupied : ∀ index ∈ List.range table.slotCount, (table.slot index).isSome = true := by
    intro index member
    by_contra free
    exact full ⟨index, List.mem_range.mp member, by simpa using free⟩
  rw [cells_eq, List.length_filterMap_eq_countP,
    List.countP_eq_length.mpr occupied, List.length_range] at room
  omega

theorem countP_cells_from (table : Table α) (test : Cell α → Bool) (base : Nat) :
    table.cells.countP test =
      (List.range table.slotCount).countP fun steps =>
        (table.slot (table.after base steps)).any test := by
  rw [← (table.cells_perm_from base).countP_eq, List.countP_filterMap]
  congr
  funext steps
  cases table.slot (table.after base steps) <;> rfl

theorem le_countP_range (test : Nat → Bool) {width count : Nat} (within : width ≤ count)
    (passed : ∀ number < width, test number = true) : width ≤ (List.range count).countP test := by
  have start : (List.range width).countP test = width := by
    rw [List.countP_eq_length.mpr, List.length_range]
    intro number member
    exact passed number (List.mem_range.mp member)
  have sublist : (List.range width).Sublist (List.range count) := List.range_sublist.mpr within
  have bound := sublist.countP_le (p := test)
  omega

theorem countP_range_le (test : Nat → Bool) {width count : Nat}
    (early : ∀ number < count, test number = true → number < width) :
    (List.range count).countP test ≤ width := by
  induction count with
  | zero => simp
  | succ count ih =>
      rw [List.range_succ, List.countP_append]
      have before := ih (fun number bound => early number (by omega))
      have length : (List.range count).countP test ≤ count := by
        simpa using List.countP_le_length (p := test) (l := List.range count)
      by_cases last : test count = true
      · have position := early count (by omega) last
        simp only [List.countP_singleton, last, if_true]
        omega
      · simpa [List.countP_singleton, last] using before

def put (table : Table α) (index : Nat) (content : Slot α) : Table α :=
  { table with slots := table.slots.setIfInBounds index content }

theorem put_sameShape (table : Table α) (index : Nat) (content : Slot α) :
    SameShape table (table.put index content) := by
  refine ⟨?_, rfl, rfl, rfl⟩
  simp [put, slotCount]

theorem fill_eq_put {index : Nat} (cell : Cell α) (bound : index < table.slotCount)
    (free : table.slot index = none) :
    table.fill index cell = .ok (table.put index (some cell)) := by
  have inside : ¬ table.slotCount ≤ index := by omega
  simp only [fill, inside, if_false, isFree, free, Option.isNone_none, not_true_eq_false]
  rfl

theorem slot_put (table : Table α) {index : Nat} (content : Slot α)
    (bound : index < table.slotCount) (position : Nat) :
    (table.put index content).slot position =
      if position = index then content else table.slot position := by
  have inside : index < table.slots.size := bound
  by_cases here : position = index
  · subst position
    simp [put, slot, Array.getD, inside]
  · by_cases present : position < table.slots.size
    · simp [put, slot, Array.getD, present, here, Ne.symm here]
    · simp [put, slot, Array.getD, present, here]

theorem slot_put_self {index : Nat} (content : Slot α) (bound : index < table.slotCount) :
    (table.put index content).slot index = content := by
  rw [slot_put table content bound, if_pos rfl]

theorem slot_put_of_ne {index position : Nat} (content : Slot α) (bound : index < table.slotCount)
    (apart : position ≠ index) :
    (table.put index content).slot position = table.slot position := by
  rw [slot_put table content bound, if_neg apart]

theorem slot_put_after {index offset : Nat} (content : Slot α) (bound : index < table.slotCount)
    (positive : 0 < offset) (below : offset < table.slotCount) :
    (table.put index content).slot (table.after index offset) =
      table.slot (table.after index offset) := by
  refine slot_put_of_ne content bound ?_
  intro loops
  have back := after_injective bound below (by omega) (loops.trans (after_zero bound).symm)
  omega

theorem cells_put_perm (table : Table α) {index : Nat} (content : Slot α)
    (bound : index < table.slotCount) :
    ((table.slot index).toList ++ (table.put index content).cells).Perm
      (content.toList ++ table.cells) := by
  have inside : index < table.slots.toList.length := by simpa [slotCount] using bound
  have here : table.slots.toList[index] = table.slot index := by
    have present : index < table.slots.size := bound
    simp [slot_eq_getElem present]
  let others := (table.slots.toList.eraseIdx index).filterMap id
  have cons (head : Slot α) (tail : List (Slot α)) :
      (head :: tail).filterMap id = head.toList ++ tail.filterMap id := by
    cases head <;> rfl
  have before : table.cells.Perm ((table.slot index).toList ++ others) := by
    have split := ((List.getElem_cons_eraseIdx_perm inside).filterMap id).symm
    rwa [here, cons] at split
  have after : (table.put index content).cells.Perm (content.toList ++ others) := by
    have split := (List.set_perm_cons_eraseIdx inside content).filterMap id
    rw [cons] at split
    rwa [← Array.toList_setIfInBounds] at split
  have swapped : ((table.slot index).toList ++ (content.toList ++ others)).Perm
      (content.toList ++ ((table.slot index).toList ++ others)) := by
    rw [← List.append_assoc, ← List.append_assoc]
    exact List.perm_append_comm.append_right _
  exact ((after.append_left _).trans swapped).trans (before.symm.append_left _)

theorem cells_put_free {index : Nat} (cell : Cell α) (bound : index < table.slotCount)
    (free : table.slot index = none) :
    (table.put index (some cell)).cells.Perm (cell :: table.cells) := by
  simpa [free] using table.cells_put_perm (some cell) bound

theorem cells_put_cell {index : Nat} {resident : Cell α} (cell : Cell α)
    (held : table.slot index = some resident) :
    (resident :: (table.put index (some cell)).cells).Perm (cell :: table.cells) := by
  simpa [held] using table.cells_put_perm (some cell) (lt_of_slot held)

theorem cells_put_none {index : Nat} {resident : Cell α}
    (held : table.slot index = some resident) :
    (resident :: (table.put index none).cells).Perm table.cells := by
  simpa [held] using table.cells_put_perm none (lt_of_slot held)

theorem modifyAt_eq_put {index : Nat} {cell : Cell α} (change : α → α)
    (held : table.slot index = some cell) :
    table.modifyAt index change =
      table.put index (some { cell with value := change cell.value }) := by
  have inside : index < table.slots.size := lt_of_slot held
  have here : table.slots[index] = some cell := by
    rw [← held, slot_eq_getElem inside]
  simp only [modifyAt, put, Table.mk.injEq, and_true]
  apply Array.ext
  · simp
  · intro position bound _
    have present : position < table.slots.size := by simpa using bound
    by_cases same : index = position
    · subst position
      simp [Array.getElem_modify, here]
    · simp [Array.getElem_modify, Array.getElem_setIfInBounds present, same]

theorem modifyAt_of_free {index : Nat} (change : α → α) (free : table.slot index = none) :
    table.modifyAt index change = table := by
  have kept : (table.slots.modify index fun slot =>
      slot.map fun cell => { cell with value := change cell.value }) = table.slots := by
    apply Array.ext
    · simp
    · intro position bound present
      by_cases same : index = position
      · subst position
        have empty : table.slots[index] = none := by
          rw [← free, slot_eq_getElem present]
        simp [Array.getElem_modify, empty]
      · simp [Array.getElem_modify, same]
  simp only [modifyAt, kept]

end RobinHood.Table
