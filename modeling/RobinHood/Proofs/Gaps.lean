import RobinHood.Proofs.Cells

/-!
Opening and closing a gap: moving a run of slots by one, as a chain of exchanges of neighbours. Each
slot's new content is given by its offset from the start of the run, whether or not the run passes
the end of the array.
-/

namespace RobinHood.Table

variable {α : Type} {table : Table α}

def withSlots (table : Table α) (slots : Array (Slot α)) : Table α :=
  { table with slots }

theorem withSlots_sameShape {slots : Array (Slot α)} (size : slots.size = table.slotCount) :
    SameShape table (table.withSlots slots) :=
  ⟨size, rfl, rfl, rfl⟩

@[simp] theorem size_swapNext (slots : Array (Slot α)) (index : Nat) :
    (swapNext slots index).size = slots.size := by
  simp [swapNext]

theorem swapNext_perm (slots : Array (Slot α)) (index : Nat) :
    (swapNext slots index).toList.Perm slots.toList := by
  simp only [swapNext, Array.swapIfInBounds]
  split
  · split
    · exact (Array.swap_perm _ _).toList
    · exact List.Perm.refl _
  · exact List.Perm.refl _

theorem slot_swapNext (table : Table α) {base offset steps : Nat}
    (bound : base < table.slotCount) (offsetBound : offset + 1 < table.slotCount)
    (stepsBound : steps < table.slotCount) :
    (table.withSlots (swapNext table.slots (base + offset))).slot (table.after base steps) =
      if steps = offset then table.slot (table.after base (offset + 1))
      else if steps = offset + 1 then table.slot (table.after base offset)
      else table.slot (table.after base steps) := by
  have allocated : 0 < table.slotCount := by omega
  have inside (distance : Nat) : table.after base distance < table.slots.size :=
    after_lt allocated base distance
  have first : (base + offset) % table.slots.size = table.after base offset := rfl
  have second : (base + offset + 1) % table.slots.size = table.after base (offset + 1) := rfl
  have sameFirst : table.after base steps = table.after base offset ↔ steps = offset :=
    ⟨after_injective bound stepsBound (by omega), fun same => by rw [same]⟩
  have sameSecond : table.after base steps = table.after base (offset + 1) ↔ steps = offset + 1 :=
    ⟨after_injective bound stepsBound offsetBound, fun same => by rw [same]⟩
  have present : table.after base steps < (swapNext table.slots (base + offset)).size := by
    simpa using inside steps
  have written : (table.withSlots (swapNext table.slots (base + offset))).slot
      (table.after base steps) = (swapNext table.slots (base + offset))[table.after base steps] :=
    slot_eq_getElem present
  rw [written, slot_eq_getElem (inside _), slot_eq_getElem (inside _), slot_eq_getElem (inside _)]
  simp only [swapNext, first, second, Array.getElem_swapIfInBounds, sameFirst, sameSecond, inside,
    and_true]
  split
  · rfl
  · split <;> rfl

@[simp] theorem closeGap_zero (slots : Array (Slot α)) (start : Nat) :
    closeGap slots start 0 = slots := rfl

theorem closeGap_succ (slots : Array (Slot α)) (start steps : Nat) :
    closeGap slots start (steps + 1) = swapNext (closeGap slots start steps) (start + steps) := by
  simp [closeGap, Nat.fold_succ]

@[simp] theorem size_closeGap (slots : Array (Slot α)) (start steps : Nat) :
    (closeGap slots start steps).size = slots.size := by
  induction steps with
  | zero => rfl
  | succ steps ih => rw [closeGap_succ, size_swapNext, ih]

theorem closeGap_perm (slots : Array (Slot α)) (start steps : Nat) :
    (closeGap slots start steps).toList.Perm slots.toList := by
  induction steps with
  | zero => exact List.Perm.refl _
  | succ steps ih =>
      rw [closeGap_succ]
      exact (swapNext_perm _ _).trans ih

theorem slot_closeGap (table : Table α) {base width steps : Nat}
    (bound : base < table.slotCount) (widthBound : width < table.slotCount)
    (stepsBound : steps < table.slotCount) :
    (table.withSlots (closeGap table.slots base width)).slot (table.after base steps) =
      if steps < width then table.slot (table.after base (steps + 1))
      else if steps = width then table.slot (table.after base 0)
      else table.slot (table.after base steps) := by
  induction width generalizing steps with
  | zero =>
      by_cases first : steps = 0
      · subst steps
        simp [withSlots]
      · simp [withSlots, first]
  | succ width ih =>
      let closed := table.withSlots (closeGap table.slots base width)
      have same : SameShape table closed := withSlots_sameShape (size_closeGap _ _ _)
      have exchanged : _ = _ := closed.slot_swapNext (by rw [same.slotCount]; exact bound)
        (by rw [same.slotCount]; exact widthBound) (by rw [same.slotCount]; exact stepsBound)
      simp only [same.after] at exchanged
      rw [closeGap_succ]
      refine exchanged.trans ?_
      rw [ih (by omega) (by omega), ih (by omega) (by omega), ih (by omega) stepsBound]
      grind

@[simp] theorem openGap_zero (slots : Array (Slot α)) (start : Nat) :
    openGap slots start 0 = slots := rfl

theorem openGap_succ (slots : Array (Slot α)) (start steps : Nat) :
    openGap slots start (steps + 1) = openGap (swapNext slots (start + steps)) start steps := by
  simp [openGap, Nat.foldRev_succ]

@[simp] theorem size_openGap (slots : Array (Slot α)) (start steps : Nat) :
    (openGap slots start steps).size = slots.size := by
  induction steps generalizing slots with
  | zero => rfl
  | succ steps ih => rw [openGap_succ, ih, size_swapNext]

theorem openGap_perm (slots : Array (Slot α)) (start steps : Nat) :
    (openGap slots start steps).toList.Perm slots.toList := by
  induction steps generalizing slots with
  | zero => exact List.Perm.refl _
  | succ steps ih =>
      rw [openGap_succ]
      exact (ih _).trans (swapNext_perm _ _)

theorem slot_openGap (table : Table α) {base width steps : Nat}
    (bound : base < table.slotCount) (widthBound : width < table.slotCount)
    (stepsBound : steps < table.slotCount) :
    (table.withSlots (openGap table.slots base width)).slot (table.after base steps) =
      if steps = 0 then table.slot (table.after base width)
      else if steps ≤ width then table.slot (table.after base (steps - 1))
      else table.slot (table.after base steps) := by
  induction width generalizing table with
  | zero =>
      by_cases first : steps = 0
      · subst steps
        simp [withSlots]
      · simp [withSlots, first]
  | succ width ih =>
      let swapped := table.withSlots (swapNext table.slots (base + width))
      have same : SameShape table swapped := withSlots_sameShape (size_swapNext _ _)
      have opened := ih swapped (by rw [same.slotCount]; exact bound)
        (by rw [same.slotCount]; omega) (by rw [same.slotCount]; exact stepsBound)
      simp only [same.after] at opened
      rw [openGap_succ]
      refine opened.trans ?_
      have exchanged (distance : Nat) (distanceBound : distance < table.slotCount) :=
        table.slot_swapNext bound widthBound distanceBound
      rw [exchanged _ (by omega), exchanged _ (by omega), exchanged _ stepsBound]
      grind

theorem cells_withSlots_perm (table : Table α) {slots : Array (Slot α)}
    (moved : slots.toList.Perm table.slots.toList) :
    (table.withSlots slots).cells.Perm table.cells :=
  moved.filterMap id

end RobinHood.Table
