import RobinHood.Proofs.Lookups
import RobinHood.Table.Drain
import RobinHood.Table.Walk

/-!
Emptying a table and changing its values in place. A drain leaves no value behind the slot it has
come to, so what it hands back is a ring of free slots, however far it went.
-/

namespace RobinHood.Table

variable {α : Type} {table : Table α}

theorem Sound.of_free (shaped : Shaped table) (free : ∀ index, table.slot index = none)
    (population : table.population = 0) : Sound table := by
  refine ⟨Ordered.of_free shaped free, ?_, by omega⟩
  rw [cells_of_free free, population, List.length_nil]

theorem Valid.clear (valid : Valid table) : Valid table.clear ∧ table.clear.cells = [] := by
  by_cases vacant : table.population = 0
  · simp only [Table.clear, vacant, if_true]
    exact ⟨valid, by rw [← List.length_eq_zero_iff, valid.counted, vacant]⟩
  · have allocated := valid.slotCount_ne_zero vacant
    have same : SameShape table table.clear := by
      simp only [Table.clear, vacant, if_false]
      exact ⟨by simp [slotCount], rfl, rfl, rfl⟩
    have free (index : Nat) : table.clear.slot index = none := by
      simp [Table.clear, vacant, slot, Array.getD]
    have population : table.clear.population = 0 := by simp [Table.clear, vacant]
    exact ⟨.allocated (.of_free (same.shaped (valid.sound allocated).shaped) free population),
      cells_of_free free⟩

theorem Valid.of_free_slots (valid : Valid table) {slots : Array (Slot α)}
    (size : slots.size = table.slotCount) (free : ∀ index, slots.getD index none = none) :
    Valid (ofSlots slots 0) := by
  by_cases unallocated : table.slotCount = 0
  · rw [unallocated] at size
    refine .unallocated (by simpa [slotCount] using size) (population_ofSlots _ _) ?_
    simp [ofSlots, size]
  · have shaped := (valid.sound unallocated).shaped
    obtain ⟨width, least, count⟩ := shaped.power
    refine .allocated (.of_free (ofSlots_shaped least (shaped.width_le count) (by omega)) ?_
      (population_ofSlots _ _))
    intro index
    rw [slot, slots_ofSlots]
    exact free index

/-- A drain that has left nothing in the slots before its own. -/
structure Drain.Passed (table : Table α) (drain : Drain α) : Prop where
  size : drain.slots.size = table.slotCount
  free : ∀ index < drain.index, drain.slots.getD index none = none

theorem drain_passed (table : Table α) : table.drain.Passed table :=
  ⟨rfl, fun _ impossible => absurd impossible (Nat.not_lt_zero _)⟩

theorem Drain.Passed.step {drain : Drain α} (passed : drain.Passed table) (remaining : Nat) :
    Drain.Passed table
      { slots := drain.slots.setIfInBounds drain.index none
        index := drain.index + 1
        remaining } := by
  refine ⟨by simpa using passed.size, ?_⟩
  intro index before
  have written := passed.free index
  simp only [Array.getD_eq_getD_getElem?, Array.getElem?_setIfInBounds] at written ⊢
  by_cases here : drain.index = index
  · rw [if_pos here]
    split <;> rfl
  · rw [if_neg here]
    exact written (by simp only at before; omega)

theorem Drain.Passed.go {drain : Drain α} (passed : drain.Passed table) (fuel : Nat) :
    (Drain.next.go fuel drain).2.Passed table := by
  induction fuel generalizing drain with
  | zero => exact passed
  | succ fuel ih =>
      rw [Drain.next.go]
      split
      · exact passed
      · cases drain.slots.getD drain.index none with
        | none => exact ih (passed.step drain.remaining)
        | some cell => exact passed.step (drain.remaining - 1)

theorem Drain.Passed.take {drain : Drain α} (passed : drain.Passed table) (count : Nat) :
    (Drain.take count drain).2.Passed table := by
  induction count generalizing drain with
  | zero => exact passed
  | succ count ih => exact ih (passed.go _)

theorem Drain.Passed.close_eq {drain : Drain α} (passed : drain.Passed table) :
    drain.close = ofSlots (Array.replicate table.slotCount none) 0 := by
  rw [Drain.close]
  congr 1
  apply Array.ext
  · rw [Array.size_mapIdx, Array.size_replicate, passed.size]
  · intro index inside _
    rw [Array.size_mapIdx] at inside
    rw [Array.getElem_mapIdx, Array.getElem_replicate]
    by_cases behind : drain.index ≤ index
    · rw [if_pos behind]
    · have free := passed.free index (by omega)
      rw [Array.getD_eq_getD_getElem?, Array.getElem?_eq_getElem inside] at free
      rw [if_neg behind]
      exact free

theorem Drain.Passed.close_valid {drain : Drain α} (passed : drain.Passed table)
    (valid : Valid table) : Valid drain.close := by
  rw [passed.close_eq]
  exact valid.of_free_slots Array.size_replicate fun index => by simp [Array.getD]

theorem Drain.Passed.cells_close {drain : Drain α} (passed : drain.Passed table) :
    drain.close.cells = [] := by
  apply cells_of_free
  intro index
  rw [passed.close_eq, slot, slots_ofSlots]
  simp [Array.getD]

/-- What a table is after so many calls of a drain, if that is closed or abandoned then. -/
def drained (table : Table α) (taken : Nat) (closed : Bool) : Table α :=
  if closed then (Drain.take taken table.drain).2.close
  else (Drain.take taken table.drain).2.abandon

theorem Valid.drained (valid : Valid table) (taken : Nat) (closed : Bool) :
    Valid (table.drained taken closed) ∧ (table.drained taken closed).cells = [] := by
  cases closed with
  | true =>
      have passed := (drain_passed table).take taken
      exact ⟨passed.close_valid valid, passed.cells_close⟩
  | false => exact ⟨valid_empty, rfl⟩

theorem ChangingWalk.step_valid {walk : ChangingWalk α} (valid : Valid walk.table) (side : Side)
    (change : α → α) : Valid (walk.step side change).2.table := by
  rw [ChangingWalk.step]
  split
  · exact valid
  · exact valid.modifyAt _ change

end RobinHood.Table
