import RobinHood.Proofs.Order
import RobinHood.Table.Walk

/-!
What a walk still has to give is the list of the values between its two ends. A step takes the first
or the last value off that list, so a walk from either end gives the values in order or in reverse.
-/

namespace RobinHood.Table

variable {α : Type} {table : Table α} {slots : Array (Slot α)}

def valuesBetween (slots : Array (Slot α)) (front back : Nat) : List α :=
  (List.range' front (back - front)).filterMap (valueIn slots)

def Side.order : Side → List α → List α
  | front, values => values
  | back, values => values.reverse

@[simp] theorem Side.order_order (side : Side) (values : List α) :
    side.order (side.order values) = values := by
  cases side
  · rfl
  · exact values.reverse_reverse

@[simp] theorem Side.length_order (side : Side) (values : List α) :
    (side.order values).length = values.length := by
  cases side
  · rfl
  · exact values.length_reverse

theorem Side.order_perm (side : Side) (values : List α) : (side.order values).Perm values := by
  cases side
  · exact List.Perm.refl _
  · exact List.reverse_perm values

theorem isSome_valueIn (index : Nat) :
    (valueIn slots index).isSome = (slots.getD index none).isSome := by
  rw [valueIn, Option.isSome_map]

theorem valueIn_setIfInBounds_of_ne {index position : Nat} (apart : index ≠ position)
    (slot : Slot α) :
    valueIn (slots.setIfInBounds index slot) position = valueIn slots position := by
  simp only [valueIn, Array.getD_eq_getD_getElem?, Array.getElem?_setIfInBounds, if_neg apart]

theorem valuesBetween_split (slots : Array (Slot α)) {front middle back : Nat}
    (lower : front ≤ middle) (upper : middle ≤ back) :
    valuesBetween slots front back = valuesBetween slots front middle ++
      valuesBetween slots middle back := by
  have widths : back - front = (middle - front) + (back - middle) := by omega
  rw [valuesBetween, widths, ← List.range'_append_1, List.filterMap_append,
    Nat.add_sub_cancel' lower]
  rfl

theorem valuesBetween_of_free {front back : Nat}
    (free : ∀ index, front ≤ index → index < back → (slots.getD index none).isSome = false) :
    valuesBetween slots front back = [] := by
  rw [valuesBetween, List.filterMap_eq_nil_iff]
  intro index member
  rw [List.mem_range'_1] at member
  rw [← Option.not_isSome_iff_eq_none, isSome_valueIn, free index member.1 (by omega)]
  simp

theorem valuesBetween_single (index : Nat) :
    valuesBetween slots index (index + 1) = (valueIn slots index).toList := by
  rw [valuesBetween, Nat.add_sub_cancel_left]
  cases held : valueIn slots index <;> simp [held]

theorem valuesBetween_congr {changed : Array (Slot α)} {front back : Nat}
    (same : ∀ index, front ≤ index → index < back → valueIn changed index = valueIn slots index) :
    valuesBetween changed front back = valuesBetween slots front back := by
  refine List.filterMap_congr ?_
  intro index member
  rw [List.mem_range'_1] at member
  exact same index member.1 (by omega)

theorem valuesBetween_cons (slots : Array (Slot α)) {front back : Nat} (inside : front < back) :
    valuesBetween slots front back =
      (valueIn slots front).toList ++ valuesBetween slots (front + 1) back := by
  rw [valuesBetween_split slots (Nat.le_succ front) inside, valuesBetween_single]

theorem valuesBetween_of_ge (slots : Array (Slot α)) {front back : Nat} (past : back ≤ front) :
    valuesBetween slots front back = [] :=
  valuesBetween_of_free fun index lower upper => by omega

def Cursor.past (cursor : Cursor) (index : Nat) : Side → Cursor
  | .front => { cursor with front := index + 1, remaining := cursor.remaining - 1 }
  | .back => { cursor with back := index, remaining := cursor.remaining - 1 }

section Steps

variable {cursor after : Cursor} {side : Side} {index : Nat}

theorem Cursor.step_of_last (slots : Array (Slot α)) (side : Side) (last : cursor.remaining = 0) :
    cursor.step slots side = (none, cursor) := by
  cases side <;> simp only [step, next, nextBack, last, if_true]

theorem Cursor.remaining_step_pos (stepped : cursor.step slots side = (some index, after)) :
    0 < cursor.remaining := by
  by_contra last
  rw [step_of_last slots side (by omega)] at stepped
  simp at stepped

theorem Cursor.step_found (stepped : cursor.step slots side = (some index, after)) :
    (slots.getD index none).isSome = true ∧ cursor.front ≤ index ∧ index < cursor.back ∧
      after = cursor.past index side := by
  have last : ¬ cursor.remaining = 0 := (remaining_step_pos stepped).ne'
  cases side with
  | front =>
      simp only [step, next, if_neg last] at stepped
      split at stepped
      next => simp at stepped
      next found firsts =>
        obtain ⟨same, rfl⟩ := Prod.mk.inj stepped
        obtain rfl := Option.some.inj same
        obtain ⟨lower, upper, taken, _⟩ := firstWhere_eq_some_iff.mp firsts
        exact ⟨taken, lower, by omega, rfl⟩
  | back =>
      simp only [step, nextBack, if_neg last] at stepped
      split at stepped
      next => simp at stepped
      next found firsts =>
        obtain ⟨same, rfl⟩ := Prod.mk.inj stepped
        obtain rfl := Option.some.inj same
        obtain ⟨_, upper, taken, _⟩ := firstWhere_eq_some_iff.mp firsts
        exact ⟨taken, by omega, by omega, rfl⟩

theorem Cursor.remaining_step (stepped : cursor.step slots side = (some index, after)) :
    after.remaining + 1 = cursor.remaining := by
  have counted := remaining_step_pos stepped
  obtain ⟨_, _, _, rfl⟩ := step_found stepped
  cases side <;> exact Nat.sub_add_cancel counted

end Steps

/-- The values that a cursor has not passed, all of which it counts. -/
structure Cursor.Leaves (cursor : Cursor) (slots : Array (Slot α)) (values : List α) : Prop where
  between : valuesBetween slots cursor.front cursor.back = values
  remaining : cursor.remaining = values.length

theorem Cursor.Leaves.next_spec {cursor : Cursor} {value : α} {rest : List α}
    (leaves : cursor.Leaves slots (value :: rest)) :
    ∃ index after, cursor.next slots = (some index, after) ∧ valueIn slots index = some value ∧
      after.Leaves slots rest := by
  have remaining := leaves.remaining
  rw [List.length_cons] at remaining
  simp only [Cursor.next, remaining, Nat.add_eq_zero_iff, one_ne_zero, and_false, if_false]
  cases found : firstWhere (fun index => (slots.getD index none).isSome) cursor.front
      (cursor.back - cursor.front) with
  | none =>
      have free := firstWhere_eq_none_iff.mp found
      have nothing : valuesBetween slots cursor.front cursor.back = [] :=
        valuesBetween_of_free fun index lower upper => free index lower (by omega)
      rw [leaves.between] at nothing
      simp at nothing
  | some index =>
      obtain ⟨lower, upper, taken, before⟩ := firstWhere_eq_some_iff.mp found
      have passed := valuesBetween_of_free before
      have split := valuesBetween_split slots lower (show index ≤ cursor.back by omega)
      rw [valuesBetween_split slots (show index ≤ index + 1 by omega)
        (show index + 1 ≤ cursor.back by omega), leaves.between, passed,
        valuesBetween_single] at split
      rw [← isSome_valueIn] at taken
      obtain ⟨held, present⟩ := Option.isSome_iff_exists.mp taken
      rw [present, Option.toList_some, List.nil_append, List.singleton_append,
        List.cons.injEq] at split
      obtain ⟨rfl, same⟩ := split
      exact ⟨index, _, rfl, present, same.symm, Nat.add_sub_cancel _ _⟩

theorem Cursor.Leaves.nextBack_spec {cursor : Cursor} {value : α} {rest : List α}
    (leaves : cursor.Leaves slots (rest ++ [value])) :
    ∃ index after, cursor.nextBack slots = (some index, after) ∧
      valueIn slots index = some value ∧ after.Leaves slots rest := by
  have remaining := leaves.remaining
  rw [List.length_append, List.length_singleton] at remaining
  simp only [Cursor.nextBack, remaining, Nat.add_eq_zero_iff, one_ne_zero, and_false, if_false]
  -- The search counts the slots passed from the back, so each index is turned around.
  cases found : firstWhere (fun passed => (slots.getD (cursor.back - 1 - passed) none).isSome) 0
      (cursor.back - cursor.front) with
  | none =>
      have free := firstWhere_eq_none_iff.mp found
      have nothing : valuesBetween slots cursor.front cursor.back = [] := by
        refine valuesBetween_of_free ?_
        intro index lower upper
        have here := free (cursor.back - 1 - index) (by omega) (by omega)
        rwa [show cursor.back - 1 - (cursor.back - 1 - index) = index by omega] at here
      rw [leaves.between] at nothing
      simp at nothing
  | some passed =>
      obtain ⟨_, upper, taken, before⟩ := firstWhere_eq_some_iff.mp found
      obtain ⟨index, place⟩ : ∃ index, index = cursor.back - 1 - passed := ⟨_, rfl⟩
      rw [← place] at taken
      have behind : valuesBetween slots (index + 1) cursor.back = [] := by
        refine valuesBetween_of_free ?_
        intro other lower below
        have here := before (cursor.back - 1 - other) (by omega) (by omega)
        rwa [show cursor.back - 1 - (cursor.back - 1 - other) = other by omega] at here
      have split := valuesBetween_split slots (show cursor.front ≤ index by omega)
        (show index ≤ cursor.back by omega)
      rw [valuesBetween_split slots (show index ≤ index + 1 by omega)
        (show index + 1 ≤ cursor.back by omega), leaves.between, behind, List.append_nil,
        valuesBetween_single] at split
      rw [← isSome_valueIn] at taken
      obtain ⟨held, present⟩ := Option.isSome_iff_exists.mp taken
      rw [present, Option.toList_some] at split
      obtain ⟨same, last⟩ := List.append_inj' split rfl
      rw [List.cons.injEq] at last
      obtain ⟨rfl, _⟩ := last
      subst index
      exact ⟨_, _, rfl, present, same.symm, Nat.add_sub_cancel _ _⟩

theorem Cursor.Leaves.step_spec {cursor : Cursor} {value : α} {rest : List α} (side : Side)
    (leaves : cursor.Leaves slots (side.order (value :: rest))) :
    ∃ index after, cursor.step slots side = (some index, after) ∧
      valueIn slots index = some value ∧ after.Leaves slots (side.order rest) := by
  cases side with
  | front => exact leaves.next_spec
  | back =>
      rw [Side.order, List.reverse_cons] at leaves
      exact leaves.nextBack_spec

theorem Walk.collect_spec (side : Side) (values : List α) {cursor : Cursor}
    (leaves : cursor.Leaves slots (side.order values)) :
    (collect (Walk.step · side) values.length { slots, cursor }).1 = values := by
  induction values generalizing cursor with
  | nil => rfl
  | cons value rest ih =>
      obtain ⟨index, after, stepped, held, later⟩ := leaves.step_spec side
      have step : Walk.step { slots, cursor } side = (some value, { slots, cursor := after }) := by
        simp only [Walk.step, stepped, held]
      simp only [List.length_cons, collect, step, ih later]

theorem Walk.rest_eq {walk : Walk α} {values : List α}
    (leaves : walk.cursor.Leaves walk.slots values) (side : Side) :
    (walk.rest side).1 = side.order values := by
  have count : walk.cursor.remaining = (side.order values).length := by
    rw [Side.length_order]
    exact leaves.remaining
  rw [Walk.rest, count]
  exact Walk.collect_spec side _ (by rw [Side.order_order]; exact leaves)

theorem valuesBetween_slots (table : Table α) :
    valuesBetween table.slots 0 table.slotCount = table.toList := by
  have slot (index : Nat) : valueIn table.slots index = (table.slot index).map Cell.value := rfl
  rw [toList, cells_eq, List.map_filterMap, List.range_eq_range']
  exact List.filterMap_congr fun index _ => slot index

theorem Valid.cursor_leaves (valid : Valid table) :
    table.cursor.Leaves table.slots table.toList := by
  refine ⟨valuesBetween_slots table, ?_⟩
  rw [toList, List.length_map, valid.counted]
  rfl

theorem Valid.walk_rest (valid : Valid table) (side : Side) :
    (table.walk.rest side).1 = side.order table.toList :=
  Walk.rest_eq valid.cursor_leaves side

end RobinHood.Table
