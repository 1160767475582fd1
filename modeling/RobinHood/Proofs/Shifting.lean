import RobinHood.Proofs.Order
import RobinHood.Table.Shift

/-!
Adding a value at a vacant place and taking one out. Each moves one run of the ring by a slot; both
keep the order, and the contents of all slots afterwards are given by their offset from the place.
-/

namespace RobinHood.Table

variable {α : Type} {table result : Table α} {index : Nat}

theorem isFree_iff : table.isFree index = true ↔ table.slot index = none := by
  simp [isFree]

theorem stepsToFree_spec (bound : index < table.slotCount)
    (free : ∃ hole < table.slotCount, table.slot hole = none) :
    ∃ steps < table.slotCount, table.stepsToFree index = .ok steps ∧
      table.slot (table.after index steps) = none ∧
        ∀ earlier < steps, table.slot (table.after index earlier) ≠ none := by
  obtain ⟨hole, holeBound, empty⟩ := free
  obtain ⟨distance, distanceBound, rfl⟩ := exists_after bound holeBound
  cases found : firstWhere (fun steps => table.isFree (table.after index steps)) 0
      table.slotCount with
  | none =>
      have taken := firstWhere_eq_none_iff.mp found distance (by omega) (by omega)
      simp [isFree, empty] at taken
  | some steps =>
      obtain ⟨_, below, here, before⟩ := firstWhere_eq_some_iff.mp found
      refine ⟨steps, by omega, by simp [stepsToFree, found], isFree_iff.mp here, ?_⟩
      intro earlier ahead vacant
      have taken := before earlier (by omega) ahead
      rw [isFree_iff.mpr vacant] at taken
      simp at taken

/-- What adding a cell at a place does: the run of `steps` slots from there moves one slot on. -/
structure Inserted (table result : Table α) (index steps : Nat) (cell : Cell α) : Prop where
  shape : SameShape table result
  population : result.population = table.population + 1
  steps_lt : steps < table.slotCount
  hole : table.slot (table.after index steps) = none
  run : ∀ offset < steps, table.slot (table.after index offset) ≠ none
  slots : ∀ offset < table.slotCount, result.slot (table.after index offset) =
    if offset = 0 then some cell
    else if offset ≤ steps then table.slot (table.after index (offset - 1))
    else table.slot (table.after index offset)
  cells : result.cells.Perm (cell :: table.cells)

theorem Inserted.placed {steps : Nat} {cell : Cell α}
    (inserted : Inserted table result index steps cell) (bound : index < table.slotCount) :
    result.slot index = some cell := by
  have first := inserted.slots 0 (Nat.zero_lt_of_lt bound)
  rwa [if_pos rfl, after_zero bound] at first

theorem slot_openGap_start {steps : Nat} (bound : index < table.slotCount)
    (stepsBound : steps < table.slotCount) (hole : table.slot (table.after index steps) = none) :
    (table.withSlots (openGap table.slots index steps)).slot index = none := by
  have first := table.slot_openGap bound stepsBound (Nat.zero_lt_of_lt bound)
  rwa [if_pos rfl, hole, after_zero bound] at first

theorem insertAt_of_steps {steps : Nat} {hash : UInt64} {value : α}
    (bound : index < table.slotCount) (room : table.population < table.trigger)
    (stepsBound : steps < table.slotCount) (found : table.stepsToFree index = .ok steps)
    (hole : table.slot (table.after index steps) = none) :
    table.insertAt index hash value =
      .ok { (table.withSlots (openGap table.slots index steps)).put index
              (some { hash, value }) with population := table.population + 1 } := by
  let opened := table.withSlots (openGap table.slots index steps)
  have same : SameShape table opened := withSlots_sameShape (size_openGap _ _ _)
  have gap : opened.slot index = none := slot_openGap_start bound stepsBound hole
  have allowed : ¬ table.trigger ≤ table.population := by omega
  have openedBound : index < opened.slotCount := by rw [same.slotCount]; exact bound
  simp only [insertAt, allowed, if_false, found]
  change (do
    let filled ← opened.fill index { hash, value }
    pure { filled with population := filled.population + 1 }) = _
  rw [fill_eq_put _ openedBound gap]
  rfl

theorem insertAt_spec (hash : UInt64) (value : α) (bound : index < table.slotCount)
    (free : ∃ hole < table.slotCount, table.slot hole = none)
    (room : table.population < table.trigger) :
    ∃ result steps, table.insertAt index hash value = .ok result ∧
      Inserted table result index steps { hash, value } := by
  obtain ⟨steps, stepsBound, found, hole, run⟩ := stepsToFree_spec bound free
  let opened := table.withSlots (openGap table.slots index steps)
  have same : SameShape table opened := withSlots_sameShape (size_openGap _ _ _)
  have openedBound : index < opened.slotCount := by rw [same.slotCount]; exact bound
  have slots (offset : Nat) (offsetBound : offset < table.slotCount) :=
    table.slot_openGap bound stepsBound offsetBound
  have gap : opened.slot index = none := slot_openGap_start bound stepsBound hole
  let filled := opened.put index (some { hash, value })
  have filledShape : SameShape table filled := same.trans (put_sameShape _ _ _)
  refine ⟨{ filled with population := table.population + 1 }, steps,
    insertAt_of_steps bound room stepsBound found hole, ?_⟩
  refine ⟨⟨filledShape.slotCount, rfl, rfl, rfl⟩, rfl, stepsBound, hole, run, ?_, ?_⟩
  · intro offset offsetBound
    have written := opened.slot_put (some { hash, value }) openedBound
      (table.after index offset)
    refine written.trans ?_
    by_cases first : offset = 0
    · subst offset
      simp [after_zero bound]
    · have apart : table.after index offset ≠ index := by
        intro loops
        rw [← after_zero bound, after_after] at loops
        exact first (after_injective bound (by omega) (by omega) (by simpa using loops))
      rw [if_neg apart, if_neg first]
      refine (slots offset offsetBound).trans ?_
      rw [if_neg first]
  · exact (cells_put_free _ openedBound gap).trans
      ((table.cells_withSlots_perm (openGap_perm _ _ _)).cons _)

theorem Inserted.reach {steps : Nat} {cell : Cell α}
    (inserted : Inserted table result index steps cell)
    (ordered : Ordered table) (bound : index < table.slotCount) (offset : Nat)
    (offsetBound : offset < table.slotCount) :
    result.reach (table.after index offset) =
      if offset = 0 then table.displacement cell.hash index + 1
      else if offset ≤ steps then table.reach (table.after index (offset - 1)) + 1
      else table.reach (table.after index offset) := by
  have free : ∃ hole < table.slotCount, table.slot hole = none :=
    ⟨_, after_lt ordered.shaped.allocated _ _, inserted.hole⟩
  have content := inserted.slots offset offsetBound
  by_cases first : offset = 0
  · subst offset
    rw [if_pos rfl] at content ⊢
    rw [reach_of_cell content, inserted.shape.displacement, after_zero bound]
  · rw [if_neg first] at content ⊢
    by_cases moved : offset ≤ steps
    · rw [if_pos moved] at content ⊢
      obtain ⟨resident, held⟩ :=
        Option.ne_none_iff_exists'.mp (inserted.run (offset - 1) (by omega))
      have arrival : table.next (table.after index (offset - 1)) = table.after index offset := by
        rw [next_after, Nat.sub_add_cancel (by omega)]
      rw [reach_of_cell (content.trans held), inserted.shape.displacement, ← arrival,
        ordered.displacement_next free held]
    · rw [if_neg moved] at content ⊢
      exact inserted.shape.reach_congr content

theorem Inserted.ordered {steps : Nat} {cell : Cell α}
    (inserted : Inserted table result index steps cell) (ordered : Ordered table)
    (bound : index < table.slotCount) (odd : cell.hash % 2 = 1)
    (allowed : table.displacement cell.hash index ≤ table.reach (table.previous index))
    (gives : table.reach index ≤ table.displacement cell.hash index) : Ordered result := by
  have allocated := ordered.shaped.allocated
  refine ⟨inserted.shape.shaped ordered.shaped, ?_, ?_⟩
  · intro position resident held
    have member : resident ∈ cell :: table.cells :=
      inserted.cells.subset (mem_cells.mpr ⟨position, held⟩)
    rcases List.mem_cons.mp member with same | old
    · rw [same]
      exact odd
    · obtain ⟨before, present⟩ := mem_cells.mp old
      exact ordered.odd present
  · intro position positionBound
    rw [inserted.shape.slotCount] at positionBound
    obtain ⟨offset, offsetBound, rfl⟩ := exists_after bound positionBound
    rw [next_eq, inserted.shape.after, after_after]
    have step (distance : Nat) : table.reach (table.after index (distance + 1)) ≤
        table.reach (table.after index distance) + 1 := by
      have gradual := ordered.gradual (after_lt allocated index distance)
      rwa [next_after] at gradual
    have start : table.reach (table.after index 0) ≤ table.displacement cell.hash index := by
      rwa [after_zero bound]
    have stop : table.reach (table.after index steps) = 0 := reach_of_free inserted.hole
    rw [previous_eq bound] at allowed
    have current := inserted.reach ordered bound offset offsetBound
    by_cases wraps : offset + 1 = table.slotCount
    · have first := inserted.reach ordered bound 0 allocated
      rw [if_pos rfl, after_zero bound] at first
      rw [wraps, after_round bound, first, current]
      have last : offset = table.slotCount - 1 := by omega
      subst offset
      have stepsBound := inserted.steps_lt
      by_cases full : steps = table.slotCount - 1
      · rw [full] at stop
        omega
      · rw [if_neg (by omega), if_neg (by omega)]
        omega
    · have following := inserted.reach ordered bound (offset + 1) (by omega)
      rw [if_neg (by omega), Nat.add_sub_cancel] at following
      rw [following, current]
      by_cases first : offset = 0
      · subst offset
        rw [if_pos rfl]
        have second := step 0
        by_cases empty : steps = 0
        · subst steps
          rw [if_neg (by omega)]
          omega
        · rw [if_pos (by omega)]
          omega
      · rw [if_neg first]
        have before := step (offset - 1)
        rw [Nat.sub_add_cancel (by omega)] at before
        have here := step offset
        by_cases inside : offset + 1 ≤ steps
        · rw [if_pos inside, if_pos (by omega)]
          omega
        · rw [if_neg inside]
          by_cases last : offset = steps
          · rw [if_pos (by omega)]
            rw [last] at here ⊢
            omega
          · rw [if_neg (by omega)]
            exact here

theorem endsRun_iff : table.endsRun index = true ↔ table.reach index ≤ 1 := by
  cases held : table.slot index with
  | none => simp [endsRun, held, reach_of_free held]
  | some cell => simp [endsRun, held, reach_of_cell held]

/-- What taking a cell out does: the run behind it, up to the slot `steps` on, moves back by one. -/
structure Removed (table result : Table α) (index steps : Nat) (cell : Cell α) : Prop where
  shape : SameShape table result
  population : result.population + 1 = table.population
  steps_pos : 0 < steps
  steps_lt : steps < table.slotCount
  run : ∀ offset, 0 < offset → offset < steps → 1 < table.reach (table.after index offset)
  ends : table.reach (table.after index steps) ≤ 1
  slots : ∀ offset < table.slotCount, result.slot (table.after index offset) =
    if offset + 1 < steps then table.slot (table.after index (offset + 1))
    else if offset + 1 = steps then none
    else table.slot (table.after index offset)
  cells : (cell :: result.cells).Perm table.cells

theorem endsRun_spec {cell : Cell α} (held : table.slot index = some cell)
    (free : ∃ hole < table.slotCount, table.slot hole = none) :
    ∃ steps, firstWhere (fun steps => (table.put index none).endsRun
        ((table.put index none).after index steps)) 1 (table.put index none).slotCount =
          some steps ∧
      0 < steps ∧ steps < table.slotCount ∧
      (∀ offset, 0 < offset → offset < steps → 1 < table.reach (table.after index offset)) ∧
      table.reach (table.after index steps) ≤ 1 := by
  have bound := lt_of_slot held
  have same : SameShape table (table.put index none) := put_sameShape table index none
  have ends {offset : Nat} (positive : 0 < offset) (below : offset < table.slotCount) :
      (table.put index none).endsRun ((table.put index none).after index offset) = true ↔
        table.reach (table.after index offset) ≤ 1 := by
    rw [endsRun_iff, same.after, same.reach_congr (slot_put_after none bound positive below)]
  obtain ⟨hole, holeBound, empty⟩ := free
  obtain ⟨distance, distanceBound, rfl⟩ := exists_after bound holeBound
  have distancePos : 0 < distance := by
    by_contra zero
    obtain rfl : distance = 0 := by omega
    rw [after_zero bound, held] at empty
    simp at empty
  have last := (ends distancePos distanceBound).mpr (by rw [reach_of_free empty]; omega)
  cases found : firstWhere (fun steps => (table.put index none).endsRun
      ((table.put index none).after index steps)) 1 (table.put index none).slotCount with
  | none =>
      have silent := firstWhere_eq_none_iff.mp found distance (by omega)
        (by rw [same.slotCount]; omega)
      simp [last] at silent
  | some steps =>
      obtain ⟨positive, _, here, before⟩ := firstWhere_eq_some_iff.mp found
      have stepsBound : steps < table.slotCount := by
        by_contra beyond
        have silent := before distance (by omega) (by omega)
        simp [last] at silent
      refine ⟨steps, rfl, positive, stepsBound, ?_, (ends positive stepsBound).mp here⟩
      intro offset offsetPos offsetBound
      have silent := before offset (by omega) offsetBound
      by_contra low
      rw [(ends offsetPos (by omega)).mpr (by omega)] at silent
      simp at silent

theorem removeAt_of_steps {cell : Cell α} {steps : Nat} (held : table.slot index = some cell)
    (counted : table.population ≠ 0)
    (found : firstWhere (fun steps => (table.put index none).endsRun
      ((table.put index none).after index steps)) 1 (table.put index none).slotCount =
        some steps) :
    table.removeAt index = .ok (cell.value, { table.put index none with
      slots := closeGap (table.put index none).slots index (steps - 1)
      population := table.population - 1 }) := by
  simp only [removeAt, held, counted, if_false]
  simp only [put] at found
  simp only [found]
  rfl

theorem removeAt_spec {cell : Cell α} (held : table.slot index = some cell)
    (free : ∃ hole < table.slotCount, table.slot hole = none) (counted : table.population ≠ 0) :
    ∃ result steps, table.removeAt index = .ok (cell.value, result) ∧
      Removed table result index steps cell := by
  have bound := lt_of_slot held
  let holed := table.put index none
  have same : SameShape table holed := put_sameShape table index none
  have holedBound : index < holed.slotCount := by rw [same.slotCount]; exact bound
  obtain ⟨steps, found, positive, stepsBound, run, ends⟩ := endsRun_spec held free
  let result : Table α := { holed with
    slots := closeGap holed.slots index (steps - 1)
    population := table.population - 1 }
  have shape : SameShape table result :=
    ⟨(size_closeGap _ _ _).trans same.slotCount, rfl, rfl, rfl⟩
  refine ⟨result, steps, removeAt_of_steps held counted found, shape, ?_, positive, stepsBound,
    run, ends, ?_, ?_⟩
  · change table.population - 1 + 1 = table.population
    omega
  · intro offset offsetBound
    have widthBound : steps - 1 < holed.slotCount := by rw [same.slotCount]; omega
    have closed := holed.slot_closeGap holedBound widthBound
      (by rw [same.slotCount]; exact offsetBound)
    simp only [same.after] at closed
    refine closed.trans ?_
    by_cases moved : offset + 1 < steps
    · rw [if_pos (by omega), if_pos moved, slot_put_after none bound (by omega) (by omega)]
    · rw [if_neg (by omega), if_neg moved]
      by_cases gap : offset + 1 = steps
      · rw [if_pos (by omega), if_pos gap, after_zero bound]
        exact slot_put_self none bound
      · rw [if_neg (by omega), if_neg gap, slot_put_after none bound (by omega) offsetBound]
  · have moved : result.cells.Perm holed.cells :=
      holed.cells_withSlots_perm (closeGap_perm _ _ _)
    exact (moved.cons cell).trans (cells_put_none held)

theorem Removed.reach {steps : Nat} {cell : Cell α}
    (removed : Removed table result index steps cell) (ordered : Ordered table)
    (offset : Nat) (offsetBound : offset < table.slotCount) :
    result.reach (table.after index offset) =
      if offset + 1 < steps then table.reach (table.after index (offset + 1)) - 1
      else if offset + 1 = steps then 0
      else table.reach (table.after index offset) := by
  have content := removed.slots offset offsetBound
  by_cases moved : offset + 1 < steps
  · rw [if_pos moved] at content ⊢
    have far := removed.run (offset + 1) (by omega) moved
    have arrival := table.next_after index offset
    cases held : table.slot (table.after index (offset + 1)) with
    | none =>
        rw [reach_of_free held] at far
        omega
    | some resident =>
        rw [reach_of_cell held] at far
        have back := ordered.shaped.displacement_before_next resident.hash
          (after_lt ordered.shaped.allocated index offset) (by rw [arrival]; omega)
        rw [arrival] at back
        rw [reach_of_cell (content.trans held), removed.shape.displacement, reach_of_cell held]
        omega
  · rw [if_neg moved] at content ⊢
    by_cases gap : offset + 1 = steps
    · rw [if_pos gap] at content ⊢
      exact reach_of_free content
    · rw [if_neg gap] at content ⊢
      exact removed.shape.reach_congr content

theorem Removed.ordered {steps : Nat} {cell : Cell α}
    (removed : Removed table result index steps cell) (ordered : Ordered table)
    (bound : index < table.slotCount) : Ordered result := by
  have allocated := ordered.shaped.allocated
  refine ⟨removed.shape.shaped ordered.shaped, ?_, ?_⟩
  · intro position resident held
    have member : resident ∈ table.cells :=
      removed.cells.subset (List.mem_cons_of_mem _ (mem_cells.mpr ⟨position, held⟩))
    obtain ⟨before, present⟩ := mem_cells.mp member
    exact ordered.odd present
  · intro position positionBound
    rw [removed.shape.slotCount] at positionBound
    obtain ⟨offset, offsetBound, rfl⟩ := exists_after bound positionBound
    rw [next_eq, removed.shape.after, after_after]
    have step (distance : Nat) : table.reach (table.after index (distance + 1)) ≤
        table.reach (table.after index distance) + 1 := by
      have gradual := ordered.gradual (after_lt allocated index distance)
      rwa [next_after] at gradual
    have stepsPos := removed.steps_pos
    have stepsBound := removed.steps_lt
    have ends := removed.ends
    have current := removed.reach ordered offset offsetBound
    by_cases wraps : offset + 1 = table.slotCount
    · have first := removed.reach ordered 0 allocated
      rw [after_zero bound] at first
      rw [if_neg (by omega), if_neg (by omega)] at current
      rw [wraps, after_round bound, first, current]
      have round := step offset
      rw [wraps, after_round bound] at round
      by_cases moved : 0 + 1 < steps
      · rw [if_pos moved]
        have start := step 0
        rw [after_zero bound] at start
        omega
      · rw [if_neg moved, if_pos (by omega)]
        omega
    · have following := removed.reach ordered (offset + 1) (by omega)
      rw [following, current]
      by_cases moved : offset + 1 < steps
      · rw [if_pos moved]
        have far := step (offset + 1)
        have least := removed.run (offset + 1) (by omega) moved
        by_cases inside : offset + 1 + 1 < steps
        · rw [if_pos inside]
          omega
        · rw [if_neg inside, if_pos (by omega)]
          omega
      · rw [if_neg moved, if_neg (by omega), if_neg (by omega)]
        by_cases gap : offset + 1 = steps
        · rw [if_pos gap, gap]
          omega
        · rw [if_neg gap]
          exact step offset

theorem Removed.sound {steps : Nat} {cell : Cell α}
    (removed : Removed table result index steps cell) (sound : Sound table)
    (bound : index < table.slotCount) : Sound result := by
  have length := removed.cells.length_eq
  have population := removed.population
  have counted := sound.counted
  have roomy := sound.roomy
  rw [List.length_cons] at length
  refine ⟨removed.ordered sound.toOrdered bound, by omega, ?_⟩
  rw [removed.shape.trigger]
  omega

theorem Inserted.sound {steps : Nat} {cell : Cell α}
    (inserted : Inserted table result index steps cell) (sound : Sound table)
    (bound : index < table.slotCount) (room : table.population < table.trigger)
    (odd : cell.hash % 2 = 1)
    (allowed : table.displacement cell.hash index ≤ table.reach (table.previous index))
    (gives : table.reach index ≤ table.displacement cell.hash index) : Sound result := by
  have length := inserted.cells.length_eq
  have population := inserted.population
  have counted := sound.counted
  rw [List.length_cons] at length
  refine ⟨inserted.ordered sound.toOrdered bound odd allowed gives, by omega, ?_⟩
  rw [inserted.shape.trigger]
  omega

end RobinHood.Table
