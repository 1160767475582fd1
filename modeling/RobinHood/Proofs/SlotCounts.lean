import RobinHood.Proofs.Runs

/-!
How the number of slots changes. Every call leaves it alone but for three: an entry on a full table
and a reservation move to a larger ring, and a drain that is never closed keeps the slots.
-/

namespace RobinHood.Table

variable {α : Type} {table result : Table α} {memory : Memory}

theorem slotCount_of_fill {result : Table α} {index : Nat} {cell : Cell α}
    (filled : table.fill index cell = .ok result) : result.slotCount = table.slotCount := by
  unfold fill at filled
  split at filled
  · simp at filled
  · split at filled
    · simp at filled
    · obtain rfl : _ = result := Except.ok.inj filled
      simp [slotCount]

theorem slotCount_of_insertAt {result : Table α} {index : Nat} {hash : UInt64} {value : α}
    (added : table.insertAt index hash value = .ok result) :
    result.slotCount = table.slotCount := by
  unfold insertAt at added
  split at added
  · obtain ⟨_, thrown, _⟩ := exists_of_bind added
    simp [throw, throwThe, MonadExceptOf.throw] at thrown
  · obtain ⟨steps, _, added⟩ := exists_of_bind added
    obtain ⟨filled, fits, added⟩ := exists_of_bind added
    obtain rfl : _ = result := Except.ok.inj added
    exact (slotCount_of_fill fits).trans (size_openGap _ _ _)

theorem slotCount_of_insert {place : Vacant α} {placed : Occupied α} {value : α}
    (done : place.insert value = .ok placed) :
    placed.table.slotCount = place.table.slotCount := by
  obtain ⟨filled, added, kept⟩ := exists_of_bind done
  obtain rfl : _ = placed := Except.ok.inj kept
  exact slotCount_of_insertAt added

theorem slotCount_of_removeAt {index : Nat} {value : α}
    (taken : table.removeAt index = .ok (value, result)) :
    result.slotCount = table.slotCount := by
  unfold removeAt at taken
  split at taken
  · simp at taken
  · split at taken
    · simp at taken
    · simp only at taken
      split at taken
      · simp at taken
      · obtain ⟨_, rfl⟩ := Prod.mk.inj (Except.ok.inj taken)
        simp [slotCount, size_closeGap]

theorem slotCount_of_settle {carried : Cell α} {index distance steps : Nat}
    (settled : table.settle carried index distance steps = .ok result) :
    result.slotCount = table.slotCount := by
  induction steps generalizing table carried index distance with
  | zero => simp [settle] at settled
  | succ steps ih =>
      rw [settle] at settled
      split at settled
      · exact slotCount_of_fill settled
      · simp only at settled
        split at settled
        · exact (ih settled).trans (by simp [slotCount])
        · exact ih settled

theorem slotCount_of_foldlM_place {added : List (Cell α)}
    (placed : added.foldlM place table = .ok result) : result.slotCount = table.slotCount := by
  induction added generalizing table with
  | nil =>
      obtain rfl := Except.ok.inj placed
      rfl
  | cons cell rest ih =>
      rw [List.foldlM_cons] at placed
      obtain ⟨middle, first, later⟩ := exists_of_bind placed
      unfold place at first
      split at first
      · simp at first
      · exact (ih later).trans (slotCount_of_settle first)

theorem slotCount_of_resize {slots : Nat} (moved : table.resize memory slots = .ok result) :
    table.slotCount < slots ∧ result.slotCount = slots := by
  unfold resize at moved
  split at moved
  · obtain ⟨_, thrown, _⟩ := exists_of_bind moved
    simp [throw, throwThe, MonadExceptOf.throw] at thrown
  · rename_i accepted
    obtain ⟨fresh, allocated, placed⟩ := exists_of_bind moved
    refine ⟨by omega, (slotCount_of_foldlM_place placed).trans ?_⟩
    rw [Memory.eq_replicate_of_allocate allocated]
    simp [slotCount]

theorem slotCount_of_grow (grew : table.grow memory = .ok result) :
    result.slotCount = table.nextSlots ∧ result.slotCount < 2 ^ 64 := by
  rw [grow_eq] at grew
  split at grew
  · simp at grew
  · have count := (slotCount_of_resize grew).2
    exact ⟨count, by omega⟩

theorem slotCount_of_reserve {additional : Nat}
    (reserved : table.reserve memory additional = .ok result) :
    result.slotCount = table.slotCount ∨
      table.slotCount < result.slotCount ∧ result.slotCount < 2 ^ 64 := by
  unfold reserve at reserved
  simp only at reserved
  split at reserved
  · simp at reserved
  · split at reserved
    · obtain rfl := Except.ok.inj reserved
      exact Or.inl rfl
    · obtain ⟨slots, chosen, moved⟩ := exists_of_bind reserved
      obtain ⟨larger, count⟩ := slotCount_of_resize moved
      rcases slotsFor_cases (table.population + additional) with
        ⟨width, power, _, most, _⟩ | ⟨overflow, _⟩
      · obtain rfl := Except.ok.inj (power.symm.trans chosen)
        have fits := Nat.pow_lt_pow_right (a := 2) (by decide) most
        exact Or.inr (by omega)
      · rw [overflow] at chosen
        simp at chosen

theorem growIfFull_of_entry {raw : UInt64} {accept : α → Bool} {found : Entry α}
    (entered : table.entry memory raw accept = .ok found) :
    table.growIfFull memory = .ok found.table := by
  obtain ⟨ready, grew, probed⟩ := exists_of_bind entered
  obtain ⟨answer, _, kept⟩ := exists_of_bind probed
  rw [grew]
  cases answer with
  | found index distance =>
      obtain rfl := Except.ok.inj kept
      rfl
  | vacant index distance =>
      obtain rfl := Except.ok.inj kept
      rfl

theorem slotCount_of_modify {place changed : Occupied α} {change : α → α}
    (done : place.modify change = .ok changed) :
    changed.table.slotCount = place.table.slotCount := by
  obtain ⟨_, _, kept⟩ := exists_of_bind done
  obtain rfl := Except.ok.inj kept
  exact (modifyAt_sameShape _ _ _).slotCount

theorem EntryUse.slotCount_of_on {use : EntryUse α} {found : Entry α}
    (used : use.on found = .ok result) : result.slotCount = found.table.slotCount := by
  cases found with
  | occupied place =>
      obtain ⟨changed, modified, rest⟩ := exists_of_bind used
      have same := slotCount_of_modify modified
      split at rest
      · obtain ⟨⟨value, shorter⟩, taken, kept⟩ := exists_of_bind rest
        obtain rfl := Except.ok.inj kept
        exact (slotCount_of_removeAt taken).trans same
      · obtain rfl := Except.ok.inj rest
        exact same
  | vacant place =>
      simp only [EntryUse.on, EntryUse.onVacant] at used
      split at used
      · obtain rfl := Except.ok.inj used
        rfl
      · obtain ⟨filled, inserted, rest⟩ := exists_of_bind used
        obtain ⟨changed, modified, kept⟩ := exists_of_bind rest
        obtain rfl := Except.ok.inj kept
        exact (slotCount_of_modify modified).trans (slotCount_of_insert inserted)

theorem slotCount_of_findModify {raw : UInt64} {accept : α → Bool} {change : α → α}
    {answer : Option α × Table α} (done : table.findModify raw accept change = .ok answer) :
    answer.2.slotCount = table.slotCount := by
  obtain ⟨found, _, kept⟩ := exists_of_bind done
  cases found with
  | none =>
      obtain rfl := Except.ok.inj kept
      rfl
  | some index =>
      obtain rfl := Except.ok.inj kept
      exact (modifyAt_sameShape _ _ _).slotCount

theorem slotCount_of_remove {raw : UInt64} {accept : α → Bool} {answer : Option α × Table α}
    (done : table.remove raw accept = .ok answer) : answer.2.slotCount = table.slotCount := by
  obtain ⟨found, _, rest⟩ := exists_of_bind done
  cases found with
  | none =>
      obtain rfl := Except.ok.inj rest
      rfl
  | some index =>
      obtain ⟨⟨value, shorter⟩, taken, kept⟩ := exists_of_bind rest
      obtain rfl := Except.ok.inj kept
      exact slotCount_of_removeAt taken

theorem slotCount_of_retainFrom {σ : Type} {offer : σ → α → Option α × σ} {start fuel : Nat}
    {rounds index : Nat} {state : σ} {answer : Nat × σ × Table α}
    (done : retainFrom offer start fuel rounds index state table = .ok answer) :
    answer.2.2.slotCount = table.slotCount := by
  induction fuel generalizing table rounds index state with
  | zero =>
      rw [retainFrom] at done
      split at done
      · obtain rfl := Except.ok.inj done
        rfl
      · simp at done
  | succ fuel ih =>
      rw [retainFrom] at done
      split at done
      · obtain rfl := Except.ok.inj done
        rfl
      · split at done
        · exact ih done
        · split at done
          · exact (ih done).trans (modifyAt_sameShape _ _ _).slotCount
          · obtain ⟨⟨value, shorter⟩, taken, rest⟩ := exists_of_bind done
            exact (ih rest).trans (slotCount_of_removeAt taken)

theorem slotCount_of_retain {σ : Type} {offer : σ → α → Option α × σ} {state : σ}
    {answer : σ × Table α} (done : table.retain offer state = .ok answer) :
    answer.2.slotCount = table.slotCount := by
  unfold retain at done
  split at done
  · obtain rfl := Except.ok.inj done
    rfl
  · obtain ⟨rounds, ended, rfl⟩ := exists_of_map done
    obtain ⟨start, _, walked⟩ := exists_of_bind ended
    exact slotCount_of_retainFrom walked

theorem slotCount_clear (table : Table α) : table.clear.slotCount = table.slotCount := by
  rw [clear]
  split
  · rfl
  · simp [slotCount]

theorem ChangingWalk.slotCount_step (walk : ChangingWalk α) (side : Side) (change : α → α) :
    (walk.step side change).2.table.slotCount = walk.table.slotCount := by
  rw [ChangingWalk.step]
  split
  · rfl
  · exact (modifyAt_sameShape _ _ _).slotCount

theorem slotCount_foldl_step (moves : List (Side × (α → α))) (walk : ChangingWalk α) :
    (moves.foldl (fun walk (side, change) => (walk.step side change).2) walk).table.slotCount =
      walk.table.slotCount := by
  induction moves generalizing walk with
  | nil => rfl
  | cons move rest ih => exact (ih _).trans (walk.slotCount_step move.1 move.2)

theorem slotCount_close (table : Table α) (taken : Nat) :
    (Drain.take taken table.drain).2.close.slotCount = table.slotCount := by
  have passed := (drain_passed table).take taken
  rw [Drain.close, slotCount, slots_ofSlots, Array.size_mapIdx]
  exact passed.size

theorem of_unlessRefused {β : Type} {unchanged answer : β} {outcome : Except TableError β}
    (done : unlessRefused unchanged outcome = .ok answer) :
    answer = unchanged ∨ outcome = .ok answer := by
  unfold unlessRefused at done
  split at done
  · exact Or.inl (Except.ok.inj done).symm
  · exact Or.inl (Except.ok.inj done).symm
  · exact Or.inr done

/-- The ways in which a call changes the number of slots. -/
inductive SlotChange (before after : Table α) : Operation α → Prop
  | kept {operation : Operation α} (same : after.slotCount = before.slotCount) :
      SlotChange before after operation
  | first {memory : Memory} {raw : UInt64} {accept : α → Bool} {use : EntryUse α}
      (unallocated : before.slotCount = 0) (full : before.population = before.trigger)
      (sixteen : after.slotCount = 16) :
      SlotChange before after (.entry memory raw accept use)
  | doubled {memory : Memory} {raw : UInt64} {accept : α → Bool} {use : EntryUse α}
      (allocated : before.slotCount ≠ 0) (full : before.population = before.trigger)
      (double : after.slotCount = 2 * before.slotCount) (counted : after.slotCount < 2 ^ 64) :
      SlotChange before after (.entry memory raw accept use)
  | reserved {memory : Memory} {additional : Nat} (larger : before.slotCount < after.slotCount)
      (counted : after.slotCount < 2 ^ 64) :
      SlotChange before after (.reserve memory additional)
  | leaked {taken : Nat} (none : after.slotCount = 0) :
      SlotChange before after (.drain taken false)

theorem SlotChange.of_growIfFull {raw : UInt64} {accept : α → Bool} {use : EntryUse α}
    {grown : Table α} (grew : table.growIfFull memory = .ok grown)
    (same : result.slotCount = grown.slotCount) :
    SlotChange table result (.entry memory raw accept use) := by
  unfold growIfFull at grew
  split at grew
  · rename_i full
    obtain ⟨count, counted⟩ := slotCount_of_grow grew
    rw [← same] at count counted
    by_cases unallocated : table.slotCount = 0
    · refine .first unallocated full (count.trans ?_)
      rw [nextSlots, if_pos unallocated, leastSlots]
    · refine .doubled unallocated full (count.trans ?_) counted
      rw [nextSlots, if_neg unallocated]
  · obtain rfl := Except.ok.inj grew
    exact .kept same

theorem Operation.slotChange {operation : Operation α}
    (applied : operation.apply table = .ok result) :
    SlotChange table result operation := by
  cases operation with
  | reserve memory additional =>
      rcases of_unlessRefused applied with rfl | reserved
      · exact .kept rfl
      · rcases slotCount_of_reserve reserved with same | ⟨larger, counted⟩
        · exact .kept same
        · exact .reserved larger counted
  | entry memory raw accept use =>
      rcases of_unlessRefused applied with rfl | entered
      · exact .kept rfl
      · obtain ⟨found, located, used⟩ := exists_of_bind entered
        exact .of_growIfFull (growIfFull_of_entry located) (EntryUse.slotCount_of_on used)
  | findModify raw accept change =>
      obtain ⟨answer, done, rfl⟩ := exists_of_map applied
      exact .kept (slotCount_of_findModify done)
  | remove raw accept =>
      obtain ⟨answer, done, rfl⟩ := exists_of_map applied
      exact .kept (slotCount_of_remove done)
  | retain offer state =>
      obtain ⟨answer, done, rfl⟩ := exists_of_map applied
      exact .kept (slotCount_of_retain done)
  | clear =>
      obtain rfl := Except.ok.inj applied
      exact .kept (slotCount_clear table)
  | changeInPlace moves =>
      obtain rfl := Except.ok.inj applied
      exact .kept (slotCount_foldl_step moves table.changingWalk)
  | drain taken closed =>
      obtain rfl := Except.ok.inj applied
      cases closed with
      | true => exact .kept (slotCount_close table taken)
      | false => exact .leaked rfl

end RobinHood.Table
