import RobinHood.Proofs.SlotCounts

/-!
Where the values of a table come from. A call leaves values that were there, values that its caller
puts in, and what its caller makes of either; if callers stick to one kind of values, there are no
others.
-/

namespace RobinHood.Table

variable {α σ : Type} {table result : Table α} {kind : α → Prop}

/-- All values of a table are of one kind. -/
def Only (kind : α → Prop) (table : Table α) : Prop :=
  ∀ cell ∈ table.cells, kind cell.value

structure EntryUse.Keeps (kind : α → Prop) (use : EntryUse α) : Prop where
  change (value : α) : kind value → kind (use.change value)
  filling (value : α) : use.filling = some value → kind value

def Operation.Keeps (kind : α → Prop) : Operation α → Prop
  | .entry _ _ _ use => use.Keeps kind
  | .findModify _ _ change => ∀ value, kind value → kind (change value)
  | .retain offer _ =>
      ∀ state value kept, kind value → (offer state value).1 = some kept → kind kept
  | .changeInPlace moves => ∀ move ∈ moves, ∀ value, kind value → kind (move.2 value)
  | .reserve _ _ | .remove _ _ | .clear | .drain _ _ => True

namespace Only

theorem of_nil (cells : table.cells = []) : Only kind table := by
  rw [Only, cells]
  simp

theorem of_subset (only : Only kind table) (cells : result.cells ⊆ table.cells) :
    Only kind result :=
  fun cell member => only cell (cells member)

theorem of_exchanged {cell : Cell α} {value : α} (only : Only kind table)
    (exchanged : Exchanged table result cell { cell with value }) (new : kind value) :
    Only kind result := by
  obtain ⟨rest, before, after⟩ := exchanged
  intro other member
  rcases List.mem_cons.mp (after.subset member) with rfl | old
  · exact new
  · exact only other (before.symm.subset (List.mem_cons_of_mem cell old))

theorem of_added {hash : UInt64} {value : α} (only : Only kind table)
    (cells : result.cells.Perm ({ hash, value } :: table.cells)) (new : kind value) :
    Only kind result := by
  intro other member
  rcases List.mem_cons.mp (cells.subset member) with rfl | old
  · exact new
  · exact only other old

theorem of_taken {cell : Cell α} (only : Only kind table)
    (cells : (cell :: result.cells).Perm table.cells) : Only kind result :=
  fun other member => only other (cells.subset (List.mem_cons_of_mem cell member))

theorem modifyAt (only : Only kind table) (index : Nat) {change : α → α}
    (keeps : ∀ value, kind value → kind (change value)) :
    Only kind (table.modifyAt index change) := by
  cases held : table.slot index with
  | none => rwa [modifyAt_of_free change held]
  | some cell =>
      exact only.of_exchanged (exchanged_modifyAt change held)
        (keeps cell.value (only cell (mem_cells.mpr ⟨index, held⟩)))

theorem offerAll {offer : σ → α → Option α × σ}
    (keeps : ∀ state value kept, kind value → (offer state value).1 = some kept → kind kept)
    (state : σ) {cells : List (Cell α)} (only : ∀ cell ∈ cells, kind cell.value) :
    ∀ cell ∈ (offerAll offer state cells).1, kind cell.value := by
  induction cells generalizing state with
  | nil => simp [Table.offerAll]
  | cons cell rest ih =>
      rw [List.forall_mem_cons] at only
      rw [Table.offerAll]
      split
      next value after verdict =>
        rw [List.forall_mem_cons]
        exact ⟨keeps state cell.value value only.1 (by rw [verdict]), ih after only.2⟩
      next after verdict => exact ih after only.2

theorem foldl_step {moves : List (Side × (α → α))}
    (keeps : ∀ move ∈ moves, ∀ value, kind value → kind (move.2 value)) {walk : ChangingWalk α}
    (only : Only kind walk.table) :
    Only kind (moves.foldl (fun walk (side, change) => (walk.step side change).2) walk).table := by
  induction moves generalizing walk with
  | nil => exact only
  | cons move rest ih =>
      rw [List.forall_mem_cons] at keeps
      refine ih keeps.2 ?_
      simp only [ChangingWalk.step]
      split
      · exact only
      · exact only.modifyAt _ keeps.1

theorem onOccupied {use : EntryUse α} {place : Occupied α} {cell : Cell α}
    (only : Only kind place.table) (keeps : use.Keeps kind) (holds : place.Holds cell)
    (used : use.onOccupied place = .ok result) : Only kind result := by
  obtain ⟨changed, modified, still, _, exchanged⟩ := holds.modify_spec use.change
  have changedOnly : Only kind changed.table :=
    only.of_exchanged exchanged (keeps.change _ (only cell exchanged.mem))
  obtain ⟨other, same, rest⟩ := exists_of_bind used
  obtain rfl := Except.ok.inj (modified.symm.trans same)
  split at rest
  · obtain ⟨shorter, taken, _, _, cells⟩ := still.remove_spec
    obtain ⟨answer, removed, kept⟩ := exists_of_bind rest
    obtain rfl := Except.ok.inj (taken.symm.trans removed)
    obtain rfl := Except.ok.inj kept
    exact changedOnly.of_taken cells
  · obtain rfl := Except.ok.inj rest
    exact changedOnly

theorem onVacant {use : EntryUse α} {place : Vacant α} {raw : UInt64} {accept : α → Bool}
    (only : Only kind place.table) (keeps : use.Keeps kind) (awaits : place.Awaits raw accept)
    (used : use.onVacant place = .ok result) : Only kind result := by
  rw [EntryUse.onVacant] at used
  cases filling : use.filling with
  | none =>
      rw [filling] at used
      obtain rfl := Except.ok.inj used
      exact only
  | some value =>
      rw [filling] at used
      obtain ⟨placed, inserted, holds, _, cells⟩ := awaits.insert_spec value
      obtain ⟨changed, modified, _, _, exchanged⟩ := holds.modify_spec use.change
      obtain ⟨other, same, rest⟩ := exists_of_bind used
      obtain rfl := Except.ok.inj (inserted.symm.trans same)
      obtain ⟨last, again, kept⟩ := exists_of_bind rest
      obtain rfl := Except.ok.inj (modified.symm.trans again)
      obtain rfl := Except.ok.inj kept
      have new := keeps.filling value filling
      exact (only.of_added cells new).of_exchanged exchanged (keeps.change value new)

end Only

theorem Operation.apply_only (operation : Operation α) (valid : Valid table)
    (only : Only kind table) (keeps : operation.Keeps kind)
    (applied : operation.apply table = .ok result) : Only kind result := by
  cases operation with
  | reserve memory additional =>
      rcases of_unlessRefused applied with rfl | reserved
      · exact only
      · rcases valid.reserve_cases memory additional with
          ⟨other, done, _, _, cells⟩ | ⟨error, failed, _⟩
        · obtain rfl := Except.ok.inj (done.symm.trans reserved)
          exact only.of_subset cells.subset
        · simp [failed] at reserved
  | entry memory raw accept use =>
      rcases of_unlessRefused applied with rfl | entered
      · exact only
      · obtain ⟨found, located, used⟩ := exists_of_bind entered
        rcases valid.entry_cases memory raw accept with
          ⟨place, cell, done, grown, holds, _⟩ | ⟨place, done, grown, awaits⟩ | ⟨error, failed, _⟩
        · obtain rfl := Except.ok.inj (done.symm.trans located)
          exact (only.of_subset grown.cells.subset).onOccupied keeps holds used
        · obtain rfl := Except.ok.inj (done.symm.trans located)
          exact (only.of_subset grown.cells.subset).onVacant keeps awaits used
        · simp [failed] at located
  | findModify raw accept change =>
      obtain ⟨answer, done, rfl⟩ := exists_of_map applied
      rcases valid.findModify_cases raw accept change with
        ⟨cell, changed, _, found, _, _, exchanged⟩ | ⟨_, missed⟩
      · obtain rfl := Except.ok.inj (found.symm.trans done)
        exact only.of_exchanged exchanged (keeps _ (only cell exchanged.mem))
      · obtain rfl := Except.ok.inj (missed.symm.trans done)
        exact only
  | remove raw accept =>
      obtain ⟨answer, done, rfl⟩ := exists_of_map applied
      rcases valid.remove_cases raw accept with
        ⟨cell, shorter, _, taken, _, _, cells⟩ | ⟨_, missed⟩
      · obtain rfl := Except.ok.inj (taken.symm.trans done)
        exact only.of_taken cells
      · obtain rfl := Except.ok.inj (missed.symm.trans done)
        exact only
  | retain offer state =>
      obtain ⟨answer, done, rfl⟩ := exists_of_map applied
      obtain ⟨order, kept, perm, ran, _, cells⟩ := valid.retain_spec offer state
      obtain rfl := Except.ok.inj (ran.symm.trans done)
      intro cell member
      exact Only.offerAll keeps state (fun cell member => only cell (perm.subset member)) cell
        (cells.subset member)
  | clear =>
      obtain rfl := Except.ok.inj applied
      exact .of_nil valid.clear.2
  | changeInPlace moves =>
      obtain rfl := Except.ok.inj applied
      exact Only.foldl_step keeps only
  | drain taken closed =>
      obtain rfl := Except.ok.inj applied
      exact .of_nil (valid.drained taken closed).2

end RobinHood.Table
