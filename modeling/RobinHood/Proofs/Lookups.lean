import RobinHood.Proofs.Growing
import RobinHood.Proofs.Probing
import RobinHood.Proofs.Shifting
import RobinHood.Table.Entry

/-!
Lookups and entries as seen through the cells of a table. Each either finds a cell of the hash with
an accepted value, or shows that the table has none; each change touches that one cell.
-/

namespace RobinHood.Table

variable {α : Type} {table result : Table α}

/-- One cell of a table takes the place of another. -/
def Exchanged (table result : Table α) (old new : Cell α) : Prop :=
  ∃ rest, table.cells.Perm (old :: rest) ∧ result.cells.Perm (new :: rest)

def Absent (table : Table α) (hash : UInt64) (accept : α → Bool) : Prop :=
  ∀ cell ∈ table.cells, cell.matches hash accept = false

theorem probeAt_of_absent {hash : UInt64} {accept : α → Bool} (absent : table.Absent hash accept)
    (distance : Nat) :
    table.probeAt hash accept distance =
      if table.reach (table.after (table.home hash) distance) ≤ distance then
        some (.vacant (table.after (table.home hash) distance) distance)
      else none := by
  cases held : table.slot (table.after (table.home hash) distance) with
  | none => rw [probeAt_of_free held, reach_of_free held, if_pos (Nat.zero_le _)]
  | some cell =>
      have rejected := absent cell (mem_cells.mpr ⟨_, held⟩)
      rw [probeAt_of_cell held, if_neg (by simp [rejected])]

theorem exchanged_put {index : Nat} {old : Cell α} (new : Cell α)
    (held : table.slot index = some old) :
    Exchanged table (table.put index (some new)) old new := by
  have taken := (cells_put_none held).symm
  refine ⟨(table.put index none).cells, taken, ?_⟩
  have swapped := (cells_put_cell new held).trans (taken.cons new)
  exact (List.perm_cons old).mp (swapped.trans (List.Perm.swap _ _ _))

theorem Exchanged.mem {old new : Cell α} (exchanged : Exchanged table result old new) :
    old ∈ table.cells := by
  obtain ⟨rest, before, _⟩ := exchanged
  exact before.symm.subset (List.mem_cons_self)

theorem exchanged_modifyAt {index : Nat} {cell : Cell α} (change : α → α)
    (held : table.slot index = some cell) :
    Exchanged table (table.modifyAt index change) cell
      { cell with value := change cell.value } := by
  rw [modifyAt_eq_put change held]
  exact exchanged_put _ held

theorem slot_modifyAt_self {index : Nat} {cell : Cell α} (change : α → α)
    (held : table.slot index = some cell) :
    (table.modifyAt index change).slot index = some { cell with value := change cell.value } := by
  rw [modifyAt_eq_put change held]
  exact slot_put_self _ (lt_of_slot held)

theorem Valid.modifyAt (valid : Valid table) (index : Nat) (change : α → α) :
    Valid (table.modifyAt index change) := by
  cases valid with
  | unallocated slots population trigger =>
      exact .unallocated ((modifyAt_sameShape table index change).slotCount.trans slots) population
        trigger
  | allocated sound => exact .allocated (sound.modifyAt index change)

theorem Valid.sound_of_slot (valid : Valid table) {index : Nat} {cell : Cell α}
    (held : table.slot index = some cell) : Sound table := by
  have bound := lt_of_slot held
  exact valid.sound (by omega)

theorem Valid.population_ne_zero (valid : Valid table) {index : Nat} {cell : Cell α}
    (held : table.slot index = some cell) : table.population ≠ 0 := by
  have positive := List.length_pos_of_mem (mem_cells.mpr ⟨index, held⟩)
  have counted := valid.counted
  omega

theorem Valid.removeAt_spec (valid : Valid table) {index : Nat} {cell : Cell α}
    (held : table.slot index = some cell) :
    ∃ result, table.removeAt index = .ok (cell.value, result) ∧ Valid result ∧
      result.population + 1 = table.population ∧ (cell :: result.cells).Perm table.cells := by
  have sound := valid.sound_of_slot held
  obtain ⟨result, steps, taken, removed⟩ :=
    Table.removeAt_spec held sound.exists_free (valid.population_ne_zero held)
  exact ⟨result, taken, .allocated (removed.sound sound (lt_of_slot held)), removed.population,
    removed.cells⟩

theorem Valid.findIndex_cases (valid : Valid table) (raw : UInt64) (accept : α → Bool) :
    (∃ index cell, table.findIndex raw accept = .ok (some index) ∧
        table.slot index = some cell ∧ cell.matches (storedHash raw) accept = true) ∨
      table.findIndex raw accept = .ok none ∧ table.Absent (storedHash raw) accept := by
  by_cases vacant : table.population = 0
  · refine Or.inr ⟨by simp [findIndex, vacant], ?_⟩
    intro cell member
    have positive := List.length_pos_of_mem member
    rw [valid.counted] at positive
    omega
  · have allocated := valid.slotCount_ne_zero vacant
    rcases (valid.sound allocated).probe_cases (storedHash_odd raw) accept with
      ⟨index, distance, probed, found⟩ | ⟨index, distance, probed, vacancy⟩
    · obtain ⟨cell, held, matched⟩ := found.cell
      exact Or.inl ⟨index, cell, by simp [findIndex, vacant, probed], held, matched⟩
    · refine Or.inr ⟨by simp [findIndex, vacant, probed], ?_⟩
      intro cell member
      obtain ⟨position, held⟩ := mem_cells.mp member
      exact vacancy.absent held

theorem Valid.find_cases (valid : Valid table) (raw : UInt64) (accept : α → Bool) :
    (∃ cell ∈ table.cells, cell.matches (storedHash raw) accept = true ∧
        table.find raw accept = .ok (some cell.value)) ∨
      table.Absent (storedHash raw) accept ∧ table.find raw accept = .ok none := by
  rcases valid.findIndex_cases raw accept with
    ⟨index, cell, found, held, matched⟩ | ⟨missed, absent⟩
  · refine Or.inl ⟨cell, mem_cells.mpr ⟨index, held⟩, matched, ?_⟩
    simp only [find, found]
    change Except.ok ((table.slot index).map Cell.value) = _
    rw [held]
    rfl
  · refine Or.inr ⟨absent, ?_⟩
    simp only [find, missed]
    rfl

theorem Valid.findModify_cases (valid : Valid table) (raw : UInt64) (accept : α → Bool)
    (change : α → α) :
    (∃ cell result, cell.matches (storedHash raw) accept = true ∧
        table.findModify raw accept change = .ok (some (change cell.value), result) ∧
          Valid result ∧ result.population = table.population ∧
            Exchanged table result cell { cell with value := change cell.value }) ∨
      table.Absent (storedHash raw) accept ∧
        table.findModify raw accept change = .ok (none, table) := by
  rcases valid.findIndex_cases raw accept with
    ⟨index, cell, found, held, matched⟩ | ⟨missed, absent⟩
  · refine Or.inl ⟨cell, table.modifyAt index change, matched, ?_, valid.modifyAt index change, rfl,
      exchanged_modifyAt change held⟩
    simp only [findModify, found]
    change Except.ok (((table.modifyAt index change).slot index).map Cell.value, _) = _
    rw [slot_modifyAt_self change held]
    rfl
  · refine Or.inr ⟨absent, ?_⟩
    simp only [findModify, missed]
    rfl

theorem Valid.remove_cases (valid : Valid table) (raw : UInt64) (accept : α → Bool) :
    (∃ cell result, cell.matches (storedHash raw) accept = true ∧
        table.remove raw accept = .ok (some cell.value, result) ∧ Valid result ∧
          result.population + 1 = table.population ∧ (cell :: result.cells).Perm table.cells) ∨
      table.Absent (storedHash raw) accept ∧ table.remove raw accept = .ok (none, table) := by
  rcases valid.findIndex_cases raw accept with
    ⟨index, cell, found, held, matched⟩ | ⟨missed, absent⟩
  · obtain ⟨result, taken, resultValid, population, cells⟩ := valid.removeAt_spec held
    refine Or.inl ⟨cell, result, matched, ?_, resultValid, population, cells⟩
    exact bind_of_ok found (bind_of_ok taken rfl)
  · refine Or.inr ⟨absent, ?_⟩
    simp only [remove, missed]
    rfl

/-- A place that holds a cell of a valid table. -/
structure Occupied.Holds (place : Occupied α) (cell : Cell α) : Prop where
  valid : Valid place.table
  held : place.table.slot place.index = some cell

/-- A place whose hash the table does not have with an accepted value, with room for it. -/
structure Vacant.Awaits (place : Vacant α) (raw : UInt64) (accept : α → Bool) : Prop where
  sound : Sound place.table
  hash : place.hash = storedHash raw
  vacant : ∃ distance, VacantAt place.table (storedHash raw) accept place.index distance
  room : place.table.population < place.table.trigger

theorem Vacant.Awaits.absent {place : Vacant α} {raw : UInt64} {accept : α → Bool}
    (awaits : place.Awaits raw accept) : place.table.Absent (storedHash raw) accept := by
  intro cell member
  obtain ⟨distance, vacant⟩ := awaits.vacant
  obtain ⟨position, held⟩ := mem_cells.mp member
  exact vacant.absent held

theorem Valid.entry_cases (valid : Valid table) (memory : Memory) (raw : UInt64)
    (accept : α → Bool) :
    (∃ place cell, table.entry memory raw accept = .ok (.occupied place) ∧
        Grown table place.table ∧ place.Holds cell ∧
          cell.matches (storedHash raw) accept = true) ∨
      (∃ place, table.entry memory raw accept = .ok (.vacant place) ∧
        Grown table place.table ∧ place.Awaits raw accept) ∨
      ∃ error, table.entry memory raw accept = .error error ∧ memory.Refusal error ∧
        ¬ memory.Provides table.population := by
  rcases valid.growIfFull_cases memory with ⟨ready, grew, is⟩ | ⟨error, failed, refusal, missing⟩
  · rcases is.sound.probe_cases (storedHash_odd raw) accept with
      ⟨index, distance, probed, found⟩ | ⟨index, distance, probed, vacant⟩
    · obtain ⟨cell, held, matched⟩ := found.cell
      refine Or.inl ⟨{ table := ready, index }, cell, ?_, is.toGrown, ⟨.allocated is.sound, held⟩,
        matched⟩
      exact bind_of_ok grew (bind_of_ok probed rfl)
    · refine Or.inr (Or.inl ⟨{ table := ready, hash := storedHash raw, index }, ?_, is.toGrown,
        is.sound, rfl, ⟨distance, vacant⟩, is.room⟩)
      exact bind_of_ok grew (bind_of_ok probed rfl)
  · refine Or.inr (Or.inr ⟨error, ?_, refusal, missing⟩)
    simp only [entry, failed]
    rfl

theorem VacantAt.insertAt_spec {hash : UInt64} {accept : α → Bool} {index distance : Nat}
    (vacant : VacantAt table hash accept index distance) (sound : Sound table)
    (room : table.population < table.trigger) (odd : hash % 2 = 1) (value : α) :
    ∃ result steps, table.insertAt index hash value = .ok result ∧
      Inserted table result index steps { hash, value } ∧ Sound result := by
  have bound := vacant.index_lt sound.shaped
  have displaced := vacant.displacement_eq sound.shaped sound.exists_free
  obtain ⟨result, steps, added, inserted⟩ :=
    Table.insertAt_spec hash value bound sound.exists_free room
  refine ⟨result, steps, added, inserted, inserted.sound sound bound room odd ?_ ?_⟩
  · rw [displaced]
    exact vacant.allowed sound.shaped
  · rw [displaced]
    exact vacant.gives

theorem Vacant.Awaits.insert_moves {place : Vacant α} {raw : UInt64} {accept : α → Bool}
    (awaits : place.Awaits raw accept) (value : α) :
    ∃ result steps, place.insert value = .ok { table := result, index := place.index } ∧
      Inserted place.table result place.index steps { hash := storedHash raw, value } ∧
        Sound result := by
  obtain ⟨distance, vacant⟩ := awaits.vacant
  obtain ⟨result, steps, added, inserted, sound⟩ :=
    vacant.insertAt_spec awaits.sound awaits.room (storedHash_odd raw) value
  refine ⟨result, steps, ?_, inserted, sound⟩
  simp only [Vacant.insert, awaits.hash, added]
  rfl

theorem Vacant.Awaits.index_lt {place : Vacant α} {raw : UInt64} {accept : α → Bool}
    (awaits : place.Awaits raw accept) : place.index < place.table.slotCount := by
  obtain ⟨distance, vacant⟩ := awaits.vacant
  exact vacant.index_lt awaits.sound.shaped

theorem Vacant.Awaits.insert_spec {place : Vacant α} {raw : UInt64} {accept : α → Bool}
    (awaits : place.Awaits raw accept) (value : α) :
    ∃ placed, place.insert value = .ok placed ∧
      placed.Holds { hash := storedHash raw, value } ∧
        placed.table.population = place.table.population + 1 ∧
          placed.table.cells.Perm ({ hash := storedHash raw, value } :: place.table.cells) := by
  obtain ⟨result, steps, done, inserted, sound⟩ := awaits.insert_moves value
  exact ⟨_, done, ⟨.allocated sound, inserted.placed awaits.index_lt⟩, inserted.population,
    inserted.cells⟩

theorem Occupied.Holds.get_eq {place : Occupied α} {cell : Cell α} (holds : place.Holds cell) :
    place.get = .ok cell.value := by
  simp only [Occupied.get, holds.held]

theorem Occupied.Holds.modify_spec {place : Occupied α} {cell : Cell α} (holds : place.Holds cell)
    (change : α → α) :
    ∃ changed, place.modify change = .ok changed ∧
      changed.Holds { cell with value := change cell.value } ∧
        changed.table.population = place.table.population ∧
          Exchanged place.table changed.table cell { cell with value := change cell.value } := by
  refine ⟨{ place with table := place.table.modifyAt place.index change }, ?_,
    ⟨holds.valid.modifyAt _ _, slot_modifyAt_self change holds.held⟩, rfl,
    exchanged_modifyAt change holds.held⟩
  simp only [Occupied.modify, holds.get_eq]
  rfl

theorem Occupied.Holds.replace_eq {place : Occupied α} {cell : Cell α} (holds : place.Holds cell)
    (value : α) :
    place.replace value =
      (place.modify fun _ => value).map fun changed => (cell.value, changed) := by
  simp only [Occupied.replace, Occupied.modify, holds.get_eq]
  rfl

theorem Occupied.Holds.remove_spec {place : Occupied α} {cell : Cell α} (holds : place.Holds cell) :
    ∃ result, place.remove = .ok (cell.value, result) ∧ Valid result ∧
      result.population + 1 = place.table.population ∧
        (cell :: result.cells).Perm place.table.cells :=
  holds.valid.removeAt_spec holds.held

end RobinHood.Table
