import RobinHood.Proofs.Runs

/-!
A table as a bag of cells. Every operation is described by what it answers and what it does to the
bag; where the cells lie does not matter.
-/

namespace RobinHood.Table

variable {α : Type} {table result : Table α}

def bag (table : Table α) : Multiset (Cell α) :=
  table.cells

theorem bag_eq_iff : result.bag = table.bag ↔ result.cells.Perm table.cells :=
  Multiset.coe_eq_coe

theorem bag_eq_cons_iff {cell : Cell α} :
    table.bag = cell ::ₘ result.bag ↔ table.cells.Perm (cell :: result.cells) := by
  rw [bag, bag, Multiset.cons_coe, Multiset.coe_eq_coe]

def ValueChanged (before after : Multiset (Cell α)) (cell : Cell α) (value : α) : Prop :=
  ∃ rest, before = cell ::ₘ rest ∧ after = { cell with value } ::ₘ rest

theorem Exchanged.valueChanged {cell : Cell α} {value : α}
    (exchanged : Exchanged table result cell { cell with value }) :
    ValueChanged table.bag result.bag cell value := by
  obtain ⟨rest, before, after⟩ := exchanged
  refine ⟨rest, ?_, ?_⟩
  · rw [bag, Multiset.cons_coe, Multiset.coe_eq_coe]
    exact before
  · rw [bag, Multiset.cons_coe, Multiset.coe_eq_coe]
    exact after

structure Occupied.InBag (place : Occupied α) (bag : Multiset (Cell α)) (cell : Cell α) : Prop where
  kept : place.table.bag = bag
  member : cell ∈ bag
  get : place.get = .ok cell.value
  modify (change : α → α) : ∃ changed, place.modify change = .ok changed ∧
    (Entry.occupied place).modifyIfOccupied change = .ok (.occupied changed) ∧
      ValueChanged bag changed.table.bag cell (change cell.value)
  replace (value : α) : ∃ changed, place.replace value = .ok (cell.value, changed) ∧
    ValueChanged bag changed.table.bag cell value
  remove : ∃ result, place.remove = .ok (cell.value, result) ∧ bag = cell ::ₘ result.bag

structure Vacant.InBag (place : Vacant α) (bag : Multiset (Cell α)) (hash : UInt64) : Prop where
  kept : place.table.bag = bag
  insert (value : α) : ∃ placed, place.insert value = .ok placed ∧ placed.get = .ok value ∧
    placed.table.bag = { hash, value } ::ₘ bag
  modify (change : α → α) :
    (Entry.vacant place).modifyIfOccupied change = .ok (.vacant place)

/-- What every operation answers and does to the bag, for all that a caller can choose. -/
structure ActsAsBag (table : Table α) : Prop where
  population : table.population = table.bag.card
  find (raw : UInt64) (accept : α → Bool) :
    (table.find raw accept = .ok none ↔ table.Absent (storedHash raw) accept) ∧
      (¬ table.Absent (storedHash raw) accept → ∃ cell ∈ table.bag,
        cell.matches (storedHash raw) accept = true ∧
          table.find raw accept = .ok (some cell.value))
  findModify (raw : UInt64) (accept : α → Bool) (change : α → α) :
    (table.findModify raw accept change = .ok (none, table) ↔
        table.Absent (storedHash raw) accept) ∧
      (¬ table.Absent (storedHash raw) accept → ∃ cell result,
        cell.matches (storedHash raw) accept = true ∧
          table.findModify raw accept change = .ok (some (change cell.value), result) ∧
            ValueChanged table.bag result.bag cell (change cell.value))
  remove (raw : UInt64) (accept : α → Bool) :
    (table.remove raw accept = .ok (none, table) ↔ table.Absent (storedHash raw) accept) ∧
      (¬ table.Absent (storedHash raw) accept → ∃ cell result,
        cell.matches (storedHash raw) accept = true ∧
          table.remove raw accept = .ok (some cell.value, result) ∧
            table.bag = cell ::ₘ result.bag)
  entry (memory : Memory) (raw : UInt64) (accept : α → Bool) :
    (∃ place cell, table.entry memory raw accept = .ok (.occupied place) ∧
        cell.matches (storedHash raw) accept = true ∧ place.InBag table.bag cell) ∨
      (∃ place, table.entry memory raw accept = .ok (.vacant place) ∧
        table.Absent (storedHash raw) accept ∧ place.InBag table.bag (storedHash raw)) ∨
      ∃ error, table.entry memory raw accept = .error error ∧ memory.Refusal error ∧
        ¬ memory.Provides table.population
  reserve (memory : Memory) (additional : Nat) :
    (∃ reserved, table.reserve memory additional = .ok reserved ∧ reserved.bag = table.bag) ∨
      ∃ error, table.reserve memory additional = .error error ∧ memory.Refusal error ∧
        ¬ memory.Provides (table.population + additional)
  clear : table.clear.bag = 0

theorem not_absent_of_mem {hash : UInt64} {accept : α → Bool} {cell : Cell α}
    (member : cell ∈ table.cells) (matched : cell.matches hash accept = true) :
    ¬ table.Absent hash accept := by
  intro absent
  simp [absent cell member] at matched

theorem Occupied.Holds.inBag {place : Occupied α} {cell : Cell α} (holds : place.Holds cell)
    (kept : place.table.bag = table.bag) : place.InBag table.bag cell := by
  have member : cell ∈ place.table.cells := mem_cells.mpr ⟨place.index, holds.held⟩
  refine ⟨kept, ?_, holds.get_eq, ?_, ?_, ?_⟩
  · rw [← kept]
    exact member
  · intro change
    obtain ⟨changed, done, _, _, exchanged⟩ := holds.modify_spec change
    refine ⟨changed, done, ?_, ?_⟩
    · rw [Entry.modifyIfOccupied, done]
      rfl
    · rw [← kept]
      exact exchanged.valueChanged
  · intro value
    obtain ⟨changed, done, _, _, exchanged⟩ := holds.modify_spec fun _ => value
    refine ⟨changed, ?_, ?_⟩
    · rw [holds.replace_eq, done]
      rfl
    · rw [← kept]
      exact exchanged.valueChanged
  · obtain ⟨result, taken, _, _, cells⟩ := holds.remove_spec
    refine ⟨result, taken, ?_⟩
    rw [← kept, bag_eq_cons_iff]
    exact cells.symm

theorem Vacant.Awaits.inBag {place : Vacant α} {raw : UInt64} {accept : α → Bool}
    (awaits : place.Awaits raw accept) (kept : place.table.bag = table.bag) :
    place.InBag table.bag (storedHash raw) := by
  refine ⟨kept, ?_, fun _ => rfl⟩
  intro value
  obtain ⟨placed, inserted, holds, _, cells⟩ := awaits.insert_spec value
  refine ⟨placed, inserted, holds.get_eq, ?_⟩
  rw [← kept, bag_eq_cons_iff]
  exact cells

theorem Valid.actsAsBag (valid : Valid table) : ActsAsBag table := by
  constructor
  case population =>
    exact valid.counted.symm
  case find =>
    intro raw accept
    rcases valid.find_cases raw accept with ⟨cell, member, matched, found⟩ | ⟨absent, missed⟩
    · have present := not_absent_of_mem member matched
      refine ⟨?_, fun _ => ⟨cell, member, matched, found⟩⟩
      simp [found, present]
    · exact ⟨⟨fun _ => absent, fun _ => missed⟩, fun present => absurd absent present⟩
  case findModify =>
    intro raw accept change
    rcases valid.findModify_cases raw accept change with
      ⟨cell, result, matched, found, _, _, exchanged⟩ | ⟨absent, missed⟩
    · have present := not_absent_of_mem exchanged.mem matched
      refine ⟨?_, fun _ => ⟨cell, result, matched, found, exchanged.valueChanged⟩⟩
      simp [found, present]
    · exact ⟨⟨fun _ => absent, fun _ => missed⟩, fun present => absurd absent present⟩
  case remove =>
    intro raw accept
    rcases valid.remove_cases raw accept with
      ⟨cell, result, matched, taken, _, _, cells⟩ | ⟨absent, missed⟩
    · have present := not_absent_of_mem (cells.subset List.mem_cons_self) matched
      refine ⟨?_, fun _ => ⟨cell, result, matched, taken, bag_eq_cons_iff.mpr cells.symm⟩⟩
      simp [taken, present]
    · exact ⟨⟨fun _ => absent, fun _ => missed⟩, fun present => absurd absent present⟩
  case entry =>
    intro memory raw accept
    rcases valid.entry_cases memory raw accept with
      ⟨place, cell, found, grown, holds, matched⟩ | ⟨place, missed, grown, awaits⟩ | refused
    · exact Or.inl ⟨place, cell, found, matched, holds.inBag (bag_eq_iff.mpr grown.cells)⟩
    · refine Or.inr (Or.inl ⟨place, missed, ?_, awaits.inBag (bag_eq_iff.mpr grown.cells)⟩)
      intro cell member
      exact awaits.absent cell (grown.cells.symm.subset member)
    · exact Or.inr (Or.inr refused)
  case reserve =>
    intro memory additional
    rcases valid.reserve_cases memory additional with ⟨reserved, done, _, _, cells⟩ | refused
    · exact Or.inl ⟨reserved, done, bag_eq_iff.mpr cells⟩
    · exact Or.inr refused
  case clear =>
    rw [bag, valid.clear.2]
    rfl

/-- No table that a caller can hold loses or doubles a value. -/
theorem reachable_actsAsBag (reachable : Reachable table) : ActsAsBag table :=
  reachable.valid.actsAsBag

def addShared (value : Nat) : Action Nat :=
  .act 0 (.entry { slotBytes := 16, grants := fun _ => true } 1 (fun _ => false)
    { change := id, removes := false, filling := some value })

theorem actsAsBag_shared :
    ∃ table : Table Nat, runAll [.new, addShared 10, addShared 20] [] = .ok [table] ∧
      table.population = 2 ∧ ActsAsBag table :=
  ⟨_, rfl, rfl, reachable_actsAsBag
    ⟨[.new, addShared 10, addShared 20], _, rfl, List.mem_singleton_self _⟩⟩

end RobinHood.Table
