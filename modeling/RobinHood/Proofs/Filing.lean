import RobinHood.Proofs.Emptying
import RobinHood.Proofs.Outcomes

/-!
Tables that file items under keys: a map files pairs under their first components, a set files
values under themselves. Of the hash function only this is used: keys that are equal have equal
hashes.
-/

namespace RobinHood

variable {α K : Type}

namespace Table

/-- A table that holds the listed items, each with the hash of the key it is filed under. -/
structure Files [BEq K] (table : Table α) (key : α → K) (hash : K → UInt64) (items : List α) :
    Prop where
  respects : ∀ {first second : K}, (first == second) = true → hash first = hash second
  valid : table.Valid
  keyed : ∀ cell ∈ table.cells, cell.hash = storedHash (hash (key cell.value))
  stored : (table.cells.map Cell.value).Perm items

namespace Files

variable [BEq K] {table result : Table α} {key : α → K} {hash : K → UInt64} {items : List α}
  {cell : Cell α} {asked : K}

theorem of_empty (respects : ∀ {first second : K}, (first == second) = true →
    hash first = hash second) : Files (empty : Table α) key hash [] :=
  ⟨respects, valid_empty, fun _ member => absurd member List.not_mem_nil, List.Perm.refl []⟩

theorem of_perm (files : table.Files key hash items) {others : List α} (same : items.Perm others) :
    table.Files key hash others :=
  { files with stored := files.stored.trans same }

theorem population_eq (files : table.Files key hash items) : table.population = items.length := by
  rw [← files.stored.length_eq, List.length_map, files.valid.counted]

theorem none_filed (files : table.Files key hash items)
    (absent : table.Absent (storedHash (hash asked)) fun item => key item == asked) :
    ∀ item ∈ items, (key item == asked) = false := by
  intro item member
  obtain ⟨cell, held, rfl⟩ := List.mem_map.mp (files.stored.symm.subset member)
  by_contra different
  -- An item under an equal key would have the same hash, and would match.
  have same : (key cell.value == asked) = true := by simpa using different
  have hash : cell.hash = storedHash (hash asked) := by
    rw [files.keyed cell held, files.respects same]
  have rejected := absent cell held
  rw [Cell.matches_iff.mpr ⟨hash, same⟩] at rejected
  simp at rejected

theorem refilled (files : table.Files key hash items) (valid : result.Valid)
    (cells : result.cells.Perm table.cells) : result.Files key hash items :=
  ⟨files.respects, valid, fun cell member => files.keyed cell (cells.subset member),
    (cells.map Cell.value).trans files.stored⟩

theorem emptied (files : table.Files key hash items) (valid : result.Valid)
    (cells : result.cells = []) : result.Files key hash [] := by
  refine ⟨files.respects, valid, ?_, ?_⟩
  · intro cell member
    rw [cells] at member
    simp at member
  · rw [cells]
    exact List.Perm.refl []

theorem exchanged (files : table.Files key hash items) {item : α} (valid : result.Valid)
    (exchanged : Exchanged table result cell { cell with value := item })
    (same : hash (key cell.value) = hash (key item)) :
    ∃ rest, items.Perm (cell.value :: rest) ∧ result.Files key hash (item :: rest) := by
  obtain ⟨rest, before, after⟩ := exchanged
  refine ⟨rest.map Cell.value, files.stored.symm.trans (before.map Cell.value), files.respects,
    valid, ?_, after.map Cell.value⟩
  intro other member
  rcases List.mem_cons.mp (after.subset member) with new | old
  · -- The stored hash stays with the place.
    rw [new, ← same]
    exact files.keyed cell (before.symm.subset List.mem_cons_self)
  · exact files.keyed other (before.symm.subset (List.mem_cons_of_mem _ old))

theorem removed (files : table.Files key hash items) (valid : result.Valid)
    (cells : (cell :: result.cells).Perm table.cells) :
    ∃ rest, items.Perm (cell.value :: rest) ∧ result.Files key hash rest := by
  refine ⟨_, files.stored.symm.trans (cells.symm.map Cell.value), files.respects, valid, ?_,
    List.Perm.refl _⟩
  intro other member
  exact files.keyed other (cells.subset (List.mem_cons_of_mem _ member))

theorem added (files : table.Files key hash items) (item : α) (valid : result.Valid)
    (cells : result.cells.Perm
      ({ hash := storedHash (hash (key item)), value := item } :: table.cells)) :
    result.Files key hash (item :: items) := by
  refine ⟨files.respects, valid, ?_, (cells.map Cell.value).trans (files.stored.cons _)⟩
  intro other member
  rcases List.mem_cons.mp (cells.subset member) with new | old
  · rw [new]
  · exact files.keyed other old

theorem reserve_allows (files : table.Files key hash items) (memory : Memory)
    (additional : Nat) :
    memory.Allows (items.length + additional) (table.reserve memory additional)
      fun result => result.Files key hash items := by
  rw [← files.population_eq]
  rcases files.valid.reserve_cases memory additional with
    ⟨reserved, done, valid, _, cells⟩ | refused
  · exact Or.inl ⟨reserved, done, files.refilled valid cells⟩
  · exact Or.inr refused

theorem find_cases (files : table.Files key hash items) (asked : K) :
    (∃ item ∈ items, (key item == asked) = true ∧
        table.find (hash asked) (fun item => key item == asked) = .ok (some item)) ∨
      (∀ item ∈ items, (key item == asked) = false) ∧
        table.find (hash asked) (fun item => key item == asked) = .ok none := by
  rcases files.valid.find_cases (hash asked) (fun item => key item == asked) with
    ⟨cell, member, matched, found⟩ | ⟨absent, missed⟩
  · exact Or.inl ⟨cell.value, files.stored.subset (List.mem_map_of_mem member),
      (Cell.matches_iff.mp matched).2, found⟩
  · exact Or.inr ⟨files.none_filed absent, missed⟩

theorem remove_cases (files : table.Files key hash items) (asked : K) :
    (∃ item rest result, items.Perm (item :: rest) ∧ (key item == asked) = true ∧
        table.remove (hash asked) (fun item => key item == asked) = .ok (some item, result) ∧
          result.Files key hash rest) ∨
      (∀ item ∈ items, (key item == asked) = false) ∧
        table.remove (hash asked) (fun item => key item == asked) = .ok (none, table) := by
  rcases files.valid.remove_cases (hash asked) (fun item => key item == asked) with
    ⟨cell, result, matched, taken, valid, _, cells⟩ | ⟨absent, missed⟩
  · obtain ⟨rest, split, after⟩ := files.removed valid cells
    exact Or.inl ⟨cell.value, rest, result, split, (Cell.matches_iff.mp matched).2, taken, after⟩
  · exact Or.inr ⟨files.none_filed absent, missed⟩

end Files

end Table

end RobinHood
