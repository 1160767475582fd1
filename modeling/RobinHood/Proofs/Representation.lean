import RobinHood.HashMap.Entry
import RobinHood.Proofs.Filing
import RobinHood.Proofs.FiniteMap

/-!
How a hash map stands for a finite map. Of the hash function only this is used: keys that are equal
have equal hashes. Every call either gives what the finite map gives, or is refused memory.
-/

namespace RobinHood

namespace HashMap

variable {K V σ : Type}

variable [BEq K] {map : HashMap K V} {finite : FiniteMap K V} {key : K}

structure Represents (map : HashMap K V) (finite : FiniteMap K V) : Prop where
  respects : ∀ {first second : K}, (first == second) = true → map.hash first = map.hash second
  valid : map.table.Valid
  keyed : ∀ cell ∈ map.table.cells, cell.hash = storedHash (map.hash cell.value.1)
  entries : (map.table.cells.map Cell.value).Perm finite.entries

theorem Represents.files (represents : map.Represents finite) :
    map.table.Files Prod.fst map.hash finite.entries :=
  ⟨represents.respects, represents.valid, represents.keyed, represents.entries⟩

theorem represents_of_files (files : map.table.Files Prod.fst map.hash finite.entries) :
    map.Represents finite :=
  ⟨files.respects, files.valid, files.keyed, files.stored⟩

theorem withHasher_represents {hash : K → UInt64}
    (respects : ∀ {first second : K}, (first == second) = true → hash first = hash second) :
    (withHasher hash : HashMap K V).Represents FiniteMap.empty :=
  represents_of_files (.of_empty respects)

theorem Represents.size_eq (represents : map.Represents finite) : map.size = finite.size :=
  represents.files.population_eq

theorem Represents.find?_of_absent (represents : map.Represents finite)
    (absent : map.table.Absent (storedHash (map.hash key)) fun pair => pair.1 == key) :
    finite.find? key = none :=
  FiniteMap.find?_eq_none_iff.mpr (represents.files.none_filed absent)

theorem Represents.refilled (represents : map.Represents finite) {result : Table (K × V)}
    (valid : result.Valid) (cells : result.cells.Perm map.table.cells) :
    ({ map with table := result } : HashMap K V).Represents finite :=
  represents_of_files (represents.files.refilled valid cells)

theorem Represents.emptied (represents : map.Represents finite) {result : Table (K × V)}
    (valid : result.Valid) (cells : result.cells = []) :
    ({ map with table := result } : HashMap K V).Represents FiniteMap.empty :=
  represents_of_files (represents.files.emptied valid cells)

structure Occupied.Shows (place : Occupied K V) (finite : FiniteMap K V) (key : K)
    (pair : K × V) : Prop where
  represents : place.toMap.Represents finite
  held : ∃ cell, place.place.Holds cell ∧ cell.value = pair
  same : (pair.1 == key) = true

structure Vacant.Awaits (place : Vacant K V) (finite : FiniteMap K V) : Prop where
  represents : (Entry.vacant place).toMap.Represents finite
  awaits : place.place.Awaits (place.hash place.key) fun pair => pair.1 == place.key

theorem Occupied.Shows.key_eq {place : Occupied K V} {pair : K × V}
    (shown : place.Shows finite key pair) : place.key = .ok pair.1 := by
  obtain ⟨cell, holds, rfl⟩ := shown.held
  rw [Occupied.key, holds.get_eq]
  rfl

theorem Occupied.Shows.get_eq {place : Occupied K V} {pair : K × V}
    (shown : place.Shows finite key pair) : place.get = .ok pair.2 := by
  obtain ⟨cell, holds, rfl⟩ := shown.held
  rw [Occupied.get, holds.get_eq]
  rfl

theorem Vacant.Awaits.find?_eq {place : Vacant K V} (awaits : place.Awaits finite) :
    finite.find? place.key = none :=
  awaits.represents.find?_of_absent awaits.awaits.absent

/-- An entry as what a finite map says of a key. -/
inductive Entry.Shows (finite : FiniteMap K V) (key : K) : Entry K V → Prop
  | occupied {place : Occupied K V} {pair : K × V} (shown : place.Shows finite key pair) :
      Shows finite key (.occupied place)
  | vacant {place : Vacant K V} (asked : place.key = key) (awaits : place.Awaits finite) :
      Shows finite key (.vacant place)

theorem Represents.entry_allows (represents : map.Represents finite) (memory : Memory) (key : K) :
    memory.Allows finite.size (map.entry memory key) fun entry => entry.Shows finite key := by
  rw [← represents.size_eq]
  rcases represents.valid.entry_cases memory (map.hash key) (fun pair => pair.1 == key) with
    ⟨place, cell, found, grown, holds, matched⟩ | ⟨place, missed, grown, awaits⟩ |
      ⟨error, failed, refused⟩
  · refine Or.inl ⟨.occupied { place, hash := map.hash }, ?_, .occupied
      ⟨represents.refilled holds.valid grown.cells, ⟨cell, holds, rfl⟩,
        (Cell.matches_iff.mp matched).2⟩⟩
    rw [entry, found]
    rfl
  · refine Or.inl ⟨.vacant { place, key, hash := map.hash }, ?_, .vacant rfl
      ⟨represents.refilled (.allocated awaits.sound) grown.cells, awaits⟩⟩
    rw [entry, missed]
    rfl
  · refine Or.inr ⟨error, ?_, refused⟩
    rw [entry, failed]
    rfl

section Equivalence

variable [EquivBEq K]

theorem Represents.find?_of_cell (represents : map.Represents finite) {cell : Cell (K × V)}
    (held : cell ∈ map.table.cells) (same : (cell.value.1 == key) = true) :
    finite.find? key = some cell.value :=
  FiniteMap.find?_eq_some_iff.mpr
    ⟨represents.entries.subset (List.mem_map_of_mem held), same⟩

theorem Represents.changed (represents : map.Represents finite) {result : Table (K × V)}
    {cell : Cell (K × V)} (change : V → V) (valid : result.Valid)
    (exchanged : Table.Exchanged map.table result cell
      { cell with value := changeValue change cell.value })
    (same : (cell.value.1 == key) = true) :
    ({ map with table := result } : HashMap K V).Represents (finite.changeAt key change) := by
  obtain ⟨rest, split, files⟩ := represents.files.exchanged valid exchanged rfl
  exact represents_of_files (files.of_perm (FiniteMap.changeAt_perm change split same).symm)

theorem Represents.removed (represents : map.Represents finite) {result : Table (K × V)}
    {cell : Cell (K × V)} (valid : result.Valid)
    (cells : (cell :: result.cells).Perm map.table.cells)
    (same : (cell.value.1 == key) = true) :
    ({ map with table := result } : HashMap K V).Represents (finite.without key) := by
  obtain ⟨rest, split, files⟩ := represents.files.removed valid cells
  exact represents_of_files (files.of_perm (FiniteMap.without_perm split same).symm)

theorem Represents.added (represents : map.Represents finite) {result : Table (K × V)} {value : V}
    (valid : result.Valid)
    (cells : result.cells.Perm
      ({ hash := storedHash (map.hash key), value := (key, value) } :: map.table.cells))
    (absent : finite.find? key = none) :
    ({ map with table := result } : HashMap K V).Represents (finite.insertIfNew key value) := by
  refine represents_of_files ((represents.files.added (key, value) valid cells).of_perm ?_)
  rw [FiniteMap.entries_insertIfNew absent]

theorem Occupied.Shows.find?_eq {place : Occupied K V} {pair : K × V}
    (shown : place.Shows finite key pair) : finite.find? key = some pair := by
  obtain ⟨cell, holds, rfl⟩ := shown.held
  exact shown.represents.find?_of_cell (Table.mem_cells.mpr ⟨_, holds.held⟩) shown.same

theorem Occupied.Shows.modify_spec {place : Occupied K V} {pair : K × V}
    (shown : place.Shows finite key pair) (change : V → V) :
    ∃ changed, place.modify change = .ok changed ∧
      changed.Shows (finite.changeAt key change) key (pair.1, change pair.2) := by
  obtain ⟨cell, holds, rfl⟩ := shown.held
  obtain ⟨changed, done, still, _, exchanged⟩ := holds.modify_spec (changeValue change)
  refine ⟨{ place with place := changed }, ?_, ?_, ⟨_, still, rfl⟩, shown.same⟩
  · rw [Occupied.modify, done]
    rfl
  · exact shown.represents.changed change still.valid exchanged shown.same

theorem Occupied.Shows.replace_spec {place : Occupied K V} {pair : K × V}
    (shown : place.Shows finite key pair) (value : V) :
    ∃ changed, place.replace value = .ok (pair.2, changed) ∧
      changed.Shows (finite.changeAt key fun _ => value) key (pair.1, value) := by
  obtain ⟨changed, done, still⟩ := shown.modify_spec fun _ => value
  refine ⟨changed, ?_, still⟩
  exact bind_of_ok shown.get_eq (bind_of_ok done rfl)

theorem Occupied.Shows.removeEntry_spec {place : Occupied K V} {pair : K × V}
    (shown : place.Shows finite key pair) :
    ∃ result, place.removeEntry = .ok (pair, result) ∧
      result.Represents (finite.without key) := by
  obtain ⟨cell, holds, rfl⟩ := shown.held
  obtain ⟨result, taken, valid, _, cells⟩ := holds.remove_spec
  refine ⟨{ table := result, hash := place.hash }, ?_, ?_⟩
  · rw [Occupied.removeEntry, taken]
    rfl
  · exact shown.represents.removed valid cells shown.same

theorem Vacant.Awaits.insert_spec {place : Vacant K V} (awaits : place.Awaits finite) (value : V) :
    ∃ placed, place.insert value = .ok placed ∧
      placed.Shows (finite.insertIfNew place.key value) place.key (place.key, value) := by
  obtain ⟨placed, done, holds, _, cells⟩ := awaits.awaits.insert_spec (place.key, value)
  refine ⟨{ place := placed, hash := place.hash }, ?_, ?_, ⟨_, holds, rfl⟩, BEq.rfl⟩
  · rw [Vacant.insert, done]
    rfl
  · exact awaits.represents.added holds.valid cells awaits.find?_eq

theorem Occupied.Shows.get?_eq {place : Occupied K V} {pair : K × V}
    (shown : place.Shows finite key pair) : finite.get? key = some pair.2 := by
  rw [FiniteMap.get?, shown.find?_eq]
  rfl

theorem Entry.Shows.key_eq {entry : Entry K V} (shown : entry.Shows finite key) :
    entry.key = .ok (((finite.find? key).map Prod.fst).getD key) := by
  cases shown with
  | occupied shown =>
      rw [shown.find?_eq]
      exact shown.key_eq
  | vacant asked awaits =>
      subst asked
      rw [awaits.find?_eq]
      rfl

theorem Entry.Shows.insertIfVacant_spec {entry : Entry K V} (shown : entry.Shows finite key)
    (value : V) :
    ∃ place pair, entry.insertIfVacant value = .ok place ∧
      place.Shows (finite.insertIfNew key value) key pair := by
  cases shown with
  | occupied shown =>
      rw [FiniteMap.insertIfNew_of_present shown.find?_eq]
      exact ⟨_, _, rfl, shown⟩
  | vacant asked awaits =>
      subst asked
      obtain ⟨placed, done, placedShown⟩ := awaits.insert_spec value
      exact ⟨placed, _, done, placedShown⟩

theorem Entry.Shows.insertIfVacantWithKey_spec {entry : Entry K V}
    (shown : entry.Shows finite key) (make : K → σ → V × σ) (state : σ) :
    ∃ place pair, entry.insertIfVacantWithKey make state =
        .ok (place, (finite.insertIfNewWith key (make key) state).2) ∧
      place.Shows (finite.insertIfNewWith key (make key) state).1 key pair := by
  cases shown with
  | occupied shown =>
      simp only [FiniteMap.insertIfNewWith, shown.find?_eq]
      exact ⟨_, _, rfl, shown⟩
  | @vacant place asked awaits =>
      subst asked
      obtain ⟨placed, done, placedShown⟩ := awaits.insert_spec (make place.key state).1
      simp only [FiniteMap.insertIfNewWith, awaits.find?_eq]
      refine ⟨placed, _, ?_, placedShown⟩
      simp only [Entry.insertIfVacantWithKey, done]
      rfl

theorem Entry.Shows.modifyIfOccupied_spec {entry : Entry K V} (shown : entry.Shows finite key)
    (change : V → V) :
    ∃ changed, entry.modifyIfOccupied change = .ok changed ∧
      changed.Shows (finite.changeAt key change) key := by
  cases shown with
  | occupied shown =>
      obtain ⟨changed, done, changedShown⟩ := shown.modify_spec change
      refine ⟨.occupied changed, ?_, .occupied changedShown⟩
      rw [Entry.modifyIfOccupied, done]
      rfl
  | vacant asked awaits =>
      rw [FiniteMap.changeAt_of_absent change (asked ▸ awaits.find?_eq)]
      exact ⟨_, rfl, .vacant asked awaits⟩

end Equivalence

end HashMap

end RobinHood
