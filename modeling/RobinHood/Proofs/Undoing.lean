import RobinHood.Proofs.Guarded.Shifting
import RobinHood.Proofs.Keyed
import RobinHood.Proofs.Layout
import RobinHood.Proofs.Offers
import RobinHood.Proofs.SlotCounts

/-!
Adding and removing undo each other. A value that is added and taken out again leaves every slot as
it was, although the two calls stop moving values for different reasons. A key that is erased and
given its value again may come to lie elsewhere among the keys of its home, and nothing else shows.
-/

namespace RobinHood

namespace Table

variable {α : Type} {table result last : Table α} {index : Nat}

theorem eq_of_slots (same : SameShape table result)
    (population : result.population = table.population) (slots : result.slots = table.slots) :
    result = table := by
  obtain ⟨_, mask, shift, trigger⟩ := same
  cases table
  cases result
  simp only at mask shift trigger population slots
  rw [mask, shift, trigger, population, slots]

theorem Inserted.slot_cases {steps position : Nat} {cell resident : Cell α}
    (inserted : Inserted table result index steps cell) (bound : index < table.slotCount)
    (held : result.slot position = some resident) :
    position = index ∨ ∃ before, table.slot before = some resident := by
  have inside : position < table.slotCount := inserted.shape.slotCount ▸ lt_of_slot held
  obtain ⟨offset, offsetBound, rfl⟩ := exists_after bound inside
  rw [inserted.slots offset offsetBound] at held
  by_cases first : offset = 0
  · subst offset
    exact Or.inl (after_zero bound)
  · rw [if_neg first] at held
    split at held <;> exact Or.inr ⟨_, held⟩

theorem Inserted.steps_of_removed {steps later : Nat} {cell : Cell α}
    (inserted : Inserted table result index steps cell) (ordered : Ordered table)
    (bound : index < table.slotCount) (removed : Removed result last index later cell) :
    later = steps + 1 := by
  have count := inserted.shape.slotCount
  have round := removed.steps_lt
  have positive := removed.steps_pos
  have ends := removed.ends
  have reach (offset : Nat) (offsetBound : offset < table.slotCount) :=
    inserted.reach ordered bound offset offsetBound
  rw [inserted.shape.after, reach later (by omega), if_neg (by omega)] at ends
  -- The run that moves back is the one that had moved on: what follows it is free or at home, as
  -- it came behind a free slot.
  have beyond : steps < later := by
    by_contra within
    have taken := inserted.run (later - 1) (by omega)
    rw [Ne, ← reach_eq_zero_iff] at taken
    rw [if_pos (by omega)] at ends
    omega
  by_contra longer
  have far := removed.run (steps + 1) (by omega) (by omega)
  rw [inserted.shape.after, reach (steps + 1) (by omega), if_neg (by omega),
    if_neg (by omega)] at far
  have gradual := ordered.gradual (after_lt ordered.shaped.allocated index steps)
  rw [next_after, reach_of_free inserted.hole] at gradual
  omega

theorem Inserted.undone {steps later : Nat} {cell : Cell α}
    (inserted : Inserted table result index steps cell) (ordered : Ordered table)
    (bound : index < table.slotCount) (removed : Removed result last index later cell) :
    last = table := by
  obtain rfl := inserted.steps_of_removed ordered bound removed
  have same := inserted.shape.trans removed.shape
  have round := inserted.steps_lt
  have population : last.population = table.population := by
    have raised := inserted.population
    have lowered := removed.population
    omega
  refine eq_of_slots same population
    (slots_eq_of_after table.slots bound same.slotCount rfl ?_)
  intro offset offsetBound
  have back := removed.slots offset (by rwa [inserted.shape.slotCount])
  simp only [inserted.shape.after] at back
  refine back.trans ?_
  -- The slots of the run, the slot that was free, and the slots behind it.
  by_cases moved : offset + 1 < steps + 1
  · rw [if_pos moved, inserted.slots (offset + 1) (by omega), if_neg (by omega),
      if_pos (by omega), Nat.add_sub_cancel]
    rfl
  · rw [if_neg moved]
    by_cases gap : offset = steps
    · subst offset
      rw [if_pos rfl]
      exact inserted.hole.symm
    · rw [if_neg (by omega), inserted.slots offset offsetBound, if_neg (by omega),
        if_neg (by omega)]
      rfl

theorem Vacant.Awaits.remove_inserted {place : Vacant α} {raw : UInt64} {accept : α → Bool}
    {value : α} (awaits : place.Awaits raw accept) (accepted : accept value = true) :
    ∃ placed, place.insert value = .ok placed ∧
      placed.table.remove raw accept = .ok (some value, place.table) := by
  have ordered := awaits.sound.toOrdered
  have bound := awaits.index_lt
  obtain ⟨result, steps, done, inserted, sound⟩ := awaits.insert_moves value
  have here := inserted.placed bound
  have matched : Cell.matches (storedHash raw) accept ⟨storedHash raw, value⟩ = true :=
    Cell.matches_iff.mpr ⟨rfl, accepted⟩
  refine ⟨_, done, ?_⟩
  rcases (Valid.allocated sound).findIndex_cases raw accept with
    ⟨position, cell, found, held, agrees⟩ | ⟨_, absent⟩
  · obtain rfl : position = place.index := by
      rcases inserted.slot_cases bound held with same | ⟨before, present⟩
      · exact same
      · have rejected := awaits.absent cell (mem_cells.mpr ⟨before, present⟩)
        simp [agrees] at rejected
    obtain ⟨last, later, taken, removed⟩ := removeAt_spec here sound.exists_free
      ((Valid.allocated sound).population_ne_zero here)
    obtain rfl := inserted.undone ordered bound removed
    exact bind_of_ok found (bind_of_ok taken rfl)
  · have rejected := absent _ (mem_cells.mpr ⟨_, here⟩)
    simp [matched] at rejected

end Table

namespace FiniteMap

variable {K V : Type} [BEq K] {map : FiniteMap K V} {key : K}

theorem find?_without_self (map : FiniteMap K V) (key : K) :
    (map.without key).find? key = none := by
  rw [find?_eq_none_iff]
  intro pair member
  simpa using (List.mem_filter.mp member).2

variable [EquivBEq K]

theorem without_split {pair : K × V} (present : map.find? key = some pair) :
    map.entries.Perm (pair :: (map.without key).entries) := by
  obtain ⟨member, same⟩ := find?_eq_some_iff.mp present
  obtain ⟨front, back, split⟩ := List.append_of_mem member
  have first : map.entries.Perm (pair :: (front ++ back)) := by
    rw [split]
    exact List.perm_middle
  exact first.trans ((without_perm first same).symm.cons _)

theorem get?_congr {other : FiniteMap K V} {stored : K} {value : V} {rest : List (K × V)}
    (pairs : map.entries.Perm ((stored, value) :: rest))
    (otherPairs : other.entries.Perm ((key, value) :: rest)) (same : (stored == key) = true)
    (asked : K) : other.get? asked = map.get? asked := by
  have carried {one two : FiniteMap K V} {first second : K}
      (onePairs : one.entries.Perm ((first, value) :: rest))
      (twoPairs : two.entries.Perm ((second, value) :: rest)) (alike : (second == first) = true)
      {answer : V} (found : one.get? asked = some answer) : two.get? asked = some answer := by
    obtain ⟨pair, met, rfl⟩ := Option.map_eq_some_iff.mp found
    obtain ⟨member, matched⟩ := find?_eq_some_iff.mp met
    rcases List.mem_cons.mp (onePairs.subset member) with rfl | kept
    · have held : two.find? asked = some (second, value) := find?_eq_some_iff.mpr
        ⟨twoPairs.symm.subset List.mem_cons_self, PartialEquivBEq.trans alike matched⟩
      rw [get?, held]
      rfl
    · have held : two.find? asked = some pair := find?_eq_some_iff.mpr
        ⟨twoPairs.symm.subset (List.mem_cons_of_mem _ kept), matched⟩
      rw [get?, held]
      rfl
  apply Option.ext
  intro answer
  exact ⟨carried otherPairs pairs same, carried pairs otherPairs (by rwa [BEq.comm])⟩

end FiniteMap

namespace HashMap

variable {K V : Type} [BEq K] {map result : HashMap K V} {key : K}

/-- A map after a key was erased and given its value again. The key has the spelling of the call;
no other answer has changed, and the same slots are taken, by values as far from home. -/
structure Reinserted (map result : HashMap K V) (key : K) (value : V) : Prop where
  slotCount : result.table.slotCount = map.table.slotCount
  size : result.size = map.size
  answers : ∀ asked, result.get? asked = map.get? asked
  pairs : ∃ stored rest, (stored == key) = true ∧ map.toList.Perm ((stored, value) :: rest) ∧
    result.toList.Perm ((key, value) :: rest)
  taken : ∀ index, result.table.isFree index = map.table.isFree index
  displaced : ∀ index,
    (result.table.slot index).map (fun cell => result.table.displacement cell.hash index) =
      (map.table.slot index).map fun cell => map.table.displacement cell.hash index

theorem table_of_erase {count : Nat} (done : map.erase key = .ok (count, result)) :
    ∃ answer, map.table.remove (map.hash key) (fun pair => pair.1 == key) = .ok answer ∧
      result = { map with table := answer.2 } := by
  obtain ⟨⟨pair, middle⟩, entryTaken, kept⟩ := exists_of_bind done
  obtain ⟨answer, taken, left⟩ := exists_of_bind entryTaken
  obtain ⟨_, rfl⟩ := Prod.mk.inj (Except.ok.inj kept)
  obtain ⟨_, rfl⟩ := Prod.mk.inj (Except.ok.inj left)
  exact ⟨answer, taken, rfl⟩

theorem hash_of_insert {memory : Memory} {value : V} {old : Option V}
    (done : map.insert memory key value = .ok (old, result)) : result.hash = map.hash := by
  obtain ⟨entry, entered, rest⟩ := exists_of_bind done
  obtain ⟨place, _, made⟩ := exists_of_bind entered
  cases place with
  | occupied place =>
      obtain rfl := Except.ok.inj made
      obtain ⟨⟨before, changed⟩, replaced, left⟩ := exists_of_bind rest
      obtain ⟨_, _, modified⟩ := exists_of_bind replaced
      obtain ⟨last, lent, given⟩ := exists_of_bind modified
      obtain ⟨_, _, rfl⟩ := exists_of_map lent
      obtain ⟨_, rfl⟩ := Prod.mk.inj (Except.ok.inj given)
      obtain ⟨_, rfl⟩ := Prod.mk.inj (Except.ok.inj left)
      rfl
  | vacant place =>
      obtain rfl := Except.ok.inj made
      obtain ⟨placed, inserted, left⟩ := exists_of_bind rest
      obtain ⟨_, _, rfl⟩ := exists_of_map inserted
      obtain ⟨_, rfl⟩ := Prod.mk.inj (Except.ok.inj left)
      rfl

theorem Represents.hashes_perm {finite : FiniteMap K V} (represents : map.Represents finite) :
    (map.table.cells.map Cell.hash).Perm
      (finite.entries.map fun pair => storedHash (map.hash pair.1)) := by
  have keyed : map.table.cells.map Cell.hash =
      (map.table.cells.map Cell.value).map fun pair => storedHash (map.hash pair.1) := by
    rw [List.map_map]
    exact List.map_congr_left represents.keyed
  rw [keyed]
  exact represents.entries.map _

variable [EquivBEq K]

theorem Represents.insert_spec {finite : FiniteMap K V} (represents : map.Represents finite)
    (room : map.table.population ≠ map.table.trigger) (memory : Memory) (key : K) (value : V) :
    ∃ result, map.insert memory key value = .ok (finite.get? key, result) ∧
      result.Represents (finite.assign key value) ∧
        result.table.slotCount = map.table.slotCount := by
  have enters := insertInPlace_enters represents.valid memory key value []
  obtain ⟨answer, result, ran, _, count⟩ := enters.roomy room
  have agrees := insertInPlace_agrees memory key value ⟨map, []⟩
  rw [ran] at agrees
  have inserted : map.insert memory key value = .ok (answer, result) := agrees.symm
  obtain ⟨rfl, after⟩ := (represents.insert_allows memory key value).of_ok inserted
  exact ⟨result, inserted, after, count⟩

theorem Represents.reinserted_of_pairs {finite other : FiniteMap K V} {stored : K} {value : V}
    {rest : List (K × V)} (represents : map.Represents finite)
    (otherRepresents : result.Represents other) (hash : result.hash = map.hash)
    (slotCount : result.table.slotCount = map.table.slotCount) (same : (stored == key) = true)
    (pairs : finite.entries.Perm ((stored, value) :: rest))
    (otherPairs : other.entries.Perm ((key, value) :: rest)) :
    map.Reinserted result key value := by
  have hashes : (result.table.cells.map Cell.hash).Perm (map.table.cells.map Cell.hash) := by
    refine otherRepresents.hashes_perm.trans (.trans ?_ represents.hashes_perm.symm)
    rw [hash]
    refine (otherPairs.map _).trans (.trans ?_ (pairs.map _).symm)
    rw [List.map_cons, List.map_cons, represents.respects same]
  have size : result.size = map.size := by
    rw [otherRepresents.size_eq, represents.size_eq, FiniteMap.size, FiniteMap.size,
      otherPairs.length_eq, pairs.length_eq]
    rfl
  have present : map.size ≠ 0 := by
    rw [represents.size_eq, FiniteMap.size, pairs.length_eq, List.length_cons]
    omega
  have sound := represents.valid.sound (represents.valid.slotCount_ne_zero present)
  have otherSound := otherRepresents.valid.sound (slotCount ▸ sound.shaped.allocated.ne')
  have layout := sound.sameLayout otherSound slotCount hashes
  constructor
  case slotCount => exact slotCount
  case size => exact size
  case answers =>
    intro asked
    rw [otherRepresents.get?_eq, represents.get?_eq, FiniteMap.get?_congr pairs otherPairs same]
  case pairs =>
    exact ⟨stored, rest, same, represents.entries.trans pairs,
      otherRepresents.entries.trans otherPairs⟩
  case taken =>
    intro index
    have reach := layout.reach index
    rw [Bool.eq_iff_iff, Table.isFree_iff, Table.isFree_iff, ← Table.reach_eq_zero_iff, reach,
      Table.reach_eq_zero_iff]
  case displaced => exact layout.displacement_eq

theorem Represents.reinserted {finite : FiniteMap K V} (represents : map.Represents finite)
    {value : V} (present : finite.get? key = some value) (memory : Memory) :
    ∃ erased result, map.erase key = .ok (1, erased) ∧
      erased.insert memory key value = .ok (none, result) ∧ map.Reinserted result key value := by
  obtain ⟨⟨stored, _⟩, found, rfl⟩ := Option.map_eq_some_iff.mp present
  have pairs := FiniteMap.without_split found
  have absent := finite.find?_without_self key
  obtain ⟨erased, taken, left⟩ := represents.erase_spec key
  rw [found] at taken
  obtain ⟨answer, removed, same⟩ := table_of_erase taken
  have hash : erased.hash = map.hash := by rw [same]
  have count : erased.table.slotCount = map.table.slotCount := by
    rw [same]
    exact Table.slotCount_of_remove removed
  -- One value fewer and as many slots: the map is below its trigger again.
  have room : erased.table.population ≠ erased.table.trigger := by
    have size : map.table.population = erased.table.population + 1 := by
      have before := represents.size_eq
      have after := left.size_eq
      rw [FiniteMap.size, pairs.length_eq, List.length_cons] at before
      exact before.trans (congrArg (· + 1) after.symm)
    have roomy := represents.valid.roomy
    have share := represents.valid.eight_mul_trigger
    have leftShare := left.valid.eight_mul_trigger
    omega
  obtain ⟨result, inserted, after, still⟩ := left.insert_spec room memory key _
  rw [FiniteMap.get?, absent] at inserted
  refine ⟨erased, result, taken, inserted, ?_⟩
  refine represents.reinserted_of_pairs after ((hash_of_insert inserted).trans hash)
    (still.trans count) (FiniteMap.find?_eq_some_iff.mp found).2 pairs ?_
  rw [FiniteMap.assign, absent, FiniteMap.entries_insertIfNew absent]

end HashMap

/-- A value that is added at a vacant entry and taken out again leaves the table that the entry was
in. A pair that is erased and put back leaves its map as it was, even at its trigger, and needs no
memory. -/
theorem undo_each_other {α K V : Type} [BEq K] [EquivBEq K] [Inhabited V]
    {table : Table α} {memory : Memory} {raw : UInt64} {accept : α → Bool}
    {place : Table.Vacant α} {added : α} {map : HashMap K V} {key : K} {value : V}
    (reachable : table.Reachable)
    (vacant : table.entry memory raw accept = .ok (.vacant place))
    (accepted : accept added = true)
    (mapReachable : (HashMap.interface K V).Reachable map)
    (present : map.get? key = .ok (some value)) (later : Memory) :
    (∃ placed, place.insert added = .ok placed ∧
        placed.table.remove raw accept = .ok (some added, place.table)) ∧
      ∃ erased result, map.erase key = .ok (1, erased) ∧
        erased.insert later key value = .ok (none, result) ∧ map.Reinserted result key value := by
  constructor
  · rcases reachable.valid.entry_cases memory raw accept with
      ⟨_, _, found, _⟩ | ⟨there, missed, _, awaits⟩ | ⟨_, failed, _⟩
    · simp [vacant] at found
    · obtain rfl : place = there := by simpa [vacant] using missed
      exact awaits.remove_inserted accepted
    · simp [vacant] at failed
  · have represented : map.Represented := HashMap.interface_preserves.of_reachable mapReachable
    obtain ⟨finite, represents⟩ := represented
    rw [represents.get?_eq] at present
    exact represents.reinserted (Except.ok.inj present) later

def refusing : Memory :=
  { slotBytes := 24, grants := fun _ => false }

def fullMap : List (Deed (HashMap.interface Nat Nat)) :=
  [.start (HashMap.Start.ofList oneHash willing 14
    ((List.range 14).map fun number => (number, 10 * number)))]

theorem undo_each_other_full :
    ∃ table place placed, Table.runAll Table.overTheEnd [] = .ok [table] ∧
      table.entry willing 18 (· == 50) = .ok (.vacant place) ∧ place.insert 50 = .ok placed ∧
        placed.table.remove 18 (· == 50) = .ok (some 50, place.table) ∧
    ∃ map erased result, (HashMap.interface Nat Nat).performAll fullMap [] = .ok [map] ∧
      map.table.population = map.table.trigger ∧ map.erase 3 = .ok (1, erased) ∧
        erased.insert refusing 3 30 = .ok (none, result) ∧ map.Reinserted result 3 30 := by
  obtain ⟨table, place, ran, vacant⟩ : ∃ table place,
      Table.runAll Table.overTheEnd [] = .ok [table] ∧
        table.entry willing 18 (· == 50) = .ok (.vacant place) := ⟨_, _, rfl, rfl⟩
  obtain ⟨map, made, full, present⟩ : ∃ map,
      (HashMap.interface Nat Nat).performAll fullMap [] = .ok [map] ∧
        map.table.population = map.table.trigger ∧ map.get? 3 = .ok (some 30) :=
    ⟨_, rfl, rfl, rfl⟩
  have accepted : (50 == 50) = true := rfl
  obtain ⟨⟨placed, inserted, removed⟩, erased, result, taken, back, reinserted⟩ :=
    undo_each_other ⟨_, _, ran, List.mem_singleton_self table⟩ vacant accepted
      ⟨_, _, made, List.mem_singleton_self map⟩ present refusing
  exact ⟨table, place, placed, ran, vacant, inserted, removed, map, erased, result, made, full,
    taken, back, reinserted⟩

end RobinHood
