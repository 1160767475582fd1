import RobinHood.Proofs.Guarded.Reachable

/-!
No call on what a caller can hold panics, and every call ends. The only failures are those of calls
that may need memory, and a refusal of memory is their only reason.
-/

namespace RobinHood

open Guarded

variable {α K V T : Type}

namespace Table

structure Occupied.NeverPanics (place : Occupied α) : Prop where
  get : Follows Never (fun _ => True) (Guarded.Occupied.get place) place.get
  modify (change : α → α) :
    Follows Never Occupied.Firm (Guarded.Occupied.modify place change) (place.modify change)
  replace (value : α) :
    Follows Never (fun answer => answer.2.Firm) (Guarded.Occupied.replace place value)
      (place.replace value)
  remove : Follows Never (fun answer => Safe answer.2) (Guarded.Occupied.remove place) place.remove

structure Entry.NeverPanics (entry : Entry α) : Prop where
  occupied {place : Occupied α} : entry = .occupied place → place.NeverPanics
  vacant {place : Vacant α} (value : α) : entry = .vacant place →
    Follows Never Occupied.Firm (Guarded.Vacant.insert place value) (place.insert value)
  insertIfVacantWith {σ : Type} (make : σ → α × σ) (state : σ) :
    Follows Never (fun answer => answer.1.Firm)
      (Guarded.Entry.insertIfVacantWith entry make state) (entry.insertIfVacantWith make state)
  insertIfVacant (value : α) :
    Follows Never Occupied.Firm (Guarded.Entry.insertIfVacant entry value)
      (entry.insertIfVacant value)
  modifyIfOccupied (change : α → α) :
    Follows Never Entry.Firm (Guarded.Entry.modifyIfOccupied entry change)
      (entry.modifyIfOccupied change)

structure NeverPanics (table : Table α) : Prop where
  find (raw : UInt64) (accept : α → Bool) :
    Follows Never (fun _ => True) (Guarded.find table raw accept) (table.find raw accept)
  findModify (raw : UInt64) (accept : α → Bool) (change : α → α) :
    Follows Never (fun answer => Safe answer.2) (Guarded.findModify table raw accept change)
      (table.findModify raw accept change)
  remove (raw : UInt64) (accept : α → Bool) :
    Follows Never (fun answer => Safe answer.2) (Guarded.remove table raw accept)
      (table.remove raw accept)
  retain {σ : Type} (offer : σ → α → Option α × σ) (state : σ) :
    Follows Never (fun answer => Safe answer.2) (Guarded.retain offer state table)
      (table.retain offer state)
  entry (memory : Memory) (raw : UInt64) (accept : α → Bool) :
    Follows memory.Refusal Entry.Firm (Guarded.entry memory table raw accept)
      (table.entry memory raw accept)
  reserve (memory : Memory) (additional : Nat) :
    Follows memory.Refusal Safe (Guarded.reserve memory table additional)
      (table.reserve memory additional)
  check : Follows Never (fun _ => True) (Guarded.check table) table.check
  /-- Any steps of a walk, from either end, and then all that is left. -/
  walk (moves : List Side) (side : Side) :
    Follows Never (fun answer => OddSlots answer.2.slots)
      (do
        let (_, walk) ← stepAll Guarded.Walk.step moves table.walk
        exhaust (Guarded.Walk.step · side) walk)
      (do
        let (_, walk) ← stepAll (fun walk side => .ok (walk.step side)) moves table.walk
        .ok (walk.rest side))
  changingWalk (moves : List (Side × (α → α))) (side : Side) (change : α → α) :
    Follows Never (fun answer => Safe answer.2.table)
      (do
        let (_, walk) ← stepAll (fun walk (side, change) =>
          Guarded.ChangingWalk.step walk side change) moves table.changingWalk
        exhaust (Guarded.ChangingWalk.step · side change) walk)
      (do
        let (_, walk) ← stepAll (fun walk (side, change) => .ok (walk.step side change)) moves
          table.changingWalk
        .ok (walk.rest side change))
  takingWalk (moves : List Side) (side : Side) :
    Follows Never (fun answer => OddSlots answer.2.slots)
      (do
        let (_, walk) ← stepAll Guarded.TakingWalk.step moves table.takingWalk
        exhaust (Guarded.TakingWalk.step · side) walk)
      (do
        let (_, walk) ← stepAll (fun walk side => .ok (walk.step side)) moves table.takingWalk
        .ok (walk.rest side))
  drain (taken : Nat) :
    Follows Never Safe
      (do
        let (_, drain) ← Guarded.Drain.take taken table.drain
        Guarded.Drain.close drain)
      (.ok (Drain.take taken table.drain).2.close)

theorem Occupied.Firm.neverPanics {place : Occupied α} (firm : place.Firm) : place.NeverPanics :=
  ⟨firm.get_follows, firm.modify_follows, firm.replace_follows, firm.remove_follows⟩

theorem Entry.Firm.neverPanics {entry : Entry α} (firm : entry.Firm) : entry.NeverPanics := by
  constructor
  case occupied =>
    rintro place rfl
    exact Occupied.Firm.neverPanics firm
  case vacant =>
    rintro place value rfl
    exact Vacant.Firm.insert_follows firm value
  case insertIfVacantWith => exact firm.insertIfVacantWith_follows
  case insertIfVacant => exact firm.insertIfVacant_follows
  case modifyIfOccupied => exact firm.modifyIfOccupied_follows

theorem Safe.neverPanics {table : Table α} (safe : Safe table) : table.NeverPanics := by
  have reading : OddSlots table.walk.slots := safe.oddSlots
  have changing : Safe table.changingWalk.table := safe
  have taking : OddSlots table.takingWalk.slots := safe.oddSlots
  constructor
  case find => exact safe.find_follows
  case findModify => exact safe.findModify_follows
  case remove => exact safe.remove_follows
  case retain => exact safe.retain_follows
  case entry => exact safe.entry_follows
  case reserve => exact safe.reserve_follows
  case check => exact safe.check_follows
  case drain => exact safe.drain_follows
  case walk =>
    intro moves side
    refine (stepAll_follows (fun walk : Walk α => OddSlots walk.slots)
      (fun _ move odd => Walk.step_follows odd move) moves reading).bind ?_
    intro _ odd
    exact Walk.rest_follows odd side
  case changingWalk =>
    intro moves side change
    refine (stepAll_follows (fun walk : ChangingWalk α => Safe walk.table)
      (fun _ move safe => ChangingWalk.step_follows safe move.1 move.2) moves changing).bind ?_
    intro _ after
    exact ChangingWalk.rest_follows after side change
  case takingWalk =>
    intro moves side
    refine (stepAll_follows (fun walk : TakingWalk α => OddSlots walk.slots)
      (fun _ move odd => TakingWalk.step_follows odd move) moves taking).bind ?_
    intro _ odd
    exact TakingWalk.rest_follows odd side

end Table

namespace HashMap

variable [BEq K]

/-- Walks, drains and the check are calls on the table. -/
structure NeverPanics [Inhabited V] (map : HashMap K V) : Prop where
  table : map.table.NeverPanics
  run {σ : Type} (command : Command K V σ) (memory : Memory) (state : σ) :
    Follows (fun error => command.asks = true ∧ memory.Refusal error)
      (fun answer => answer.2.2.table.Safe)
      (Guarded.HashMap.Command.run memory map state command) (command.run memory map state)
  extend (memory : Memory) (announced : UInt64) (pairs : List (K × V)) :
    Follows memory.Refusal (fun map => map.table.Safe)
      (Guarded.HashMap.extend memory map announced pairs)
      (map.extend memory announced.toNat pairs)
  equals [BEq V] {other : HashMap K V} : other.Reachable →
    Follows Never (fun _ => True) (Guarded.HashMap.equals map other) (map.equals other)

structure StartsSafely (hash : K → UInt64) (V : Type) : Prop where
  withCapacity (memory : Memory) (capacity : Nat) :
    Follows memory.Refusal (fun map => map.table.Safe)
      (Guarded.HashMap.withCapacity (V := V) memory capacity hash)
      (HashMap.withCapacity memory capacity hash)
  ofList (memory : Memory) (announced : UInt64) (pairs : List (K × V)) :
    Follows memory.Refusal (fun map => map.table.Safe)
      (Guarded.HashMap.ofList memory hash announced pairs)
      (HashMap.ofList memory hash announced.toNat pairs)
  fill (memory : Memory) (source : Source (K × V)) :
    Follows memory.Refusal (fun map => map.table.Safe)
      (Guarded.HashMap.fill memory hash source) (HashMap.fill memory hash source)
  load (memory : Memory) (source : Source (K × V)) :
    HashMap.load memory hash source =
      (HashMap.fill memory hash source).mapError .table >>= source.finish

theorem neverPanics [Inhabited V] {map : HashMap K V} (safe : map.table.Safe) :
    map.NeverPanics := by
  constructor
  case table => exact safe.neverPanics
  case run =>
    intro _ command memory state
    exact command.run_follows safe memory state
  case extend => exact extend_follows safe
  case equals =>
    intro _ other reachable
    exact equals_follows safe reachable.safe

theorem startsSafely (hash : K → UInt64) : StartsSafely hash V where
  withCapacity memory capacity := withCapacity_follows memory capacity hash
  ofList memory announced pairs := ofList_follows memory hash announced pairs
  fill memory source := fill_follows memory hash source
  load memory source := load_eq memory hash source

end HashMap

namespace HashSet

variable [BEq T]

structure NeverPanics (set : HashSet T) : Prop where
  table : set.table.NeverPanics
  run {σ : Type} (command : Command T σ) (memory : Memory) (state : σ) : command.Announces →
    Follows (fun error => command.asks = true ∧ memory.Refusal error)
      (fun answer => answer.2.2.table.Safe)
      (Guarded.HashSet.Command.run memory set state command) (command.run memory set state)
  difference {other : HashSet T} : other.Reachable →
    Follows Never (fun _ => True) (Guarded.HashSet.difference set other) (set.difference other)
  intersection {other : HashSet T} : other.Reachable →
    Follows Never (fun _ => True) (Guarded.HashSet.intersection set other)
      (set.intersection other)
  union {other : HashSet T} : other.Reachable →
    Follows Never (fun _ => True) (Guarded.HashSet.union set other) (set.union other)
  symmetricDifference {other : HashSet T} : other.Reachable →
    Follows Never (fun _ => True) (Guarded.HashSet.symmetricDifference set other)
      (set.symmetricDifference other)
  isDisjoint {other : HashSet T} : other.Reachable →
    Follows Never (fun _ => True) (Guarded.HashSet.isDisjoint set other) (set.isDisjoint other)
  isSubset {other : HashSet T} : other.Reachable →
    Follows Never (fun _ => True) (Guarded.HashSet.isSubset set other) (set.isSubset other)
  isSuperset {other : HashSet T} : other.Reachable →
    Follows Never (fun _ => True) (Guarded.HashSet.isSubset other set) (set.isSuperset other)
  equals {other : HashSet T} : other.Reachable →
    Follows Never (fun _ => True) (Guarded.HashSet.equals set other) (set.equals other)

structure StartsSafely (hash : T → UInt64) : Prop where
  withCapacity (memory : Memory) (capacity : Nat) :
    Follows memory.Refusal (fun set => set.table.Safe)
      (Guarded.HashSet.withCapacity memory capacity hash)
      (HashSet.withCapacity memory capacity hash)
  ofList (memory : Memory) (announced : UInt64) (values : List T) :
    Follows memory.Refusal (fun set => set.table.Safe)
      (Guarded.HashSet.ofList memory hash announced values)
      (HashSet.ofList memory hash announced.toNat values)
  fill (memory : Memory) (source : Source T) :
    Follows memory.Refusal (fun set => set.table.Safe)
      (Guarded.HashSet.fill memory hash source) (HashSet.fill memory hash source)
  load (memory : Memory) (source : Source T) :
    HashSet.load memory hash source =
      (HashSet.fill memory hash source).mapError .table >>= source.finish

theorem neverPanics {set : HashSet T} (safe : set.table.Safe) : set.NeverPanics := by
  constructor
  case table => exact safe.neverPanics
  case run =>
    intro _ command memory state announces
    exact command.run_follows announces safe memory state
  case isSuperset =>
    intro other reachable
    exact isSubset_follows reachable.safe safe
  case difference => exact fun reachable => difference_follows safe reachable.safe
  case intersection => exact fun reachable => intersection_follows safe reachable.safe
  case union => exact fun reachable => union_follows safe reachable.safe
  case symmetricDifference =>
    exact fun reachable => symmetricDifference_follows safe reachable.safe
  case isDisjoint => exact fun reachable => isDisjoint_follows safe reachable.safe
  case isSubset => exact fun reachable => isSubset_follows safe reachable.safe
  case equals => exact fun reachable => equals_follows safe reachable.safe

theorem startsSafely (hash : T → UInt64) : StartsSafely hash where
  withCapacity memory capacity := withCapacity_follows memory capacity hash
  ofList memory announced values := ofList_follows memory hash announced values
  fill memory source := fill_follows memory hash source
  load memory source := load_eq memory hash source

end HashSet

/-- Nothing that a caller can hold, nor the entries found in it, ever panics or runs for ever. -/
theorem reachable_neverPanics [BEq K] [Inhabited V] [BEq T] {table : Table α} {map : HashMap K V}
    {set : HashSet T} (tableReached : table.Reachable) (mapReached : map.Reachable)
    (setReached : set.Reachable) :
    table.NeverPanics ∧ map.NeverPanics ∧ set.NeverPanics ∧
      (∀ entry : Table.Entry α, entry.Firm → entry.NeverPanics) ∧
        (∀ memory capacity, Follows memory.Refusal Table.Safe
          (Guarded.withCapacity (α := α) memory capacity) (Table.withCapacity memory capacity)) ∧
          (∀ hash : K → UInt64, HashMap.StartsSafely hash V) ∧
            ∀ hash : T → UInt64, HashSet.StartsSafely hash := by
  refine ⟨?_, ?_, ?_, ?_, ?_, ?_, ?_⟩
  · exact tableReached.safe.neverPanics
  · exact HashMap.neverPanics mapReached.safe
  · exact HashSet.neverPanics setReached.safe
  · exact fun entry firm => firm.neverPanics
  · exact Table.withCapacity_follows
  · exact HashMap.startsSafely
  · exact HashSet.startsSafely

theorem neverPanics_firstValues :
    ∃ (table : Table Nat) (map : HashMap Nat Nat) (set : HashSet Nat),
      Table.runAll [.withCapacity willing 20] [] = .ok [table] ∧ table.slotCount = 32 ∧
        (HashMap.withHasher fun _ => 7).insert willing 1 10 = .ok (none, map) ∧
          (HashSet.withHasher fun _ => 7).insert willing 1 = .ok (true, set) ∧
            table.NeverPanics ∧ map.NeverPanics ∧ set.NeverPanics := by
  obtain ⟨table, made⟩ : ∃ table : Table Nat,
      Table.runAll [.withCapacity willing 20] [] = .ok [table] ∧ table.slotCount = 32 :=
    ⟨_, rfl, rfl⟩
  obtain ⟨map, added⟩ : ∃ map : HashMap Nat Nat,
      (HashMap.withHasher fun _ => 7).insert willing 1 10 = .ok (none, map) := ⟨_, rfl⟩
  obtain ⟨set, joined⟩ : ∃ set : HashSet Nat,
      (HashSet.withHasher fun _ => 7).insert willing 1 = .ok (true, set) := ⟨_, rfl⟩
  have tableReached : table.Reachable := ⟨_, _, made.1, List.mem_singleton_self table⟩
  have mapReached : map.Reachable :=
    .call (.perform willing () (.insert 1 10)) (.withHasher fun _ => 7) (by
      simp [HashMap.Call.apply, HashMap.Command.run, added]
      rfl)
  have setReached : set.Reachable :=
    .call (.perform willing () (.insert 1)) (.withHasher fun _ => 7) (by
      simp [HashSet.Call.apply, HashSet.Command.run, joined]
      rfl)
  have safe := reachable_neverPanics tableReached mapReached setReached
  exact ⟨table, map, set, made.1, made.2, added, joined, safe.1, safe.2.1, safe.2.2.1⟩

end RobinHood
