import RobinHood.Load.Collect
import RobinHood.Proofs.Commands
import RobinHood.Proofs.Guarded.Sweeps

/-!
Calls on maps step by step. A map touches its table through the calls of the table alone, and uses
an entry before anything else; so every place that it uses is one that was just found.
-/

namespace RobinHood

variable {α K V σ : Type}

namespace Guarded

noncomputable section

def halfUp (count : Nat) : Guarded Nat :=
  if count % 2 = 0 then pure (count / 2) else add (count / 2) 1

def room (table : Table α) (announced : UInt64) : Guarded Nat :=
  if table.isEmpty then pure announced.toNat else halfUp announced.toNat

theorem halfUp_eq {count : Nat} (word : count < 2 ^ 64) :
    halfUp count = pure ((count + 1) / 2) := by
  rw [halfUp]
  split
  · congr 1
    omega
  · rw [add_of (by omega)]
    congr 1
    omega

theorem room_eq (table : Table α) (announced : UInt64) :
    room table announced = pure
      (if table.isEmpty then announced.toNat else (announced.toNat + 1) / 2) := by
  rw [room, halfUp_eq announced.toNat_lt]
  split <;> rfl

namespace HashMap

def withCapacity (memory : Memory) (capacity : Nat) (hash : K → UInt64) :
    Guarded (HashMap K V) := do
  return { table := ← Guarded.withCapacity memory capacity, hash }

def reserve (memory : Memory) (map : HashMap K V) (additional : Nat) : Guarded (HashMap K V) := do
  return { map with table := ← Guarded.reserve memory map.table additional }

def retain (offer : σ → K → V → Option V × σ) (state : σ) (map : HashMap K V) :
    Guarded (σ × HashMap K V) := do
  let (state, table) ← Guarded.retain (HashMap.offerPair offer) state map.table
  return (state, { map with table })

namespace Occupied

def key (place : HashMap.Occupied K V) : Guarded K := do
  return (← Guarded.Occupied.get place.place).1

def get (place : HashMap.Occupied K V) : Guarded V := do
  return (← Guarded.Occupied.get place.place).2

def modify (place : HashMap.Occupied K V) (change : V → V) : Guarded (HashMap.Occupied K V) := do
  let changed ← Guarded.Occupied.modify place.place (HashMap.changeValue change)
  return { place with place := changed }

def replace (place : HashMap.Occupied K V) (value : V) : Guarded (V × HashMap.Occupied K V) := do
  let old ← get place
  return (old, ← modify place fun _ => value)

def removeEntry (place : HashMap.Occupied K V) : Guarded ((K × V) × HashMap K V) := do
  let (pair, table) ← Guarded.Occupied.remove place.place
  return (pair, { table, hash := place.hash })

def remove (place : HashMap.Occupied K V) : Guarded (V × HashMap K V) := do
  let (pair, map) ← removeEntry place
  return (pair.2, map)

def lend (place : HashMap.Occupied K V) (change : V → V) : Guarded (V × HashMap K V) := do
  let value ← get place
  return (value, (← modify place change).toMap)

end Occupied

def Vacant.insert (place : HashMap.Vacant K V) (value : V) : Guarded (HashMap.Occupied K V) := do
  return { place := ← Guarded.Vacant.insert place.place (place.key, value), hash := place.hash }

namespace Entry

def key : HashMap.Entry K V → Guarded K
  | .vacant place => return place.key
  | .occupied place => Occupied.key place

def insertIfVacantWithKey (entry : HashMap.Entry K V) (make : K → σ → V × σ) (state : σ) :
    Guarded (HashMap.Occupied K V × σ) := do
  match entry with
  | .vacant place =>
      let (value, state) := make place.key state
      return (← Vacant.insert place value, state)
  | .occupied place =>
      let _ ← Occupied.get place
      return (place, state)

def insertIfVacant (entry : HashMap.Entry K V) (value : V) :
    Guarded (HashMap.Occupied K V) := do
  match entry with
  | .vacant place => Vacant.insert place value
  | .occupied place =>
      let _ ← Occupied.get place
      return place

def modifyIfOccupied (entry : HashMap.Entry K V) (change : V → V) :
    Guarded (HashMap.Entry K V) := do
  match entry with
  | .vacant place => return .vacant place
  | .occupied place => return .occupied (← Occupied.modify place change)

end Entry

section Keys

variable [BEq K]

def getEntry? (map : HashMap K V) (key : K) : Guarded (Option (K × V)) :=
  find map.table (map.hash key) fun pair => pair.1 == key

def get? (map : HashMap K V) (key : K) : Guarded (Option V) := do
  return (← getEntry? map key).map Prod.snd

def modify (map : HashMap K V) (key : K) (change : V → V) :
    Guarded (Option V × HashMap K V) := do
  let (pair, table) ← findModify map.table (map.hash key) (fun pair => pair.1 == key)
    (HashMap.changeValue change)
  return (pair.map Prod.snd, { map with table })

def lookup (map : HashMap K V) (key : K) : Guarded V := do
  match ← get? map key with
  | some value => return value
  | none => fail .keyNotFound

def lookupModify (map : HashMap K V) (key : K) (change : V → V) :
    Guarded (V × HashMap K V) := do
  match ← modify map key change with
  | (some value, map) => return (value, map)
  | (none, _) => fail .keyNotFound

def contains (map : HashMap K V) (key : K) : Guarded Bool := do
  return (← getEntry? map key).isSome

def removeEntry (map : HashMap K V) (key : K) : Guarded (Option (K × V) × HashMap K V) := do
  let (pair, table) ← Guarded.remove map.table (map.hash key) fun pair => pair.1 == key
  return (pair, { map with table })

def remove (map : HashMap K V) (key : K) : Guarded (Option V × HashMap K V) := do
  let (pair, map) ← removeEntry map key
  return (pair.map Prod.snd, map)

def erase (map : HashMap K V) (key : K) : Guarded (Nat × HashMap K V) := do
  let (pair, map) ← removeEntry map key
  return (if pair.isSome then 1 else 0, map)

def equals [BEq V] (map other : HashMap K V) : Guarded Bool := do
  if map.size ≠ other.size then return false
  else (← values map.table).allM fun (key, value) => do return (← get? other key) == some value

def entry (memory : Memory) (map : HashMap K V) (key : K) : Guarded (HashMap.Entry K V) := do
  match ← Guarded.entry memory map.table (map.hash key) fun pair => pair.1 == key with
  | .vacant place => return .vacant { place, key, hash := map.hash }
  | .occupied place => return .occupied { place, hash := map.hash }

def insert (memory : Memory) (map : HashMap K V) (key : K) (value : V) :
    Guarded (Option V × HashMap K V) := do
  match ← entry memory map key with
  | .occupied place =>
      let (old, place) ← Occupied.replace place value
      return (some old, place.toMap)
  | .vacant place =>
      let place ← Vacant.insert place value
      return (none, place.toMap)

def insertIfNewWith (memory : Memory) (map : HashMap K V) (key : K) (make : σ → V × σ)
    (state : σ) : Guarded (HashMap.Occupied K V × Bool × σ) := do
  match ← entry memory map key with
  | .occupied place =>
      let _ ← Occupied.get place
      return (place, false, state)
  | .vacant place =>
      let (value, state) := make state
      return (← Vacant.insert place value, true, state)

def insertIfNew (memory : Memory) (map : HashMap K V) (key : K) (value : V) :
    Guarded (HashMap.Occupied K V × Bool) := do
  let (place, inserted, ()) ← insertIfNewWith memory map key (fun () => (value, ())) ()
  return (place, inserted)

def assign (memory : Memory) (map : HashMap K V) (key : K) (value : V) :
    Guarded (HashMap.Occupied K V × Bool) := do
  match ← entry memory map key with
  | .occupied place => return (← Occupied.modify place fun _ => value, false)
  | .vacant place => return (← Vacant.insert place value, true)

def getOrInsertDefault [Inhabited V] (memory : Memory) (map : HashMap K V) (key : K) :
    Guarded (HashMap.Occupied K V) := do
  return (← insertIfNew memory map key default).1

def insertAll (memory : Memory) (map : HashMap K V) (pairs : List (K × V)) :
    Guarded (HashMap K V) :=
  pairs.foldlM (fun map (key, value) => do return (← insert memory map key value).2) map

def extend (memory : Memory) (map : HashMap K V) (announced : UInt64) (pairs : List (K × V)) :
    Guarded (HashMap K V) := do
  let map ← reserve memory map (← room map.table announced)
  insertAll memory map pairs

def ofList (memory : Memory) (hash : K → UInt64) (announced : UInt64) (pairs : List (K × V)) :
    Guarded (HashMap K V) :=
  extend memory (HashMap.withHasher hash) announced pairs

/-- What is read of a source, before it is known how the source ends. -/
def fill (memory : Memory) (hash : K → UInt64) (source : Source (K × V)) :
    Guarded (HashMap K V) := do
  insertAll memory (← withCapacity memory source.initialCapacity hash) source.items

end Keys

end HashMap

end

end Guarded

namespace HashMap

open Guarded

variable {map other : HashMap K V}

def Entry.Firm : Entry K V → Prop
  | vacant place => place.place.Firm
  | occupied place => place.place.Firm

theorem withCapacity_follows (memory : Memory) (capacity : Nat) (hash : K → UInt64) :
    Follows memory.Refusal (fun map => map.table.Safe)
      (Guarded.HashMap.withCapacity (V := V) memory capacity hash)
      (withCapacity memory capacity hash) :=
  (Table.withCapacity_follows memory capacity).map fun _ safe => safe

theorem reserve_follows (safe : map.table.Safe) (memory : Memory) (additional : Nat) :
    Follows memory.Refusal (fun map => map.table.Safe)
      (Guarded.HashMap.reserve memory map additional) (map.reserve memory additional) :=
  (safe.reserve_follows memory additional).map fun _ reserved => reserved

theorem retain_follows (safe : map.table.Safe) (offer : σ → K → V → Option V × σ) (state : σ) :
    Follows Never (fun answer => answer.2.table.Safe)
      (Guarded.HashMap.retain offer state map) (map.retain offer state) :=
  (safe.retain_follows (offerPair offer) state).map fun _ after => after

namespace Occupied

variable {place : Occupied K V}

theorem key_follows (firm : place.place.Firm) :
    Follows Never (fun _ => True) (Guarded.HashMap.Occupied.key place) place.key :=
  firm.get_follows.map fun _ _ => trivial

theorem get_follows (firm : place.place.Firm) :
    Follows Never (fun _ => True) (Guarded.HashMap.Occupied.get place) place.get :=
  firm.get_follows.map fun _ _ => trivial

theorem modify_follows (firm : place.place.Firm) (change : V → V) :
    Follows Never (fun place => place.place.Firm)
      (Guarded.HashMap.Occupied.modify place change) (place.modify change) :=
  (firm.modify_follows (changeValue change)).map fun _ after => after

theorem replace_follows (firm : place.place.Firm) (value : V) :
    Follows Never (fun answer => answer.2.place.Firm)
      (Guarded.HashMap.Occupied.replace place value) (place.replace value) :=
  (get_follows firm).bind fun _ _ =>
    (modify_follows firm fun _ => value).bind fun _ after => .answer after

theorem removeEntry_follows (firm : place.place.Firm) :
    Follows Never (fun answer => answer.2.table.Safe)
      (Guarded.HashMap.Occupied.removeEntry place) place.removeEntry :=
  firm.remove_follows.map fun _ after => after

theorem remove_follows (firm : place.place.Firm) :
    Follows Never (fun answer => answer.2.table.Safe)
      (Guarded.HashMap.Occupied.remove place) place.remove :=
  (removeEntry_follows firm).map fun _ after => after

theorem lend_follows (firm : place.place.Firm) (change : V → V) :
    Follows Never (fun answer => answer.2.table.Safe)
      (Guarded.HashMap.Occupied.lend place change) (place.lend change) :=
  (get_follows firm).bind fun _ _ =>
    (modify_follows firm change).bind fun _ after => .answer after.safe

end Occupied

theorem Vacant.insert_follows {place : Vacant K V} (firm : place.place.Firm) (value : V) :
    Follows Never (fun place => place.place.Firm)
      (Guarded.HashMap.Vacant.insert place value) (place.insert value) :=
  (firm.insert_follows (place.key, value)).map fun _ placed => placed

namespace Entry

variable {entry : Entry K V}

theorem key_follows (firm : entry.Firm) :
    Follows Never (fun _ => True) (Guarded.HashMap.Entry.key entry) entry.key := by
  cases entry with
  | vacant place => exact .answer trivial
  | occupied place => exact Occupied.key_follows firm

theorem insertIfVacantWithKey_follows (firm : entry.Firm) (make : K → σ → V × σ) (state : σ) :
    Follows Never (fun answer => answer.1.place.Firm)
      (Guarded.HashMap.Entry.insertIfVacantWithKey entry make state)
      (entry.insertIfVacantWithKey make state) := by
  cases entry with
  | vacant place => exact (Vacant.insert_follows firm _).map fun _ placed => placed
  | occupied place =>
      obtain ⟨cell, _, got⟩ := Table.Occupied.Firm.get_eq firm
      rw [Guarded.HashMap.Entry.insertIfVacantWithKey, Guarded.HashMap.Occupied.get, got]
      exact .answer firm

theorem insertIfVacant_follows (firm : entry.Firm) (value : V) :
    Follows Never (fun place => place.place.Firm)
      (Guarded.HashMap.Entry.insertIfVacant entry value) (entry.insertIfVacant value) := by
  cases entry with
  | vacant place => exact Vacant.insert_follows firm value
  | occupied place =>
      obtain ⟨cell, _, got⟩ := Table.Occupied.Firm.get_eq firm
      rw [Guarded.HashMap.Entry.insertIfVacant, Guarded.HashMap.Occupied.get, got]
      exact .answer firm

theorem modifyIfOccupied_follows (firm : entry.Firm) (change : V → V) :
    Follows Never Entry.Firm (Guarded.HashMap.Entry.modifyIfOccupied entry change)
      (entry.modifyIfOccupied change) := by
  cases entry with
  | vacant place => exact .answer firm
  | occupied place => exact (Occupied.modify_follows firm change).map fun _ after => after

end Entry

section Keys

variable [BEq K]

theorem getEntry?_follows (safe : map.table.Safe) (key : K) :
    Follows Never (fun _ => True) (Guarded.HashMap.getEntry? map key) (map.getEntry? key) :=
  safe.find_follows _ _

theorem get?_follows (safe : map.table.Safe) (key : K) :
    Follows Never (fun _ => True) (Guarded.HashMap.get? map key) (map.get? key) :=
  (getEntry?_follows safe key).bind fun _ _ => .answer trivial

theorem modify_follows (safe : map.table.Safe) (key : K) (change : V → V) :
    Follows Never (fun answer => answer.2.table.Safe)
      (Guarded.HashMap.modify map key change) (map.modify key change) :=
  (safe.findModify_follows _ _ _).bind fun _ after => .answer after

theorem lookup_follows (safe : map.table.Safe) (key : K) :
    Follows (· = .keyNotFound) (fun _ => True) (Guarded.HashMap.lookup map key)
      (map.lookup key) := by
  refine (get?_follows safe key).never.bind ?_
  intro found _
  cases found with
  | some value => exact .answer trivial
  | none => exact .error rfl

theorem lookupModify_follows (safe : map.table.Safe) (key : K) (change : V → V) :
    Follows (· = .keyNotFound) (fun answer => answer.2.table.Safe)
      (Guarded.HashMap.lookupModify map key change) (map.lookupModify key change) := by
  refine (modify_follows safe key change).never.bind ?_
  rintro ⟨found, changed⟩ after
  cases found with
  | some value => exact .answer after
  | none => exact .error rfl

theorem contains_follows (safe : map.table.Safe) (key : K) :
    Follows Never (fun _ => True) (Guarded.HashMap.contains map key) (map.contains key) :=
  (getEntry?_follows safe key).bind fun _ _ => .answer trivial

theorem removeEntry_follows (safe : map.table.Safe) (key : K) :
    Follows Never (fun answer => answer.2.table.Safe)
      (Guarded.HashMap.removeEntry map key) (map.removeEntry key) :=
  (safe.remove_follows _ _).bind fun _ after => .answer after

theorem remove_follows (safe : map.table.Safe) (key : K) :
    Follows Never (fun answer => answer.2.table.Safe)
      (Guarded.HashMap.remove map key) (map.remove key) :=
  (removeEntry_follows safe key).bind fun _ after => .answer after

theorem erase_follows (safe : map.table.Safe) (key : K) :
    Follows Never (fun answer => answer.2.table.Safe)
      (Guarded.HashMap.erase map key) (map.erase key) :=
  (removeEntry_follows safe key).bind fun _ after => .answer after

theorem equals_follows [BEq V] (safe : map.table.Safe) (otherSafe : other.table.Safe) :
    Follows Never (fun _ => True) (Guarded.HashMap.equals map other) (map.equals other) := by
  rw [Guarded.HashMap.equals, equals]
  split
  · exact .answer trivial
  · rw [safe.values_eq, pure_bind]
    refine Follows.allM ?_ map.table.toList
    rintro ⟨key, value⟩
    exact (get?_follows otherSafe key).bind fun _ _ => .answer trivial

theorem entry_follows (safe : map.table.Safe) (memory : Memory) (key : K) :
    Follows memory.Refusal Entry.Firm (Guarded.HashMap.entry memory map key)
      (map.entry memory key) := by
  refine (safe.entry_follows memory _ _).bind ?_
  intro found firm
  cases found with
  | vacant place => exact .answer firm
  | occupied place => exact .answer firm

theorem insert_follows (safe : map.table.Safe) (memory : Memory) (key : K) (value : V) :
    Follows memory.Refusal (fun answer => answer.2.table.Safe)
      (Guarded.HashMap.insert memory map key value) (map.insert memory key value) := by
  refine (entry_follows safe memory key).bind ?_
  intro found firm
  refine Follows.never ?_
  cases found with
  | vacant place =>
      exact (Vacant.insert_follows firm value).bind fun _ placed => .answer placed.safe
  | occupied place =>
      exact (Occupied.replace_follows firm value).bind fun _ after => .answer after.safe

theorem insertIfNewWith_follows (safe : map.table.Safe) (memory : Memory) (key : K)
    (make : σ → V × σ) (state : σ) :
    Follows memory.Refusal (fun answer => answer.1.place.Firm)
      (Guarded.HashMap.insertIfNewWith memory map key make state)
      (map.insertIfNewWith memory key make state) := by
  refine (entry_follows safe memory key).bind ?_
  intro found firm
  refine Follows.never ?_
  cases found with
  | vacant place => exact (Vacant.insert_follows firm _).bind fun _ placed => .answer placed
  | occupied place =>
      obtain ⟨cell, _, got⟩ := Table.Occupied.Firm.get_eq firm
      simp only [Guarded.HashMap.Occupied.get, got, pure_bind]
      exact .answer firm

theorem insertIfNew_follows (safe : map.table.Safe) (memory : Memory) (key : K) (value : V) :
    Follows memory.Refusal (fun answer => answer.1.place.Firm)
      (Guarded.HashMap.insertIfNew memory map key value) (map.insertIfNew memory key value) :=
  (insertIfNewWith_follows safe memory key _ ()).bind fun _ after => .answer after

theorem assign_follows (safe : map.table.Safe) (memory : Memory) (key : K) (value : V) :
    Follows memory.Refusal (fun answer => answer.1.place.Firm)
      (Guarded.HashMap.assign memory map key value) (map.assign memory key value) := by
  refine (entry_follows safe memory key).bind ?_
  intro found firm
  refine Follows.never ?_
  cases found with
  | vacant place => exact (Vacant.insert_follows firm value).bind fun _ placed => .answer placed
  | occupied place =>
      exact (Occupied.modify_follows firm fun _ => value).bind fun _ after => .answer after

theorem getOrInsertDefault_follows [Inhabited V] (safe : map.table.Safe) (memory : Memory)
    (key : K) :
    Follows memory.Refusal (fun place => place.place.Firm)
      (Guarded.HashMap.getOrInsertDefault memory map key) (map.getOrInsertDefault memory key) :=
  (insertIfNew_follows safe memory key default).bind fun _ after => .answer after

theorem insertAll_follows (safe : map.table.Safe) (memory : Memory) (pairs : List (K × V)) :
    Follows memory.Refusal (fun map => map.table.Safe)
      (Guarded.HashMap.insertAll memory map pairs) (map.insertAll memory pairs) := by
  refine .foldlM ?_ pairs safe
  intro map pair safe
  exact (insert_follows safe memory pair.1 pair.2).map fun _ after => after

theorem extend_follows (safe : map.table.Safe) (memory : Memory) (announced : UInt64)
    (pairs : List (K × V)) :
    Follows memory.Refusal (fun map => map.table.Safe)
      (Guarded.HashMap.extend memory map announced pairs)
      (map.extend memory announced.toNat pairs) := by
  rw [Guarded.HashMap.extend, room_eq, pure_bind]
  exact (reserve_follows safe memory _).bind fun _ reserved =>
    insertAll_follows reserved memory pairs

theorem ofList_follows (memory : Memory) (hash : K → UInt64) (announced : UInt64)
    (pairs : List (K × V)) :
    Follows memory.Refusal (fun map => map.table.Safe)
      (Guarded.HashMap.ofList memory hash announced pairs)
      (ofList memory hash announced.toNat pairs) :=
  extend_follows Table.safe_empty memory announced pairs

def fill (memory : Memory) (hash : K → UInt64) (source : Source (K × V)) :
    Except TableError (HashMap K V) := do
  (← withCapacity memory source.initialCapacity hash).insertAll memory source.items

theorem load_eq (memory : Memory) (hash : K → UInt64) (source : Source (K × V)) :
    load memory hash source = (fill memory hash source).mapError .table >>= source.finish := by
  rw [load_eq_kind]
  exact kind.load_eq memory (withHasher hash) source

theorem fill_follows (memory : Memory) (hash : K → UInt64) (source : Source (K × V)) :
    Follows memory.Refusal (fun map => map.table.Safe)
      (Guarded.HashMap.fill memory hash source) (fill memory hash source) :=
  (withCapacity_follows memory source.initialCapacity hash).bind fun _ safe =>
    insertAll_follows safe memory source.items

end Keys

end HashMap

end RobinHood
