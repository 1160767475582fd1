import RobinHood.HashMap.Basic

/-! Entries of a map, and the insertions that go through them. -/

namespace RobinHood

namespace HashMap

variable {K V : Type}

structure Occupied (K V : Type) where
  place : Table.Occupied (K × V)
  hash : K → UInt64

structure Vacant (K V : Type) where
  place : Table.Vacant (K × V)
  key : K
  hash : K → UInt64

inductive Entry (K V : Type) where
  | vacant (place : Vacant K V)
  | occupied (place : Occupied K V)

namespace Occupied

def toMap (occupied : Occupied K V) : HashMap K V :=
  { table := occupied.place.table, hash := occupied.hash }

def key (occupied : Occupied K V) : Except TableError K :=
  occupied.place.get.map Prod.fst

def get (occupied : Occupied K V) : Except TableError V :=
  occupied.place.get.map Prod.snd

def modify (occupied : Occupied K V) (change : V → V) : Except TableError (Occupied K V) :=
  (occupied.place.modify (changeValue change)).map fun place => { occupied with place }

def replace (occupied : Occupied K V) (value : V) : Except TableError (V × Occupied K V) := do
  let old ← occupied.get
  return (old, ← occupied.modify fun _ => value)

def removeEntry (occupied : Occupied K V) : Except TableError ((K × V) × HashMap K V) :=
  occupied.place.remove.map fun (pair, table) => (pair, { table, hash := occupied.hash })

def remove (occupied : Occupied K V) : Except TableError (V × HashMap K V) :=
  occupied.removeEntry.map fun (pair, map) => (pair.2, map)

end Occupied

def Vacant.insert (vacant : Vacant K V) (value : V) : Except TableError (Occupied K V) :=
  (vacant.place.insert (vacant.key, value)).map fun place => { place, hash := vacant.hash }

def entry [BEq K] (memory : Memory) (map : HashMap K V) (key : K) :
    Except TableError (Entry K V) := do
  match ← map.table.entry memory (map.hash key) fun pair => pair.1 == key with
  | .vacant place => return .vacant { place, key, hash := map.hash }
  | .occupied place => return .occupied { place, hash := map.hash }

namespace Entry

def toMap : Entry K V → HashMap K V
  | vacant place => { table := place.place.table, hash := place.hash }
  | occupied place => place.toMap

/-- The stored key of an occupied place, the asked one of a vacant place. -/
def key : Entry K V → Except TableError K
  | vacant place => .ok place.key
  | occupied place => place.key

def insertIfVacant (entry : Entry K V) (value : V) : Except TableError (Occupied K V) :=
  match entry with
  | vacant place => place.insert value
  | occupied place => .ok place

/-- Makes the value from the key, and only for a vacant place; `make` may use and change a state. -/
def insertIfVacantWithKey {σ : Type} (entry : Entry K V) (make : K → σ → V × σ) (state : σ) :
    Except TableError (Occupied K V × σ) :=
  match entry with
  | vacant place =>
      let (value, state) := make place.key state
      (place.insert value).map fun place => (place, state)
  | occupied place => .ok (place, state)

def insertIfVacantWith {σ : Type} (entry : Entry K V) (make : σ → V × σ) (state : σ) :
    Except TableError (Occupied K V × σ) :=
  entry.insertIfVacantWithKey (fun _ => make) state

def insertDefaultIfVacant [Inhabited V] (entry : Entry K V) : Except TableError (Occupied K V) :=
  entry.insertIfVacant default

def modifyIfOccupied (entry : Entry K V) (change : V → V) : Except TableError (Entry K V) :=
  match entry with
  | vacant place => .ok (vacant place)
  | occupied place => (place.modify change).map occupied

end Entry

section Insertion

variable [BEq K]

def insert (memory : Memory) (map : HashMap K V) (key : K) (value : V) :
    Except TableError (Option V × HashMap K V) := do
  match ← map.entry memory key with
  | .occupied place =>
      let (old, place) ← place.replace value
      return (some old, place.toMap)
  | .vacant place =>
      let place ← place.insert value
      return (none, place.toMap)

/-- Adds a pair only if the key is not there; says whether it did. The value is made only then. -/
def insertIfNewWith {σ : Type} (memory : Memory) (map : HashMap K V) (key : K) (make : σ → V × σ)
    (state : σ) : Except TableError (Occupied K V × Bool × σ) := do
  match ← map.entry memory key with
  | .occupied place => return (place, false, state)
  | .vacant place =>
      let (value, state) := make state
      return (← place.insert value, true, state)

def insertIfNew (memory : Memory) (map : HashMap K V) (key : K) (value : V) :
    Except TableError (Occupied K V × Bool) := do
  let (place, inserted, ()) ← map.insertIfNewWith memory key (fun () => (value, ())) ()
  return (place, inserted)

def assign (memory : Memory) (map : HashMap K V) (key : K) (value : V) :
    Except TableError (Occupied K V × Bool) := do
  match ← map.entry memory key with
  | .occupied place => return (← place.modify fun _ => value, false)
  | .vacant place => return (← place.insert value, true)

def getOrInsertDefault [Inhabited V] (memory : Memory) (map : HashMap K V) (key : K) :
    Except TableError (Occupied K V) := do
  return (← map.insertIfNew memory key default).1

def insertAll (memory : Memory) (map : HashMap K V) (pairs : List (K × V)) :
    Except TableError (HashMap K V) :=
  pairs.foldlM (fun map (key, value) => (map.insert memory key value).map Prod.snd) map

/-- Inserts pairs one after the other. A source announces how many it has at least; room is made
for all of them in an empty map, and for half of them, as keys may repeat, in any other. -/
def extend (memory : Memory) (map : HashMap K V) (announced : Nat) (pairs : List (K × V)) :
    Except TableError (HashMap K V) := do
  let additional := if map.isEmpty then announced else (announced + 1) / 2
  let map ← map.reserve memory additional
  map.insertAll memory pairs

def ofList (memory : Memory) (hash : K → UInt64) (announced : Nat) (pairs : List (K × V)) :
    Except TableError (HashMap K V) :=
  (withHasher hash).extend memory announced pairs

end Insertion

end HashMap

end RobinHood
