import RobinHood.Key
import RobinHood.Table.Drain
import RobinHood.Table.Entry
import RobinHood.Table.Retain
import RobinHood.Table.Walk

/-! A hash map is a table of pairs with a hash function for the keys. A key that is stored again
keeps its first spelling and takes the new value. -/

namespace RobinHood

structure HashMap (K V : Type) where
  table : Table (K × V)
  hash : K → UInt64

namespace HashMap

variable {K V : Type}

def withHasher (hash : K → UInt64) : HashMap K V :=
  { table := .empty, hash }

def withCapacity (memory : Memory) (capacity : Nat) (hash : K → UInt64) :
    Except TableError (HashMap K V) :=
  (Table.withCapacity memory capacity).map fun table => { table, hash }

def size (map : HashMap K V) : Nat :=
  map.table.population

def isEmpty (map : HashMap K V) : Bool :=
  map.table.isEmpty

def toList (map : HashMap K V) : List (K × V) :=
  map.table.toList

def outline [Shown K] [Shown V] (map : HashMap K V) : Outline :=
  .members (map.toList.map fun (key, value) => .entry (Shown.outline key) (Shown.outline value))

def json [Key K] [Shown V] (map : HashMap K V) : Json :=
  .object (map.toList.map fun (key, value) => (Key.fieldName key, Shown.json value))

def clear (map : HashMap K V) : HashMap K V :=
  { map with table := map.table.clear }

def reserve (memory : Memory) (map : HashMap K V) (additional : Nat) :
    Except TableError (HashMap K V) :=
  (map.table.reserve memory additional).map fun table => { map with table }

/-- Offers every pair once; the offer returns the value to keep, or nothing to take the pair out. -/
def retain {σ : Type} (offer : σ → K → V → Option V × σ) (state : σ) (map : HashMap K V) :
    Except TableError (σ × HashMap K V) :=
  let offerPair (state : σ) (pair : K × V) : Option (K × V) × σ :=
    let (kept, state) := offer state pair.1 pair.2
    (kept.map fun value => (pair.1, value), state)
  (map.table.retain offerPair state).map fun (state, table) => (state, { map with table })

def changeValue (change : V → V) (pair : K × V) : K × V :=
  (pair.1, change pair.2)

section Lookup

variable [BEq K]

/-- The stored key and its value. -/
def getEntry? (map : HashMap K V) (key : K) : Except TableError (Option (K × V)) :=
  map.table.find (map.hash key) fun pair => pair.1 == key

def get? (map : HashMap K V) (key : K) : Except TableError (Option V) := do
  return (← map.getEntry? key).map Prod.snd

def modify (map : HashMap K V) (key : K) (change : V → V) :
    Except TableError (Option V × HashMap K V) := do
  let (pair, table) ←
    map.table.findModify (map.hash key) (fun pair => pair.1 == key) (changeValue change)
  return (pair.map Prod.snd, { map with table })

def lookup (map : HashMap K V) (key : K) : Except TableError V := do
  match ← map.get? key with
  | some value => return value
  | none => throw .keyNotFound

def lookupModify (map : HashMap K V) (key : K) (change : V → V) :
    Except TableError (V × HashMap K V) := do
  match ← map.modify key change with
  | (some value, map) => return (value, map)
  | (none, _) => throw .keyNotFound

def contains (map : HashMap K V) (key : K) : Except TableError Bool := do
  return (← map.getEntry? key).isSome

def removeEntry (map : HashMap K V) (key : K) :
    Except TableError (Option (K × V) × HashMap K V) := do
  let (pair, table) ← map.table.remove (map.hash key) fun pair => pair.1 == key
  return (pair, { map with table })

def remove (map : HashMap K V) (key : K) : Except TableError (Option V × HashMap K V) := do
  let (pair, map) ← map.removeEntry key
  return (pair.map Prod.snd, map)

def erase (map : HashMap K V) (key : K) : Except TableError (Nat × HashMap K V) := do
  let (pair, map) ← map.removeEntry key
  return (if pair.isSome then 1 else 0, map)

/-- Whether two maps, each under its own hash function, have the same keys with the same values. -/
def equals [BEq V] (map other : HashMap K V) : Except TableError Bool :=
  if map.size ≠ other.size then .ok false
  else map.toList.allM fun (key, value) => do return (← other.get? key) == some value

end Lookup

end HashMap

end RobinHood
