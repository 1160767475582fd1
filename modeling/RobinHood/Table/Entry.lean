import RobinHood.Table.Growth
import RobinHood.Table.Probe

/-! Entries: the place of a hash in a table, vacant or occupied, found once and then filled,
changed or emptied without another walk. -/

namespace RobinHood

namespace Table

variable {α : Type}

structure Occupied (α : Type) where
  table : Table α
  index : Nat

structure Vacant (α : Type) where
  table : Table α
  hash : UInt64
  index : Nat

inductive Entry (α : Type) where
  | vacant (place : Vacant α)
  | occupied (place : Occupied α)

namespace Occupied

def get (place : Occupied α) : Except TableError α :=
  match place.table.slot place.index with
  | some cell => .ok cell.value
  | none => .error (.broken (.slotEmpty place.index))

def modify (place : Occupied α) (change : α → α) : Except TableError (Occupied α) := do
  let _ ← place.get
  return { place with table := place.table.modifyAt place.index change }

def replace (place : Occupied α) (value : α) : Except TableError (α × Occupied α) := do
  let old ← place.get
  return (old, { place with table := place.table.modifyAt place.index fun _ => value })

def remove (place : Occupied α) : Except TableError (α × Table α) :=
  place.table.removeAt place.index

end Occupied

def Vacant.insert (place : Vacant α) (value : α) : Except TableError (Occupied α) := do
  let table ← place.table.insertAt place.index place.hash value
  return { table, index := place.index }

/-- Finds the entry of a raw hash. The table grows first if it is at its trigger, whether or not
the value turns out to be there. -/
def entry (memory : Memory) (table : Table α) (raw : UInt64) (accept : α → Bool) :
    Except TableError (Entry α) := do
  let table ← table.growIfFull memory
  match ← table.probe (storedHash raw) accept with
  | .found index _ => return .occupied { table, index }
  | .vacant index _ => return .vacant { table, hash := storedHash raw, index }

def remove (table : Table α) (raw : UInt64) (accept : α → Bool) :
    Except TableError (Option α × Table α) := do
  match ← table.findIndex raw accept with
  | none => return (none, table)
  | some index =>
      let (value, table) ← table.removeAt index
      return (some value, table)

namespace Entry

def table : Entry α → Table α
  | vacant place => place.table
  | occupied place => place.table

def insertIfVacant (entry : Entry α) (value : α) : Except TableError (Occupied α) :=
  match entry with
  | vacant place => place.insert value
  | occupied place => .ok place

/-- Makes the value to insert only if the place is vacant; `make` may use and change a state. -/
def insertIfVacantWith {σ : Type} (entry : Entry α) (make : σ → α × σ) (state : σ) :
    Except TableError (Occupied α × σ) :=
  match entry with
  | vacant place =>
      let (value, state) := make state
      (place.insert value).map fun place => (place, state)
  | occupied place => .ok (place, state)

def insertDefaultIfVacant [Inhabited α] (entry : Entry α) : Except TableError (Occupied α) :=
  entry.insertIfVacant default

def modifyIfOccupied (entry : Entry α) (change : α → α) : Except TableError (Entry α) :=
  match entry with
  | vacant place => .ok (vacant place)
  | occupied place => (place.modify change).map occupied

end Entry

end Table

end RobinHood
