import RobinHood.Key
import RobinHood.Table.Drain
import RobinHood.Table.Entry
import RobinHood.Table.Retain
import RobinHood.Table.Walk

/-! A hash set is a table of values with a hash function. Of equal values the one stored first
stays, unless it is replaced. -/

namespace RobinHood

structure HashSet (T : Type) where
  table : Table T
  hash : T → UInt64

namespace HashSet

variable {T : Type}

def withHasher (hash : T → UInt64) : HashSet T :=
  { table := .empty, hash }

def withCapacity (memory : Memory) (capacity : Nat) (hash : T → UInt64) :
    Except TableError (HashSet T) :=
  (Table.withCapacity memory capacity).map fun table => { table, hash }

def size (set : HashSet T) : Nat :=
  set.table.population

def isEmpty (set : HashSet T) : Bool :=
  set.table.isEmpty

def toList (set : HashSet T) : List T :=
  set.table.toList

def outline [Shown T] (set : HashSet T) : Outline :=
  .members (set.toList.map Shown.outline)

def json [Shown T] (set : HashSet T) : Json :=
  .array (set.toList.map Shown.json)

def clear (set : HashSet T) : HashSet T :=
  { set with table := set.table.clear }

def reserve (memory : Memory) (set : HashSet T) (additional : Nat) :
    Except TableError (HashSet T) :=
  (set.table.reserve memory additional).map fun table => { set with table }

def retain {σ : Type} (keep : σ → T → Bool × σ) (state : σ) (set : HashSet T) :
    Except TableError (σ × HashSet T) :=
  let offer (state : σ) (value : T) : Option T × σ :=
    let (kept, state) := keep state value
    (if kept then some value else none, state)
  (set.table.retain offer state).map fun (state, table) => (state, { set with table })

section Membership

variable [BEq T]

def entry (memory : Memory) (set : HashSet T) (value : T) : Except TableError (Table.Entry T) :=
  set.table.entry memory (set.hash value) (· == value)

/-- Adds a value unless an equal one is there; says whether it did. -/
def insert (memory : Memory) (set : HashSet T) (value : T) :
    Except TableError (Bool × HashSet T) := do
  match ← set.entry memory value with
  | .occupied place => return (false, { set with table := place.table })
  | .vacant place =>
      let place ← place.insert value
      return (true, { set with table := place.table })

/-- Stores a value in place of an equal one, which is given back. -/
def replace (memory : Memory) (set : HashSet T) (value : T) :
    Except TableError (Option T × HashSet T) := do
  match ← set.entry memory value with
  | .occupied place =>
      let (old, place) ← place.replace value
      return (some old, { set with table := place.table })
  | .vacant place =>
      let place ← place.insert value
      return (none, { set with table := place.table })

def get? (set : HashSet T) (value : T) : Except TableError (Option T) :=
  set.table.find (set.hash value) (· == value)

def contains (set : HashSet T) (value : T) : Except TableError Bool := do
  return (← set.get? value).isSome

def take (set : HashSet T) (value : T) : Except TableError (Option T × HashSet T) := do
  let (member, table) ← set.table.remove (set.hash value) (· == value)
  return (member, { set with table })

def remove (set : HashSet T) (value : T) : Except TableError (Bool × HashSet T) := do
  let (member, set) ← set.take value
  return (member.isSome, set)

def erase (set : HashSet T) (value : T) : Except TableError (Nat × HashSet T) := do
  let (removed, set) ← set.remove value
  return (if removed then 1 else 0, set)

def insertAll (memory : Memory) (set : HashSet T) (values : List T) :
    Except TableError (HashSet T) :=
  values.foldlM (fun set value => (set.insert memory value).map Prod.snd) set

/-- Inserts values one after the other. A source announces how many it has at least; room is made
for all of them in an empty set, and for half of them, as values may repeat, in any other. -/
def extend (memory : Memory) (set : HashSet T) (announced : Nat) (values : List T) :
    Except TableError (HashSet T) := do
  let additional := if set.isEmpty then announced else (announced + 1) / 2
  let set ← set.reserve memory additional
  set.insertAll memory values

def ofList (memory : Memory) (hash : T → UInt64) (announced : Nat) (values : List T) :
    Except TableError (HashSet T) :=
  (withHasher hash).extend memory announced values

end Membership

end HashSet

end RobinHood
