import RobinHood.HashSet.Algebra
import RobinHood.Proofs.Guarded.Maps
import RobinHood.Proofs.SetRuns

/-!
Calls on sets step by step: the commands on one set, and what is asked of two.
-/

namespace RobinHood

variable {T σ : Type}

namespace Guarded.HashSet

noncomputable section

open RobinHood.HashSet (Answer)

def withCapacity (memory : Memory) (capacity : Nat) (hash : T → UInt64) : Guarded (HashSet T) := do
  return { table := ← Guarded.withCapacity memory capacity, hash }

def reserve (memory : Memory) (set : HashSet T) (additional : Nat) : Guarded (HashSet T) := do
  return { set with table := ← Guarded.reserve memory set.table additional }

def retain (keep : σ → T → Bool × σ) (state : σ) (set : HashSet T) :
    Guarded (σ × HashSet T) := do
  let offer (state : σ) (value : T) : Option T × σ :=
    let (kept, state) := keep state value
    (if kept then some value else none, state)
  let (state, table) ← Guarded.retain offer state set.table
  return (state, { set with table })

variable [BEq T]

def entry (memory : Memory) (set : HashSet T) (value : T) : Guarded (Table.Entry T) :=
  Guarded.entry memory set.table (set.hash value) (· == value)

def insert (memory : Memory) (set : HashSet T) (value : T) : Guarded (Bool × HashSet T) := do
  match ← entry memory set value with
  | .occupied place => return (false, { set with table := place.table })
  | .vacant place =>
      let place ← Vacant.insert place value
      return (true, { set with table := place.table })

def replace (memory : Memory) (set : HashSet T) (value : T) :
    Guarded (Option T × HashSet T) := do
  match ← entry memory set value with
  | .occupied place =>
      let (old, place) ← Occupied.replace place value
      return (some old, { set with table := place.table })
  | .vacant place =>
      let place ← Vacant.insert place value
      return (none, { set with table := place.table })

def get? (set : HashSet T) (value : T) : Guarded (Option T) :=
  find set.table (set.hash value) (· == value)

def contains (set : HashSet T) (value : T) : Guarded Bool := do
  return (← get? set value).isSome

def take (set : HashSet T) (value : T) : Guarded (Option T × HashSet T) := do
  let (member, table) ← Guarded.remove set.table (set.hash value) (· == value)
  return (member, { set with table })

def remove (set : HashSet T) (value : T) : Guarded (Bool × HashSet T) := do
  let (member, set) ← take set value
  return (member.isSome, set)

def erase (set : HashSet T) (value : T) : Guarded (Nat × HashSet T) := do
  let (removed, set) ← remove set value
  return (if removed then 1 else 0, set)

def insertAll (memory : Memory) (set : HashSet T) (values : List T) : Guarded (HashSet T) :=
  values.foldlM (fun set value => do return (← insert memory set value).2) set

def extend (memory : Memory) (set : HashSet T) (announced : UInt64) (values : List T) :
    Guarded (HashSet T) := do
  let set ← reserve memory set (← room set.table announced)
  insertAll memory set values

def ofList (memory : Memory) (hash : T → UInt64) (announced : UInt64) (values : List T) :
    Guarded (HashSet T) :=
  extend memory (HashSet.withHasher hash) announced values

def fill (memory : Memory) (hash : T → UInt64) (source : Source T) : Guarded (HashSet T) := do
  insertAll memory (← withCapacity memory source.initialCapacity hash) source.items

def Command.run (memory : Memory) (set : HashSet T) (state : σ) :
    HashSet.Command T σ → Guarded (Answer T × σ × HashSet T)
  | .insert value => do
      let (isNew, set) ← insert memory set value
      return (.flag isNew, state, set)
  | .replace value => do
      let (old, set) ← replace memory set value
      return (.member old, state, set)
  | .get value => return (.member (← get? set value), state, set)
  | .contains value => return (.flag (← contains set value), state, set)
  | .take value => do
      let (member, set) ← take set value
      return (.member member, state, set)
  | .remove value => do
      let (removed, set) ← remove set value
      return (.flag removed, state, set)
  | .erase value => do
      let (number, set) ← erase set value
      return (.count number, state, set)
  | .retain keep => do
      let (state, set) ← retain keep state set
      return (.done, state, set)
  | .clear => return (.done, state, set.clear)
  | .reserve additional => return (.done, state, ← reserve memory set additional)
  | .extend announced values =>
      return (.done, state, ← extend memory set (.ofNat announced) values)
  | .size => return (.count set.size, state, set)
  | .members side =>
      return (.members (← exhaust (Walk.step · side) set.table.walk).1, state, set)

/-! What is asked of two sets goes over all values of one. -/

def difference (set other : HashSet T) : Guarded (List T) := do
  (← values set.table).filterM fun value => do return !(← contains other value)

def intersection (set other : HashSet T) : Guarded (List T) := do
  if set.size ≤ other.size then (← values set.table).filterM (contains other)
  else (← values other.table).filterM (contains set)

def union (set other : HashSet T) : Guarded (List T) := do
  return (← values set.table) ++ (← difference other set)

def symmetricDifference (set other : HashSet T) : Guarded (List T) := do
  return (← difference set other) ++ (← difference other set)

def isDisjoint (set other : HashSet T) : Guarded Bool := do
  if set.size ≤ other.size then
    (← values set.table).allM fun value => do return !(← contains other value)
  else (← values other.table).allM fun value => do return !(← contains set value)

def isSubset (set other : HashSet T) : Guarded Bool := do
  if set.size ≤ other.size then (← values set.table).allM (contains other) else return false

def equals (set other : HashSet T) : Guarded Bool := do
  if set.size ≠ other.size then return false
  else (← values set.table).allM (contains other)

end

end Guarded.HashSet

namespace HashSet

open Guarded

variable {set other : HashSet T}

theorem withCapacity_follows (memory : Memory) (capacity : Nat) (hash : T → UInt64) :
    Follows memory.Refusal (fun set => set.table.Safe)
      (Guarded.HashSet.withCapacity memory capacity hash) (withCapacity memory capacity hash) :=
  (Table.withCapacity_follows memory capacity).map fun _ safe => safe

theorem reserve_follows (safe : set.table.Safe) (memory : Memory) (additional : Nat) :
    Follows memory.Refusal (fun set => set.table.Safe)
      (Guarded.HashSet.reserve memory set additional) (set.reserve memory additional) :=
  (safe.reserve_follows memory additional).map fun _ reserved => reserved

theorem retain_follows (safe : set.table.Safe) (keep : σ → T → Bool × σ) (state : σ) :
    Follows Never (fun answer => answer.2.table.Safe)
      (Guarded.HashSet.retain keep state set) (set.retain keep state) :=
  (safe.retain_follows _ state).map fun _ after => after

variable [BEq T]

theorem insert_follows (safe : set.table.Safe) (memory : Memory) (value : T) :
    Follows memory.Refusal (fun answer => answer.2.table.Safe)
      (Guarded.HashSet.insert memory set value) (set.insert memory value) := by
  refine (safe.entry_follows memory _ _).bind ?_
  intro found firm
  refine Follows.never ?_
  cases found with
  | vacant place =>
      exact (Table.Vacant.Firm.insert_follows firm value).bind fun _ placed => .answer placed.safe
  | occupied place => exact .answer firm.safe

theorem replace_follows (safe : set.table.Safe) (memory : Memory) (value : T) :
    Follows memory.Refusal (fun answer => answer.2.table.Safe)
      (Guarded.HashSet.replace memory set value) (set.replace memory value) := by
  refine (safe.entry_follows memory _ _).bind ?_
  intro found firm
  refine Follows.never ?_
  cases found with
  | vacant place =>
      exact (Table.Vacant.Firm.insert_follows firm value).bind fun _ placed => .answer placed.safe
  | occupied place =>
      exact (Table.Occupied.Firm.replace_follows firm value).bind fun _ after =>
        .answer after.safe

theorem get?_follows (safe : set.table.Safe) (value : T) :
    Follows Never (fun _ => True) (Guarded.HashSet.get? set value) (set.get? value) :=
  safe.find_follows _ _

theorem contains_follows (safe : set.table.Safe) (value : T) :
    Follows Never (fun _ => True) (Guarded.HashSet.contains set value) (set.contains value) :=
  (get?_follows safe value).bind fun _ _ => .answer trivial

theorem take_follows (safe : set.table.Safe) (value : T) :
    Follows Never (fun answer => answer.2.table.Safe)
      (Guarded.HashSet.take set value) (set.take value) :=
  (safe.remove_follows _ _).bind fun _ after => .answer after

theorem remove_follows (safe : set.table.Safe) (value : T) :
    Follows Never (fun answer => answer.2.table.Safe)
      (Guarded.HashSet.remove set value) (set.remove value) :=
  (take_follows safe value).bind fun _ after => .answer after

theorem erase_follows (safe : set.table.Safe) (value : T) :
    Follows Never (fun answer => answer.2.table.Safe)
      (Guarded.HashSet.erase set value) (set.erase value) :=
  (remove_follows safe value).bind fun _ after => .answer after

theorem insertAll_follows (safe : set.table.Safe) (memory : Memory) (values : List T) :
    Follows memory.Refusal (fun set => set.table.Safe)
      (Guarded.HashSet.insertAll memory set values) (set.insertAll memory values) := by
  refine .foldlM ?_ values safe
  intro set value safe
  exact (insert_follows safe memory value).map fun _ after => after

theorem extend_follows (safe : set.table.Safe) (memory : Memory) (announced : UInt64)
    (values : List T) :
    Follows memory.Refusal (fun set => set.table.Safe)
      (Guarded.HashSet.extend memory set announced values)
      (set.extend memory announced.toNat values) := by
  rw [Guarded.HashSet.extend, room_eq, pure_bind]
  exact (reserve_follows safe memory _).bind fun _ reserved =>
    insertAll_follows reserved memory values

theorem ofList_follows (memory : Memory) (hash : T → UInt64) (announced : UInt64)
    (values : List T) :
    Follows memory.Refusal (fun set => set.table.Safe)
      (Guarded.HashSet.ofList memory hash announced values)
      (ofList memory hash announced.toNat values) :=
  extend_follows Table.safe_empty memory announced values

def fill (memory : Memory) (hash : T → UInt64) (source : Source T) :
    Except TableError (HashSet T) := do
  (← withCapacity memory source.initialCapacity hash).insertAll memory source.items

theorem load_eq (memory : Memory) (hash : T → UInt64) (source : Source T) :
    load memory hash source = (fill memory hash source).mapError .table >>= source.finish := by
  rw [load_eq_kind]
  exact kind.load_eq memory (withHasher hash) source

theorem fill_follows (memory : Memory) (hash : T → UInt64) (source : Source T) :
    Follows memory.Refusal (fun set => set.table.Safe)
      (Guarded.HashSet.fill memory hash source) (fill memory hash source) :=
  (withCapacity_follows memory source.initialCapacity hash).bind fun _ safe =>
    insertAll_follows safe memory source.items

def Command.asks : Command T σ → Bool
  | .insert .. | .replace .. | .reserve .. | .extend .. => true
  | _ => false

/-- What a source announces is a word. -/
def Command.Announces : Command T σ → Prop
  | .extend announced _ => announced < 2 ^ 64
  | _ => True

theorem Command.run_follows (command : Command T σ) (announces : command.Announces)
    (safe : set.table.Safe) (memory : Memory) (state : σ) :
    Follows (fun error => command.asks = true ∧ memory.Refusal error)
      (fun answer => answer.2.2.table.Safe)
      (Guarded.HashSet.Command.run memory set state command) (command.run memory set state) := by
  cases command with
  | insert value =>
      exact ((insert_follows safe memory value).asked rfl).bind fun _ after => .answer after
  | replace value =>
      exact ((replace_follows safe memory value).asked rfl).bind fun _ after => .answer after
  | reserve additional =>
      exact ((reserve_follows safe memory additional).asked rfl).bind fun _ after =>
        .answer after
  | extend announced values =>
      have word : (UInt64.ofNat announced).toNat = announced := UInt64.toNat_ofNat_of_lt' announces
      have follows := extend_follows safe memory (.ofNat announced) values
      rw [word] at follows
      exact (follows.asked rfl).bind fun _ after => .answer after
  | get value => exact (get?_follows safe value).never.bind fun _ _ => .answer safe
  | contains value => exact (contains_follows safe value).never.bind fun _ _ => .answer safe
  | take value => exact (take_follows safe value).never.bind fun _ after => .answer after
  | remove value => exact (remove_follows safe value).never.bind fun _ after => .answer after
  | erase value => exact (erase_follows safe value).never.bind fun _ after => .answer after
  | retain keep => exact (retain_follows safe keep state).never.bind fun _ after => .answer after
  | members side =>
      have odd : Table.OddSlots set.table.walk.slots := safe.oddSlots
      have walked := (Table.Walk.rest_follows odd side).eq_of_ok rfl
      rw [Guarded.HashSet.Command.run, walked.1, pure_bind]
      exact .answer safe
  | clear => exact .answer safe.clear
  | size => exact .answer safe

theorem difference_follows (safe : set.table.Safe) (otherSafe : other.table.Safe) :
    Follows Never (fun _ => True) (Guarded.HashSet.difference set other)
      (set.difference other) := by
  rw [Guarded.HashSet.difference, safe.values_eq, pure_bind]
  refine Follows.filterM ?_ set.table.toList
  intro value
  exact (contains_follows otherSafe value).bind fun _ _ => .answer trivial

theorem intersection_follows (safe : set.table.Safe) (otherSafe : other.table.Safe) :
    Follows Never (fun _ => True) (Guarded.HashSet.intersection set other)
      (set.intersection other) := by
  rw [Guarded.HashSet.intersection, intersection, safe.values_eq, otherSafe.values_eq]
  split
  · exact Follows.filterM (contains_follows otherSafe) set.table.toList
  · exact Follows.filterM (contains_follows safe) other.table.toList

theorem union_follows (safe : set.table.Safe) (otherSafe : other.table.Safe) :
    Follows Never (fun _ => True) (Guarded.HashSet.union set other) (set.union other) := by
  rw [Guarded.HashSet.union, safe.values_eq, pure_bind]
  exact (difference_follows otherSafe safe).bind fun _ _ => .answer trivial

theorem symmetricDifference_follows (safe : set.table.Safe) (otherSafe : other.table.Safe) :
    Follows Never (fun _ => True) (Guarded.HashSet.symmetricDifference set other)
      (set.symmetricDifference other) :=
  (difference_follows safe otherSafe).bind fun _ _ =>
    (difference_follows otherSafe safe).bind fun _ _ => .answer trivial

theorem isDisjoint_follows (safe : set.table.Safe) (otherSafe : other.table.Safe) :
    Follows Never (fun _ => True) (Guarded.HashSet.isDisjoint set other)
      (set.isDisjoint other) := by
  have lacks {asked : HashSet T} (askedSafe : asked.table.Safe) (value : T) :
      Follows Never (fun _ => True) (do return !(← Guarded.HashSet.contains asked value))
        (do return !(← asked.contains value)) :=
    (contains_follows askedSafe value).bind fun _ _ => .answer trivial
  rw [Guarded.HashSet.isDisjoint, isDisjoint, safe.values_eq, otherSafe.values_eq]
  split
  · exact Follows.allM (lacks otherSafe) set.table.toList
  · exact Follows.allM (lacks safe) other.table.toList

theorem isSubset_follows (safe : set.table.Safe) (otherSafe : other.table.Safe) :
    Follows Never (fun _ => True) (Guarded.HashSet.isSubset set other) (set.isSubset other) := by
  rw [Guarded.HashSet.isSubset, isSubset, safe.values_eq]
  split
  · exact Follows.allM (contains_follows otherSafe) set.table.toList
  · exact .answer trivial

theorem equals_follows (safe : set.table.Safe) (otherSafe : other.table.Safe) :
    Follows Never (fun _ => True) (Guarded.HashSet.equals set other) (set.equals other) := by
  rw [Guarded.HashSet.equals, equals, safe.values_eq]
  split
  · exact .answer trivial
  · exact Follows.allM (contains_follows otherSafe) set.table.toList

end HashSet

end RobinHood
