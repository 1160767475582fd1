import RobinHood.Proofs.MapCalls

/-!
Whole runs of calls on a hash map, and the same runs on a finite map. A reference to a value is read
once and then written through; the calls that take a closure thread one state through the run.
-/

namespace RobinHood

namespace HashMap

inductive OccupiedUse (V : Type) where
  | leave
  | remove
  | removeEntry
  | key (rest : OccupiedUse V)
  | get (rest : OccupiedUse V)
  | modify (change : V → V) (rest : OccupiedUse V)
  | replace (value : V) (rest : OccupiedUse V)

inductive VacantUse (V : Type) where
  | leave
  | key (rest : VacantUse V)
  | insert (value : V) (change : V → V)

inductive EntryUse (K V σ : Type) where
  | key (rest : EntryUse K V σ)
  | modifyIfOccupied (change : V → V) (rest : EntryUse K V σ)
  | insertIfVacant (value : V) (change : V → V)
  | insertIfVacantWith (make : σ → V × σ) (change : V → V)
  | insertIfVacantWithKey (make : K → σ → V × σ) (change : V → V)
  | insertDefaultIfVacant (change : V → V)
  | split (occupied : OccupiedUse V) (vacant : VacantUse V)

inductive Command (K V σ : Type) where
  | insert (key : K) (value : V)
  | insertIfNew (key : K) (value : V) (change : V → V)
  | insertIfNewWith (key : K) (make : σ → V × σ) (change : V → V)
  | assign (key : K) (value : V) (change : V → V)
  | getOrInsertDefault (key : K) (change : V → V)
  | get (key : K)
  | getEntry (key : K)
  | modify (key : K) (change : V → V)
  | lookup (key : K)
  | lookupModify (key : K) (change : V → V)
  | contains (key : K)
  | remove (key : K)
  | removeEntry (key : K)
  | erase (key : K)
  | entry (key : K) (use : EntryUse K V σ)
  | retain (offer : σ → K → V → Option V × σ)
  | clear
  | reserve (additional : Nat)
  | size

inductive Answer (K V : Type) where
  | key (key : Option K)
  | value (value : Option V)
  | pair (pair : Option (K × V))
  | stored (value : Option V) (isNew : Bool)
  | lookedUp (value : Except TableError V)
  | flag (holds : Bool)
  | count (number : Nat)

variable {K V σ : Type}

def Occupied.lend (place : Occupied K V) (change : V → V) :
    Except TableError (V × HashMap K V) := do
  let value ← place.get
  return (value, (← place.modify change).toMap)

def OccupiedUse.run (place : Occupied K V) :
    OccupiedUse V → Except TableError (List (Answer K V) × HashMap K V)
  | leave => return ([], place.toMap)
  | remove => do
      let (value, map) ← place.remove
      return ([.value (some value)], map)
  | removeEntry => do
      let (pair, map) ← place.removeEntry
      return ([.pair (some pair)], map)
  | key rest => do
      let key ← place.key
      let (answers, map) ← rest.run place
      return (.key (some key) :: answers, map)
  | get rest => do
      let value ← place.get
      let (answers, map) ← rest.run place
      return (.value (some value) :: answers, map)
  | modify change rest => do rest.run (← place.modify change)
  | replace value rest => do
      let (old, place) ← place.replace value
      let (answers, map) ← rest.run place
      return (.value (some old) :: answers, map)

def VacantUse.run (place : Vacant K V) :
    VacantUse V → Except TableError (List (Answer K V) × HashMap K V)
  | leave => return ([], (Entry.vacant place).toMap)
  | key rest => do
      let (answers, map) ← rest.run place
      return (.key (some place.key) :: answers, map)
  | insert value change => do
      let (stored, map) ← (← place.insert value).lend change
      return ([.value (some stored)], map)

def EntryUse.run [Inhabited V] (entry : Entry K V) (state : σ) :
    EntryUse K V σ → Except TableError (List (Answer K V) × σ × HashMap K V)
  | key rest => do
      let key ← entry.key
      let (answers, last) ← rest.run entry state
      return (.key (some key) :: answers, last)
  | modifyIfOccupied change rest => do rest.run (← entry.modifyIfOccupied change) state
  | insertIfVacant value change => do
      let (stored, map) ← (← entry.insertIfVacant value).lend change
      return ([.value (some stored)], state, map)
  | insertIfVacantWith make change => do
      let (place, state) ← entry.insertIfVacantWith make state
      let (stored, map) ← place.lend change
      return ([.value (some stored)], state, map)
  | insertIfVacantWithKey make change => do
      let (place, state) ← entry.insertIfVacantWithKey make state
      let (stored, map) ← place.lend change
      return ([.value (some stored)], state, map)
  | insertDefaultIfVacant change => do
      let (stored, map) ← (← entry.insertDefaultIfVacant).lend change
      return ([.value (some stored)], state, map)
  | split occupied vacant => do
      let (answers, map) ←
        match entry with
        | .occupied place => occupied.run place
        | .vacant place => vacant.run place
      return (answers, state, map)

/-- That a key is missing is an answer; any other error ends a run. -/
def answered {α : Type} : Except TableError α → Except TableError (Except TableError α)
  | .ok result => .ok (.ok result)
  | .error .keyNotFound => .ok (.error .keyNotFound)
  | .error error => .error error

def Command.run [BEq K] [Inhabited V] (memory : Memory) (map : HashMap K V) (state : σ) :
    Command K V σ → Except TableError (List (Answer K V) × σ × HashMap K V)
  | insert key value => do
      let (old, map) ← map.insert memory key value
      return ([.value old], state, map)
  | insertIfNew key value change => do
      let (place, isNew) ← map.insertIfNew memory key value
      let (stored, map) ← place.lend change
      return ([.stored (some stored) isNew], state, map)
  | insertIfNewWith key make change => do
      let (place, isNew, state) ← map.insertIfNewWith memory key make state
      let (stored, map) ← place.lend change
      return ([.stored (some stored) isNew], state, map)
  | assign key value change => do
      let (place, isNew) ← map.assign memory key value
      let (stored, map) ← place.lend change
      return ([.stored (some stored) isNew], state, map)
  | getOrInsertDefault key change => do
      let (stored, map) ← (← map.getOrInsertDefault memory key).lend change
      return ([.value (some stored)], state, map)
  | get key => return ([.value (← map.get? key)], state, map)
  | getEntry key => return ([.pair (← map.getEntry? key)], state, map)
  | modify key change => do
      let (value, map) ← map.modify key change
      return ([.value value], state, map)
  | lookup key => return ([.lookedUp (← answered (map.lookup key))], state, map)
  | lookupModify key change => do
      match ← answered (map.lookupModify key change) with
      | .ok (value, map) => return ([.lookedUp (.ok value)], state, map)
      | .error missing => return ([.lookedUp (.error missing)], state, map)
  | contains key => return ([.flag (← map.contains key)], state, map)
  | remove key => do
      let (value, map) ← map.remove key
      return ([.value value], state, map)
  | removeEntry key => do
      let (pair, map) ← map.removeEntry key
      return ([.pair pair], state, map)
  | erase key => do
      let (number, map) ← map.erase key
      return ([.count number], state, map)
  | entry key use => do use.run (← map.entry memory key) state
  | retain offer => do
      let (state, map) ← map.retain offer state
      return ([], state, map)
  | clear => return ([], state, map.clear)
  | reserve additional => return ([], state, ← map.reserve memory additional)
  | size => return ([.count map.size], state, map)

def runAll [BEq K] [Inhabited V] (memory : Memory) (map : HashMap K V) (state : σ) :
    List (Command K V σ) → Except TableError (List (List (Answer K V)) × σ × HashMap K V)
  | [] => return ([], state, map)
  | command :: rest => do
      let (answers, state, map) ← command.run memory map state
      let (others, last) ← runAll memory map state rest
      return (answers :: others, last)

/-- For how many values a command may ask for room, beyond one. -/
def Command.demand : Command K V σ → Nat
  | .reserve additional => additional
  | _ => 0

def demand : List (Command K V σ) → Nat
  | [] => 0
  | command :: rest => command.demand + 1 + demand rest

/-! The same on a finite map, where nothing can fail. -/

variable [BEq K] [EquivBEq K]

def OccupiedUse.runOn (key : K) (map : FiniteMap K V) :
    OccupiedUse V → List (Answer K V) × FiniteMap K V
  | .leave => ([], map)
  | .remove => ([.value (map.get? key)], map.without key)
  | .removeEntry => ([.pair (map.find? key)], map.without key)
  | .key rest =>
      let (answers, last) := rest.runOn key map
      (.key ((map.find? key).map Prod.fst) :: answers, last)
  | .get rest =>
      let (answers, last) := rest.runOn key map
      (.value (map.get? key) :: answers, last)
  | .modify change rest => rest.runOn key (map.changeAt key change)
  | .replace value rest =>
      let (answers, last) := rest.runOn key (map.changeAt key fun _ => value)
      (.value (map.get? key) :: answers, last)

def VacantUse.runOn (key : K) (map : FiniteMap K V) :
    VacantUse V → List (Answer K V) × FiniteMap K V
  | .leave => ([], map)
  | .key rest =>
      let (answers, last) := rest.runOn key map
      (.key (some key) :: answers, last)
  | .insert value change => ([.value (some value)], (map.insertIfNew key value).changeAt key change)

def EntryUse.runOn [Inhabited V] (key : K) (map : FiniteMap K V) (state : σ) :
    EntryUse K V σ → List (Answer K V) × σ × FiniteMap K V
  | .key rest =>
      let (answers, last) := rest.runOn key map state
      (.key (some (((map.find? key).map Prod.fst).getD key)) :: answers, last)
  | .modifyIfOccupied change rest => rest.runOn key (map.changeAt key change) state
  | .insertIfVacant value change =>
      let stored := map.insertIfNew key value
      ([.value (stored.get? key)], state, stored.changeAt key change)
  | .insertIfVacantWith make change =>
      let (stored, state) := map.insertIfNewWith key make state
      ([.value (stored.get? key)], state, stored.changeAt key change)
  | .insertIfVacantWithKey make change =>
      let (stored, state) := map.insertIfNewWith key (make key) state
      ([.value (stored.get? key)], state, stored.changeAt key change)
  | .insertDefaultIfVacant change =>
      let stored := map.insertIfNew key default
      ([.value (stored.get? key)], state, stored.changeAt key change)
  | .split occupied vacant =>
      let (answers, last) :=
        match map.find? key with
        | some _ => occupied.runOn key map
        | none => vacant.runOn key map
      (answers, state, last)

def Command.runOn [Inhabited V] (map : FiniteMap K V) (state : σ) :
    Command K V σ → List (Answer K V) × σ × FiniteMap K V
  | .insert key value => ([.value (map.get? key)], state, map.assign key value)
  | .insertIfNew key value change =>
      let stored := map.insertIfNew key value
      ([.stored (stored.get? key) (map.find? key).isNone], state, stored.changeAt key change)
  | .insertIfNewWith key make change =>
      let (stored, state) := map.insertIfNewWith key make state
      ([.stored (stored.get? key) (map.find? key).isNone], state, stored.changeAt key change)
  | .assign key value change =>
      let stored := map.assign key value
      ([.stored (stored.get? key) (map.find? key).isNone], state, stored.changeAt key change)
  | .getOrInsertDefault key change =>
      let stored := map.insertIfNew key default
      ([.value (stored.get? key)], state, stored.changeAt key change)
  | .get key => ([.value (map.get? key)], state, map)
  | .getEntry key => ([.pair (map.find? key)], state, map)
  | .modify key change =>
      ([.value ((map.get? key).map change)], state, map.changeAt key change)
  | .lookup key => ([.lookedUp (map.lookup key)], state, map)
  | .lookupModify key change =>
      ([.lookedUp ((map.lookup key).map change)], state, map.changeAt key change)
  | .contains key => ([.flag (map.find? key).isSome], state, map)
  | .remove key => ([.value (map.get? key)], state, map.without key)
  | .removeEntry key => ([.pair (map.find? key)], state, map.without key)
  | .erase key =>
      ([.count (if (map.find? key).isSome then 1 else 0)], state, map.without key)
  | .entry key use => use.runOn key map state
  | .retain offer =>
      let (kept, state) := map.keep offer state
      ([], state, kept)
  | .clear => ([], state, FiniteMap.empty)
  | .reserve _ => ([], state, map)
  | .size => ([.count map.size], state, map)

/-- What a command does on a finite map. The order in which pairs are offered is not determined. -/
inductive Step [Inhabited V] (map : FiniteMap K V) (state : σ) :
    Command K V σ → List (Answer K V) × σ × FiniteMap K V → Prop
  | direct (command : Command K V σ) : Step map state command (command.runOn map state)
  | retain (offer : σ → K → V → Option V × σ) (order : List (K × V))
      (same : order.Perm map.entries) :
      Step map state (.retain offer)
        ((Command.retain offer).runOn (map.reorder order same) state)

inductive Runs [Inhabited V] : FiniteMap K V → σ → List (Command K V σ) →
    List (List (Answer K V)) → σ → FiniteMap K V → Prop
  | nil (map : FiniteMap K V) (state : σ) : Runs map state [] [] state map
  | cons {map next last : FiniteMap K V} {state later final : σ} {command : Command K V σ}
      {rest : List (Command K V σ)} {answers : List (Answer K V)}
      {others : List (List (Answer K V))} (step : Step map state command (answers, later, next))
      (runs : Runs next later rest others final last) :
      Runs map state (command :: rest) (answers :: others) final last

end HashMap

end RobinHood
