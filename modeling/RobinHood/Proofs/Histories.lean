import RobinHood.Load.Collect
import RobinHood.Proofs.InPlace
import RobinHood.Proofs.Runs
import RobinHood.Proofs.Commands
import RobinHood.Proofs.SetRuns

/-!
Histories of maps and sets. A caller holds any number of them, each made with a hash function of its
own, copies them, and makes any calls on them; memory may be refused at any time.
-/

namespace RobinHood

variable {C K V T : Type}

/-- How containers of one kind come to be, and what changes them. -/
structure Interface (C : Type) where
  Start : Type
  /-- Nothing is made if memory is refused or the source is at fault. -/
  start : Start → Except TableError (Option C)
  Call : Type 1
  call : C → Call → Except TableError C

inductive Deed (interface : Interface C) : Type 1 where
  | start (how : interface.Start)
  | clone (position : Nat)
  | call (position : Nat) (call : interface.Call)

namespace Interface

variable {interface : Interface C}

def perform (interface : Interface C) (store : List C) :
    Deed interface → Except TableError (List C)
  | .start how => (interface.start how).map fun made => store ++ made.toList
  | .clone position => .ok (store ++ store[position]?.toList)
  | .call position call =>
      match store[position]? with
      | none => .ok store
      | some container => (interface.call container call).map (store.set position)

def performAll (interface : Interface C) (deeds : List (Deed interface)) (store : List C) :
    Except TableError (List C) :=
  deeds.foldlM interface.perform store

/-- A container that some caller holds at some time. -/
def Reachable (interface : Interface C) (container : C) : Prop :=
  ∃ deeds store, interface.performAll deeds [] = .ok store ∧ container ∈ store

/-- No call fails on a container with a property, and each leaves one with the property. -/
structure Preserves (interface : Interface C) (property : C → Prop) : Prop where
  start (how : interface.Start) :
    ∃ made, interface.start how = .ok made ∧ ∀ container ∈ made, property container
  call {container : C} (call : interface.Call) : property container →
    ∃ result, interface.call container call = .ok result ∧ property result

theorem Preserves.perform {property : C → Prop} (preserves : interface.Preserves property)
    (deed : Deed interface) {store : List C} (holds : ∀ container ∈ store, property container) :
    ∃ result, interface.perform store deed = .ok result ∧
      ∀ container ∈ result, property container := by
  cases deed with
  | start how =>
      obtain ⟨made, done, good⟩ := preserves.start how
      refine ⟨store ++ made.toList, by rw [Interface.perform, done]; rfl, ?_⟩
      intro container member
      rcases List.mem_append.mp member with old | new
      · exact holds container old
      · exact good container (Option.mem_toList.mp new)
  | clone position =>
      refine ⟨_, rfl, ?_⟩
      intro container member
      rcases List.mem_append.mp member with old | copy
      · exact holds container old
      · exact holds container (List.mem_of_getElem? (Option.mem_toList.mp copy))
  | call position call =>
      simp only [Interface.perform]
      cases held : store[position]? with
      | none => exact ⟨store, rfl, holds⟩
      | some container =>
          obtain ⟨result, done, good⟩ :=
            preserves.call call (holds container (List.mem_of_getElem? held))
          refine ⟨store.set position result, by simp only [done]; rfl, ?_⟩
          intro member present
          rcases List.mem_or_eq_of_mem_set present with old | new
          · exact holds member old
          · rw [new]
            exact good

theorem Preserves.performAll {property : C → Prop} (preserves : interface.Preserves property)
    (deeds : List (Deed interface)) {store : List C}
    (holds : ∀ container ∈ store, property container) :
    ∃ result, interface.performAll deeds store = .ok result ∧
      ∀ container ∈ result, property container := by
  induction deeds generalizing store with
  | nil => exact ⟨store, rfl, holds⟩
  | cons deed rest ih =>
      obtain ⟨middle, first, good⟩ := preserves.perform deed holds
      obtain ⟨result, later, reached⟩ := ih good
      refine ⟨result, ?_, reached⟩
      rw [Interface.performAll, List.foldlM_cons, first]
      exact later

theorem Preserves.performAll_nil {property : C → Prop} (preserves : interface.Preserves property)
    (deeds : List (Deed interface)) :
    ∃ result, interface.performAll deeds [] = .ok result ∧
      ∀ container ∈ result, property container :=
  preserves.performAll deeds (by simp)

theorem Preserves.of_reachable {property : C → Prop} (preserves : interface.Preserves property)
    {container : C} (reachable : interface.Reachable container) : property container := by
  obtain ⟨deeds, store, done, member⟩ := reachable
  obtain ⟨result, ran, good⟩ := preserves.performAll_nil deeds
  rw [done, Except.ok.injEq] at ran
  exact good container (ran ▸ member)

end Interface

/-- A hash function under which equal keys have equal hashes. -/
structure Hasher (K : Type) [BEq K] where
  hash : K → UInt64
  respects : ∀ {first second : K}, (first == second) = true → hash first = hash second

/-- What is left after a call in place that may be refused memory half way. -/
def InPlace.remains : EStateM.Result TableError (Live C) Unit → Except TableError C
  | .ok _ after => .ok after.held
  | .error error after => Table.unlessRefused after.held (.error error)

namespace HashMap

inductive Start (K V : Type) [BEq K] where
  | withHasher (hasher : Hasher K)
  | withCapacity (hasher : Hasher K) (memory : Memory) (capacity : Nat)
  | ofList (hasher : Hasher K) (memory : Memory) (announced : Nat) (pairs : List (K × V))
  | load (hasher : Hasher K) (memory : Memory) (source : Source (K × V))

inductive Call (K V : Type) : Type 1 where
  | perform {σ : Type} (memory : Memory) (state : σ) (command : Command K V σ)
  | extend (memory : Memory) (announced : Nat) (pairs : List (K × V))
  | changeInPlace (moves : List (Table.Side × (V → V)))
  | drain (taken : Nat) (closed : Bool)

variable [BEq K]

def Start.make : Start K V → Except TableError (Option (HashMap K V))
  | withHasher hasher => .ok (some (HashMap.withHasher hasher.hash))
  | withCapacity hasher memory capacity =>
      Table.unlessRefused none ((HashMap.withCapacity memory capacity hasher.hash).map some)
  | ofList hasher memory announced pairs =>
      Table.unlessRefused none ((HashMap.ofList memory hasher.hash announced pairs).map some)
  | load hasher memory source => .ok (HashMap.load memory hasher.hash source).toOption

def Call.apply [Inhabited V] (map : HashMap K V) : Call K V → Except TableError (HashMap K V)
  | perform memory state command =>
      Table.unlessRefused map ((command.run memory map state).map fun outcome => outcome.2.2)
  | extend memory announced pairs =>
      InPlace.remains ((extendInPlace memory announced pairs).run ⟨map, []⟩)
  | changeInPlace moves =>
      let walk := moves.foldl (fun walk (side, change) => (walk.step side (changeValue change)).2)
        map.table.changingWalk
      .ok { map with table := walk.table }
  | drain taken closed =>
      let drained := (Table.Drain.take taken map.table.drain).2
      .ok { map with table := if closed then drained.close else drained.abandon }

def interface (K V : Type) [BEq K] [Inhabited V] : Interface (HashMap K V) where
  Start := Start K V
  start := Start.make
  Call := Call K V
  call := Call.apply

end HashMap

namespace HashSet

inductive Start (T : Type) [BEq T] where
  | withHasher (hasher : Hasher T)
  | withCapacity (hasher : Hasher T) (memory : Memory) (capacity : Nat)
  | ofList (hasher : Hasher T) (memory : Memory) (announced : Nat) (values : List T)
  | load (hasher : Hasher T) (memory : Memory) (source : Source T)

inductive Call (T : Type) : Type 1 where
  | perform {σ : Type} (memory : Memory) (state : σ) (command : Command T σ)
  | extend (memory : Memory) (announced : Nat) (values : List T)
  | drain (taken : Nat) (closed : Bool)

variable [BEq T]

def Start.make : Start T → Except TableError (Option (HashSet T))
  | withHasher hasher => .ok (some (HashSet.withHasher hasher.hash))
  | withCapacity hasher memory capacity =>
      Table.unlessRefused none ((HashSet.withCapacity memory capacity hasher.hash).map some)
  | ofList hasher memory announced values =>
      Table.unlessRefused none ((HashSet.ofList memory hasher.hash announced values).map some)
  | load hasher memory source => .ok (HashSet.load memory hasher.hash source).toOption

def Call.apply (set : HashSet T) : Call T → Except TableError (HashSet T)
  | perform memory state command =>
      Table.unlessRefused set ((command.run memory set state).map fun outcome => outcome.2.2)
  | extend memory announced values =>
      InPlace.remains ((extendInPlace memory announced values).run ⟨set, []⟩)
  | drain taken closed =>
      let drained := (Table.Drain.take taken set.table.drain).2
      .ok { set with table := if closed then drained.close else drained.abandon }

def interface (T : Type) [BEq T] : Interface (HashSet T) where
  Start := Start T
  start := Start.make
  Call := Call T
  call := Call.apply

end HashSet

end RobinHood
