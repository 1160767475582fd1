import RobinHood.Proofs.Guarded.Commands
import RobinHood.Proofs.Guarded.Sets
import RobinHood.Proofs.Keyed

/-!
Tables, maps and sets that a caller can hold. Nothing is asked of a caller's hash function, nor of
what it takes for equal; whatever was done, memory was refused or a source was at fault, what is
held is valid and its slots can be counted.
-/

namespace RobinHood

open Guarded InPlace

variable {α K V T : Type}

theorem Guarded.Follows.permits {memory : Memory} {good : α → Prop} {guarded : Guarded α}
    {plain : Except TableError α} (follows : Follows memory.Refusal good guarded plain) :
    memory.Permits plain good := by
  cases follows with
  | answer holds => exact Or.inl ⟨_, rfl, holds⟩
  | error known => exact Or.inr ⟨_, rfl, known⟩

namespace Table

variable {table before after : Table α}

theorem SlotChange.counted {operation : Operation α} (changes : SlotChange before after operation)
    (fits : before.slotCount < 2 ^ 64) : after.slotCount < 2 ^ 64 := by
  cases changes with
  | kept same => rwa [same]
  | first unallocated full sixteen => omega
  | doubled allocated full double counted => exact counted
  | reserved larger counted => exact counted
  | leaked none => omega

theorem Safe.apply (safe : Safe table) {operation : Operation α}
    (applied : operation.apply table = .ok after) : Safe after := by
  obtain ⟨result, done, valid, _⟩ := operation.apply_valid safe.valid
  obtain rfl := Except.ok.inj (done.symm.trans applied)
  exact ⟨valid, (Operation.slotChange applied).counted safe.counted⟩

section Induction

variable (property : Table α → Prop) (start : property empty)
  (step : ∀ {before after : Table α} {operation : Operation α}, property before →
    operation.apply before = .ok after → property after)

include start step

theorem Action.run_keeps {action : Action α} {store result : List (Table α)}
    (ran : action.run store = .ok result) (holds : ∀ table ∈ store, property table) :
    ∀ table ∈ result, property table := by
  have added {table : Table α} (tableHolds : property table) :
      ∀ member ∈ store ++ [table], property member :=
    List.forall_mem_append.mpr ⟨holds, List.forall_mem_singleton.mpr tableHolds⟩
  cases action with
  | new =>
      obtain rfl := Except.ok.inj ran
      exact added start
  | withCapacity memory capacity =>
      rcases of_unlessRefused ran with rfl | made
      · exact holds
      · obtain ⟨table, reserved, rfl⟩ := exists_of_map made
        have applied : (Operation.reserve memory capacity).apply empty = .ok table := by
          rw [Operation.apply, show empty.reserve memory capacity = .ok table from reserved]
          rfl
        exact added (step start applied)
  | clone position =>
      obtain rfl := Except.ok.inj ran
      cases held : store[position]? with
      | none => simpa using holds
      | some table => exact added (holds table (List.mem_of_getElem? held))
  | act position operation =>
      simp only [Action.run] at ran
      cases held : store[position]? with
      | none =>
          rw [held] at ran
          obtain rfl := Except.ok.inj ran
          exact holds
      | some table =>
          rw [held] at ran
          obtain ⟨changed, applied, rfl⟩ := exists_of_map ran
          intro member present
          rcases List.mem_or_eq_of_mem_set present with old | rfl
          · exact holds member old
          · exact step (holds table (List.mem_of_getElem? held)) applied

theorem Reachable.induction (reachable : Reachable table) : property table := by
  obtain ⟨actions, store, ran, member⟩ := reachable
  have keeps (actions : List (Action α)) {store result : List (Table α)}
      (ran : runAll actions store = .ok result) (holds : ∀ table ∈ store, property table) :
      ∀ table ∈ result, property table := by
    induction actions generalizing store with
    | nil =>
        obtain rfl := Except.ok.inj ran
        exact holds
    | cons action rest ih =>
        rw [runAll, List.foldlM_cons] at ran
        obtain ⟨middle, first, later⟩ := exists_of_bind ran
        exact ih later (action.run_keeps property start step first holds)
  exact keeps actions ran (by simp) table member

end Induction

theorem Reachable.safe (reachable : Reachable table) : Safe table :=
  reachable.induction Safe safe_empty fun safe applied => safe.apply applied

theorem Safe.foldl_step (moves : List (Side × (α → α))) {walk : ChangingWalk α}
    (safe : Safe walk.table) :
    Safe (moves.foldl (fun walk (side, change) => (walk.step side change).2) walk).table := by
  refine ⟨ChangingWalk.foldl_step_valid moves walk safe.valid, ?_⟩
  rw [slotCount_foldl_step]
  exact safe.counted

theorem Safe.drain (safe : Safe table) (taken : Nat) (closed : Bool) :
    Safe (if closed then (Drain.take taken table.drain).2.close
      else (Drain.take taken table.drain).2.abandon) := by
  cases closed with
  | true => exact ((safe.drain_follows taken).eq_of_ok rfl).2
  | false => exact safe_empty

end Table

namespace HashMap

variable [BEq K] {map after : HashMap K V}

theorem safe_lasts : (kind (K := K) (V := V)).Lasts fun map => map.table.Safe where
  valid := Table.Safe.valid
  reserve safe memory additional := (reserve_follows safe memory additional).permits
  insert safe memory pair := (insert_follows safe memory pair.1 pair.2).permits

theorem Call.apply_safe [Inhabited V] (call : Call K V) (safe : map.table.Safe)
    (applied : call.apply map = .ok after) : after.table.Safe := by
  cases call with
  | perform memory state command =>
      rcases Table.of_unlessRefused applied with rfl | ran
      · exact safe
      · obtain ⟨outcome, done, rfl⟩ := exists_of_map ran
        exact ((command.run_follows safe memory state).eq_of_ok done).2
  | extend memory announced pairs =>
      obtain ⟨left, remained, leftSafe⟩ :=
        (inPlace.extendInPlace_keeps inPlace_enters safe_lasts safe memory announced pairs
          []).remains
      obtain rfl := Except.ok.inj (remained.symm.trans applied)
      exact leftSafe
  | changeInPlace moves =>
      obtain rfl := Except.ok.inj applied
      have start : map.table.changingWalk.table.Safe := safe
      have changed := start.foldl_step (moves.map fun move => (move.1, changeValue move.2))
      rwa [List.foldl_map] at changed
  | drain taken closed =>
      obtain rfl := Except.ok.inj applied
      exact safe.drain taken closed

inductive Reachable [Inhabited V] : HashMap K V → Prop
  | withHasher (hash : K → UInt64) : Reachable (withHasher hash)
  | withCapacity {memory : Memory} {capacity : Nat} {hash : K → UInt64} {map : HashMap K V}
      (made : withCapacity memory capacity hash = .ok map) : Reachable map
  | ofList {memory : Memory} {hash : K → UInt64} {announced : Nat} {pairs : List (K × V)}
      {map : HashMap K V} (made : ofList memory hash announced pairs = .ok map) : Reachable map
  | load {memory : Memory} {hash : K → UInt64} {source : Source (K × V)} {map : HashMap K V}
      (made : load memory hash source = .ok map) : Reachable map
  | call {map after : HashMap K V} (call : Call K V) (reachable : Reachable map)
      (applied : call.apply map = .ok after) : Reachable after

theorem Reachable.safe [Inhabited V] (reachable : Reachable map) : map.table.Safe := by
  have empty (hash : K → UInt64) : (HashMap.withHasher hash : HashMap K V).table.Safe :=
    Table.safe_empty
  induction reachable with
  | withHasher hash => exact empty hash
  | withCapacity made => exact (safe_lasts.reserve (empty _) _ _).of_ok made
  | ofList made => exact (safe_lasts.extend (empty _) _ _ _).of_ok made
  | load made => exact safe_lasts.load (empty _) made
  | call call _ applied safe => exact call.apply_safe safe applied

end HashMap

namespace HashSet

variable [BEq T] {set after : HashSet T}

theorem safe_lasts : (kind (T := T)).Lasts fun set => set.table.Safe where
  valid := Table.Safe.valid
  reserve safe memory additional := (reserve_follows safe memory additional).permits
  insert safe memory value := (insert_follows safe memory value).permits

theorem Command.run_safe {σ : Type} (command : Command T σ) (safe : set.table.Safe)
    {memory : Memory} {state : σ} {answer : Answer T × σ × HashSet T}
    (done : command.run memory set state = .ok answer) : answer.2.2.table.Safe := by
  by_cases announces : command.Announces
  · exact ((command.run_follows announces safe memory state).eq_of_ok done).2
  · cases command with
    | extend announced values =>
        obtain ⟨filled, extended, kept⟩ := exists_of_bind done
        obtain rfl := Except.ok.inj kept
        exact (safe_lasts.extend safe memory announced values).of_ok extended
    | _ => exact absurd trivial announces

theorem Call.apply_safe (call : Call T) (safe : set.table.Safe)
    (applied : call.apply set = .ok after) : after.table.Safe := by
  cases call with
  | perform memory state command =>
      rcases Table.of_unlessRefused applied with rfl | ran
      · exact safe
      · obtain ⟨outcome, done, rfl⟩ := exists_of_map ran
        exact command.run_safe safe done
  | extend memory announced values =>
      obtain ⟨left, remained, leftSafe⟩ :=
        (inPlace.extendInPlace_keeps inPlace_enters safe_lasts safe memory announced values
          []).remains
      obtain rfl := Except.ok.inj (remained.symm.trans applied)
      exact leftSafe
  | drain taken closed =>
      obtain rfl := Except.ok.inj applied
      exact safe.drain taken closed

inductive Reachable : HashSet T → Prop
  | withHasher (hash : T → UInt64) : Reachable (withHasher hash)
  | withCapacity {memory : Memory} {capacity : Nat} {hash : T → UInt64} {set : HashSet T}
      (made : withCapacity memory capacity hash = .ok set) : Reachable set
  | ofList {memory : Memory} {hash : T → UInt64} {announced : Nat} {values : List T}
      {set : HashSet T} (made : ofList memory hash announced values = .ok set) : Reachable set
  | load {memory : Memory} {hash : T → UInt64} {source : Source T} {set : HashSet T}
      (made : load memory hash source = .ok set) : Reachable set
  | call {set after : HashSet T} (call : Call T) (reachable : Reachable set)
      (applied : call.apply set = .ok after) : Reachable after

theorem Reachable.safe (reachable : Reachable set) : set.table.Safe := by
  have empty (hash : T → UInt64) : (HashSet.withHasher hash).table.Safe := Table.safe_empty
  induction reachable with
  | withHasher hash => exact empty hash
  | withCapacity made => exact (safe_lasts.reserve (empty _) _ _).of_ok made
  | ofList made => exact (safe_lasts.extend (empty _) _ _ _).of_ok made
  | load made => exact safe_lasts.load (empty _) made
  | call call _ applied safe => exact call.apply_safe safe applied

end HashSet

end RobinHood
