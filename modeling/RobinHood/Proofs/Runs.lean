import RobinHood.Proofs.Checking
import RobinHood.Proofs.Emptying
import RobinHood.Proofs.Retaining

/-!
Runs of table operations. A caller holds any number of tables and chooses everything: raw hashes,
what counts as equal, what happens to the values, and which requests for memory are granted.
-/

namespace RobinHood.Table

variable {α β : Type} {table : Table α}

/-- What a caller does with an entry. The value of an occupied place is changed, and then stays or
is taken out; a vacant place stays vacant or gets a value, which is then changed. -/
structure EntryUse (α : Type) where
  change : α → α
  removes : Bool
  filling : Option α

namespace EntryUse

def onOccupied (use : EntryUse α) (place : Occupied α) : Except TableError (Table α) := do
  let place ← place.modify use.change
  if use.removes then return (← place.remove).2 else return place.table

def onVacant (use : EntryUse α) (place : Vacant α) : Except TableError (Table α) :=
  match use.filling with
  | none => .ok place.table
  | some value => do
      let filled ← place.insert value
      return (← filled.modify use.change).table

def on (use : EntryUse α) : Entry α → Except TableError (Table α)
  | .occupied place => use.onOccupied place
  | .vacant place => use.onVacant place

end EntryUse

inductive Operation (α : Type) : Type 1 where
  | reserve (memory : Memory) (additional : Nat)
  | entry (memory : Memory) (raw : UInt64) (accept : α → Bool) (use : EntryUse α)
  | findModify (raw : UInt64) (accept : α → Bool) (change : α → α)
  | remove (raw : UInt64) (accept : α → Bool)
  | retain {σ : Type} (offer : σ → α → Option α × σ) (state : σ)
  | clear
  | changeInPlace (moves : List (Side × (α → α)))
  | drain (taken : Nat) (closed : Bool)

/-- A call whose request for memory is refused changes nothing. -/
def unlessRefused (unchanged : β) : Except TableError β → Except TableError β
  | .error .capacityOverflow => .ok unchanged
  | .error (.allocationFailure _) => .ok unchanged
  | outcome => outcome

namespace Operation

def apply (table : Table α) : Operation α → Except TableError (Table α)
  | reserve memory additional => unlessRefused table (table.reserve memory additional)
  | entry memory raw accept use =>
      unlessRefused table do use.on (← table.entry memory raw accept)
  | findModify raw accept change => (table.findModify raw accept change).map Prod.snd
  | remove raw accept => (table.remove raw accept).map Prod.snd
  | retain offer state => (table.retain offer state).map Prod.snd
  | clear => .ok table.clear
  | changeInPlace moves =>
      .ok (moves.foldl (fun walk (side, change) => (walk.step side change).2)
        table.changingWalk).table
  | drain taken closed =>
      let drained := (Drain.take taken table.drain).2
      .ok (if closed then drained.close else drained.abandon)

end Operation

inductive Action (α : Type) : Type 1 where
  | new
  | withCapacity (memory : Memory) (capacity : Nat)
  | clone (position : Nat)
  | act (position : Nat) (operation : Operation α)

namespace Action

def run (store : List (Table α)) : Action α → Except TableError (List (Table α))
  | new => .ok (store ++ [empty])
  | withCapacity memory capacity =>
      unlessRefused store
        ((Table.withCapacity memory capacity).map fun table => store ++ [table])
  | clone position => .ok (store ++ store[position]?.toList)
  | act position operation =>
      match store[position]? with
      | none => .ok store
      | some table => (operation.apply table).map (store.set position)

end Action

def runAll (actions : List (Action α)) (store : List (Table α)) :
    Except TableError (List (Table α)) :=
  actions.foldlM Action.run store

/-- A table that some caller holds at some time. -/
def Reachable (table : Table α) : Prop :=
  ∃ actions store, runAll actions [] = .ok store ∧ table ∈ store

theorem unlessRefused_of_refusal {memory : Memory} {error : TableError} (unchanged : β)
    (refusal : memory.Refusal error) :
    unlessRefused unchanged (.error error) = .ok unchanged := by
  cases refusal <;> rfl

theorem EntryUse.onOccupied_valid (use : EntryUse α) {place : Occupied α} {cell : Cell α}
    (holds : place.Holds cell) :
    ∃ result, use.onOccupied place = .ok result ∧ Valid result ∧
      result.population ≤ place.table.population := by
  obtain ⟨changed, modified, still, population, _⟩ := holds.modify_spec use.change
  simp only [onOccupied, modified]
  cases removes : use.removes with
  | false => exact ⟨changed.table, rfl, still.valid, population.le⟩
  | true =>
      obtain ⟨result, taken, valid, lowered, _⟩ := still.remove_spec
      refine ⟨result, ?_, valid, by omega⟩
      change (changed.remove >>= _) = _
      exact bind_of_ok taken rfl

theorem EntryUse.onVacant_valid (use : EntryUse α) {place : Vacant α} {raw : UInt64}
    {accept : α → Bool} (awaits : place.Awaits raw accept) :
    ∃ result, use.onVacant place = .ok result ∧ Valid result ∧
      result.population ≤ place.table.population + 1 := by
  cases filling : use.filling with
  | none =>
      exact ⟨place.table, by simp only [onVacant, filling], .allocated awaits.sound, by omega⟩
  | some value =>
      obtain ⟨filled, inserted, holds, raised, _⟩ := awaits.insert_spec value
      obtain ⟨changed, modified, still, population, _⟩ := holds.modify_spec use.change
      refine ⟨changed.table, ?_, still.valid, by omega⟩
      simp only [onVacant, filling]
      exact bind_of_ok inserted (bind_of_ok modified rfl)

theorem ChangingWalk.foldl_step_valid (moves : List (Side × (α → α))) (walk : ChangingWalk α)
    (valid : Valid walk.table) :
    Valid (moves.foldl (fun walk (side, change) => (walk.step side change).2) walk).table := by
  induction moves generalizing walk with
  | nil => exact valid
  | cons move rest ih => exact ih _ (ChangingWalk.step_valid valid move.1 move.2)

theorem ChangingWalk.population_step (walk : ChangingWalk α) (side : Side) (change : α → α) :
    (walk.step side change).2.table.population = walk.table.population := by
  rw [ChangingWalk.step]
  split <;> rfl

theorem ChangingWalk.population_foldl_step (moves : List (Side × (α → α)))
    (walk : ChangingWalk α) :
    (moves.foldl (fun walk (side, change) => (walk.step side change).2) walk).table.population =
      walk.table.population := by
  induction moves generalizing walk with
  | nil => rfl
  | cons move rest ih => exact (ih _).trans (walk.population_step move.1 move.2)

/-- How many values a call adds at most. -/
def Operation.entries : Operation α → Nat
  | entry _ _ _ _ => 1
  | _ => 0

/-- No operation fails on a valid table, and each leaves a valid table. Only an entry can add a
value, and only one. -/
theorem Operation.apply_valid (operation : Operation α) (valid : Valid table) :
    ∃ result, operation.apply table = .ok result ∧ Valid result ∧
      result.population ≤ table.population + operation.entries := by
  cases operation with
  | reserve memory additional =>
      simp only [Operation.apply]
      rcases valid.reserve_cases memory additional with
        ⟨reserved, done, reservedValid, population, _⟩ | ⟨error, failed, refusal, _⟩
      · exact ⟨reserved, by rw [done]; rfl, reservedValid, population.le⟩
      · exact ⟨table, by rw [failed, unlessRefused_of_refusal table refusal], valid, Nat.le_refl _⟩
  | entry memory raw accept use =>
      simp only [Operation.apply]
      rcases valid.entry_cases memory raw accept with
        ⟨place, cell, found, grown, holds, _⟩ | ⟨place, missed, grown, awaits⟩ |
          ⟨error, failed, refusal, _⟩
      · obtain ⟨result, used, resultValid, population⟩ := use.onOccupied_valid holds
        rw [grown.population] at population
        refine ⟨result, ?_, resultValid, Nat.le_succ_of_le population⟩
        rw [found]
        change unlessRefused table (use.onOccupied place) = _
        rw [used]
        rfl
      · obtain ⟨result, used, resultValid, population⟩ := use.onVacant_valid awaits
        rw [grown.population] at population
        refine ⟨result, ?_, resultValid, population⟩
        rw [missed]
        change unlessRefused table (use.onVacant place) = _
        rw [used]
        rfl
      · refine ⟨table, ?_, valid, Nat.le_add_right _ _⟩
        rw [failed]
        exact unlessRefused_of_refusal table refusal
  | findModify raw accept change =>
      simp only [Operation.apply]
      rcases valid.findModify_cases raw accept change with
        ⟨cell, result, _, done, resultValid, population, _⟩ | ⟨_, done⟩
      · exact ⟨result, by rw [done]; rfl, resultValid, population.le⟩
      · exact ⟨table, by rw [done]; rfl, valid, Nat.le_refl _⟩
  | remove raw accept =>
      simp only [Operation.apply]
      rcases valid.remove_cases raw accept with
        ⟨cell, result, _, done, resultValid, lowered, _⟩ | ⟨_, done⟩
      · exact ⟨result, by rw [done]; rfl, resultValid, by omega⟩
      · exact ⟨table, by rw [done]; rfl, valid, Nat.le_refl _⟩
  | retain offer state =>
      obtain ⟨order, result, perm, done, resultValid, kept⟩ := valid.retain_spec offer state
      refine ⟨result, by simp only [Operation.apply, done]; rfl, resultValid, ?_⟩
      have fewer := length_offerAll_le offer state order
      rw [← kept.length_eq, resultValid.counted, perm.length_eq, valid.counted] at fewer
      exact fewer
  | clear =>
      obtain ⟨clearValid, none⟩ := valid.clear
      have population := clearValid.counted
      rw [none, List.length_nil] at population
      exact ⟨table.clear, rfl, clearValid, by omega⟩
  | changeInPlace moves =>
      exact ⟨_, rfl, ChangingWalk.foldl_step_valid moves table.changingWalk valid,
        (ChangingWalk.population_foldl_step moves table.changingWalk).le⟩
  | drain taken closed =>
      obtain ⟨drainedValid, none⟩ := valid.drained taken closed
      have population := drainedValid.counted
      rw [none, List.length_nil] at population
      exact ⟨table.drained taken closed, rfl, drainedValid, by omega⟩

theorem Action.run_valid (action : Action α) {store : List (Table α)}
    (valid : ∀ table ∈ store, Valid table) :
    ∃ result, action.run store = .ok result ∧ ∀ table ∈ result, Valid table := by
  have added {table : Table α} (tableValid : Valid table) :
      ∀ member ∈ store ++ [table], Valid member := by
    intro member present
    rcases List.mem_append.mp present with old | new
    · exact valid member old
    · rw [List.mem_singleton.mp new]
      exact tableValid
  cases action with
  | new => exact ⟨store ++ [empty], rfl, added valid_empty⟩
  | withCapacity memory capacity =>
      simp only [Action.run, Table.withCapacity]
      rcases valid_empty.reserve_cases memory capacity with
        ⟨reserved, done, reservedValid, _⟩ | ⟨error, failed, refusal, _⟩
      · exact ⟨store ++ [reserved], by rw [done]; rfl, added reservedValid⟩
      · refine ⟨store, ?_, valid⟩
        rw [failed]
        exact unlessRefused_of_refusal store refusal
  | clone position =>
      refine ⟨_, rfl, ?_⟩
      cases held : store[position]? with
      | none => simpa using valid
      | some table => exact added (valid table (List.mem_of_getElem? held))
  | act position operation =>
      simp only [Action.run]
      cases held : store[position]? with
      | none => exact ⟨store, rfl, valid⟩
      | some table =>
          obtain ⟨result, done, resultValid, _⟩ :=
            operation.apply_valid (valid table (List.mem_of_getElem? held))
          refine ⟨store.set position result, by simp only [done]; rfl, ?_⟩
          intro member present
          rcases List.mem_or_eq_of_mem_set present with old | new
          · exact valid member old
          · rw [new]
            exact resultValid

theorem runAll_valid (actions : List (Action α)) (store : List (Table α))
    (valid : ∀ table ∈ store, Valid table) :
    ∃ result, runAll actions store = .ok result ∧ ∀ table ∈ result, Valid table := by
  induction actions generalizing store with
  | nil => exact ⟨store, rfl, valid⟩
  | cons action rest ih =>
      obtain ⟨middle, first, middleValid⟩ := action.run_valid valid
      obtain ⟨result, later, resultValid⟩ := ih middle middleValid
      refine ⟨result, ?_, resultValid⟩
      rw [runAll, List.foldlM_cons, first]
      exact later

theorem Reachable.valid (reachable : Reachable table) : Valid table := by
  obtain ⟨actions, store, ran, member⟩ := reachable
  obtain ⟨result, done, valid⟩ := runAll_valid actions [] (by simp)
  rw [ran, Except.ok.injEq] at done
  rw [done] at member
  exact valid table member

/-- No run meets a broken promise, and every table it leaves passes the structural check. -/
theorem runAll_check (actions : List (Action α)) :
    ∃ store, runAll actions [] = .ok store ∧ ∀ table ∈ store,
      table.check = .ok () ∧ Valid table ∧
        (∀ index cell, table.slot index = some cell →
          table.displacement cell.hash index ≤ table.allowance index) ∧
        (table.slotCount ≠ 0 → table.cells.length + 2 ≤ table.slotCount) := by
  obtain ⟨store, ran, valid⟩ := runAll_valid actions [] (by simp)
  refine ⟨store, ran, ?_⟩
  intro table member
  have tableValid := valid table member
  refine ⟨check_iff_valid.mpr tableValid, tableValid, ?_, ?_⟩
  · intro index cell held
    exact (tableValid.sound_of_slot held).displacement_le_allowance held
  · intro allocated
    have sound := tableValid.sound allocated
    have below := sound.population_lt
    rw [sound.counted]
    exact below

end RobinHood.Table
