import RobinHood.Proofs.Guarded.Growth

/-!
Entries step by step. A place remembers the index of a slot; as long as nothing else changes its
table, an occupied place has a cell there, and a vacant one has room.
-/

namespace RobinHood

variable {α σ : Type}

namespace Guarded

noncomputable section

namespace Occupied

def get (place : Table.Occupied α) : Guarded α := do
  match ← fetch place.table.slots place.index with
  | some cell => return cell.value
  | none => stop .unreachable

def modify (place : Table.Occupied α) (change : α → α) : Guarded (Table.Occupied α) := do
  match ← fetch place.table.slots place.index with
  | some cell =>
      let changed := some { cell with value := change cell.value }
      let slots ← store place.table.slots place.index changed
      return { place with table := { place.table with slots } }
  | none => stop .unreachable

def replace (place : Table.Occupied α) (value : α) : Guarded (α × Table.Occupied α) := do
  let old ← get place
  return (old, ← modify place fun _ => value)

def remove (place : Table.Occupied α) : Guarded (α × Table α) :=
  removeAt place.table place.index

end Occupied

def Vacant.insert (place : Table.Vacant α) (value : α) : Guarded (Table.Occupied α) := do
  let table ← insertAt place.table place.index place.hash value
  return { table, index := place.index }

def entry (memory : Memory) (table : Table α) (raw : UInt64) (accept : α → Bool) :
    Guarded (Table.Entry α) := do
  let table ← growIfFull memory table
  match ← probe table (storedHash raw) accept with
  | .found index _ => return .occupied { table, index }
  | .vacant index _ => return .vacant { table, hash := storedHash raw, index }

def remove (table : Table α) (raw : UInt64) (accept : α → Bool) :
    Guarded (Option α × Table α) := do
  match ← findIndex table raw accept with
  | none => return (none, table)
  | some index =>
      let (value, table) ← removeAt table index
      return (some value, table)

namespace Entry

def insertIfVacantWith (entry : Table.Entry α) (make : σ → α × σ) (state : σ) :
    Guarded (Table.Occupied α × σ) := do
  match entry with
  | .vacant place =>
      let (value, state) := make state
      return (← Vacant.insert place value, state)
  | .occupied place =>
      let _ ← Occupied.get place
      return (place, state)

def insertIfVacant (entry : Table.Entry α) (value : α) : Guarded (Table.Occupied α) := do
  match entry with
  | .vacant place => Vacant.insert place value
  | .occupied place =>
      let _ ← Occupied.get place
      return place

def modifyIfOccupied (entry : Table.Entry α) (change : α → α) : Guarded (Table.Entry α) := do
  match entry with
  | .vacant place => return .vacant place
  | .occupied place => return .occupied (← Occupied.modify place change)

end Entry

end

end Guarded

namespace Table

open Guarded

variable {table : Table α}

structure Occupied.Firm (place : Occupied α) : Prop where
  safe : Safe place.table
  held : ∃ cell, place.table.slot place.index = some cell

structure Vacant.Firm (place : Vacant α) : Prop where
  safe : Safe place.table
  awaits : ∃ raw accept, place.Awaits raw accept

def Entry.Firm : Entry α → Prop
  | vacant place => place.Firm
  | occupied place => place.Firm

theorem Safe.removeAt_follows (safe : Safe table) {index : Nat} {cell : Cell α}
    (held : table.slot index = some cell) :
    Follows Never (fun answer => Safe answer.2) (Guarded.removeAt table index)
      (table.removeAt index) := by
  obtain ⟨result, taken, valid, _⟩ := safe.valid.removeAt_spec held
  refine .of_eq ((safe.valid.sound_of_slot held).removeAt_eq safe.counted held taken) taken
    ⟨valid, ?_⟩
  rw [slotCount_of_removeAt taken]
  exact safe.counted

theorem Safe.remove_follows (safe : Safe table) (raw : UInt64) (accept : α → Bool) :
    Follows Never (fun answer => Safe answer.2) (Guarded.remove table raw accept)
      (table.remove raw accept) := by
  refine (safe.findIndex_follows raw accept).bind ?_
  intro found held
  cases found with
  | none => exact .answer safe
  | some index =>
      obtain ⟨cell, present⟩ := held index rfl
      exact (safe.removeAt_follows present).bind fun answer removed => .answer removed

namespace Occupied.Firm

variable {place : Occupied α}

theorem get_eq (firm : place.Firm) :
    ∃ cell, place.Holds cell ∧ Guarded.Occupied.get place = pure cell.value := by
  obtain ⟨cell, held⟩ := firm.held
  refine ⟨cell, ⟨firm.safe.valid, held⟩, ?_⟩
  rw [Guarded.Occupied.get, fetch_slots (lt_of_slot held), pure_bind, held]

theorem get_follows (firm : place.Firm) :
    Follows Never (fun _ => True) (Guarded.Occupied.get place) place.get := by
  obtain ⟨cell, holds, got⟩ := firm.get_eq
  exact .of_eq got holds.get_eq trivial

example : Guarded.Occupied.get { table := (.empty : Table Nat), index := 3 } = stop (.outside 3) :=
  rfl

theorem modify_follows (firm : place.Firm) (change : α → α) :
    Follows Never Occupied.Firm (Guarded.Occupied.modify place change) (place.modify change) := by
  obtain ⟨cell, held⟩ := firm.held
  have bound := lt_of_slot held
  have holds : place.Holds cell := ⟨firm.safe.valid, held⟩
  have changed : place.modify change =
      .ok { place with table := place.table.modifyAt place.index change } := by
    rw [Occupied.modify, holds.get_eq]
    rfl
  refine .of_eq ?_ changed ⟨firm.safe.modifyAt _ _, _, slot_modifyAt_self change held⟩
  rw [Guarded.Occupied.modify, fetch_slots bound, pure_bind, held, modifyAt_eq_put change held]
  simp only [store_slots _ bound, pure_bind]
  rfl

theorem replace_follows (firm : place.Firm) (value : α) :
    Follows Never (fun answer => answer.2.Firm) (Guarded.Occupied.replace place value)
      (place.replace value) := by
  obtain ⟨cell, holds, got⟩ := firm.get_eq
  rw [Guarded.Occupied.replace, got, pure_bind, holds.replace_eq]
  exact (firm.modify_follows _).map fun _ after => after

theorem remove_follows (firm : place.Firm) :
    Follows Never (fun answer => Safe answer.2) (Guarded.Occupied.remove place) place.remove := by
  obtain ⟨cell, held⟩ := firm.held
  exact firm.safe.removeAt_follows held

end Occupied.Firm

theorem Vacant.Firm.insert_follows {place : Vacant α} (firm : place.Firm) (value : α) :
    Follows Never Occupied.Firm (Guarded.Vacant.insert place value) (place.insert value) := by
  obtain ⟨raw, accept, awaits⟩ := firm.awaits
  obtain ⟨distance, vacant⟩ := awaits.vacant
  obtain ⟨placed, done, holds, _⟩ := awaits.insert_spec value
  obtain ⟨result, added, same⟩ := exists_of_bind done
  have bound := vacant.index_lt awaits.sound.shaped
  refine .of_eq ?_ done ⟨⟨holds.valid, ?_⟩, _, holds.held⟩
  · rw [Guarded.Vacant.insert, awaits.sound.insertAt_eq firm.safe.counted bound awaits.room added,
      pure_bind, ← Except.ok.inj same]
  · rw [slotCount_of_insert done]
    exact firm.safe.counted

theorem Safe.entry_follows (safe : Safe table) (memory : Memory) (raw : UInt64)
    (accept : α → Bool) :
    Follows memory.Refusal Entry.Firm (Guarded.entry memory table raw accept)
      (table.entry memory raw accept) := by
  refine (safe.growIfFull_follows memory).bind ?_
  rintro ready ⟨grown, is⟩
  have odd := storedHash_odd raw
  rcases is.sound.probe_cases odd accept with
    ⟨index, distance, probed, found⟩ | ⟨index, distance, probed, vacant⟩
  · obtain ⟨cell, held, _⟩ := found.cell
    rw [is.sound.shaped.probe_eq grown.counted odd accept probed, pure_bind, probed]
    exact .answer ⟨grown, cell, held⟩
  · rw [is.sound.shaped.probe_eq grown.counted odd accept probed, pure_bind, probed]
    exact .answer ⟨grown, raw, accept, is.sound, rfl, ⟨distance, vacant⟩, is.room⟩

namespace Entry.Firm

variable {entry : Entry α}

theorem insertIfVacantWith_follows (firm : entry.Firm) (make : σ → α × σ) (state : σ) :
    Follows Never (fun answer => answer.1.Firm)
      (Guarded.Entry.insertIfVacantWith entry make state)
      (entry.insertIfVacantWith make state) := by
  cases entry with
  | vacant place => exact (firm.insert_follows _).map fun _ after => after
  | occupied place =>
      obtain ⟨cell, _, got⟩ := Occupied.Firm.get_eq firm
      rw [Guarded.Entry.insertIfVacantWith, got]
      exact .answer firm

theorem insertIfVacant_follows (firm : entry.Firm) (value : α) :
    Follows Never Occupied.Firm (Guarded.Entry.insertIfVacant entry value)
      (entry.insertIfVacant value) := by
  cases entry with
  | vacant place => exact firm.insert_follows value
  | occupied place =>
      obtain ⟨cell, _, got⟩ := Occupied.Firm.get_eq firm
      rw [Guarded.Entry.insertIfVacant, got]
      exact .answer firm

theorem modifyIfOccupied_follows (firm : entry.Firm) (change : α → α) :
    Follows Never Entry.Firm (Guarded.Entry.modifyIfOccupied entry change)
      (entry.modifyIfOccupied change) := by
  cases entry with
  | vacant place => exact .answer firm
  | occupied place => exact (firm.modify_follows change).map fun _ after => after

end Entry.Firm

end Table

end RobinHood
