import RobinHood.Proofs.Guarded.Maps

/-!
Whole uses of a map's entries, and all commands on a map, step by step. Only the commands that may
add a pair or make room can fail, and only as memory is refused.
-/

namespace RobinHood

variable {β K V σ : Type}

namespace Guarded

noncomputable section

def answered (call : Guarded β) : Guarded (Except TableError β) :=
  tryCatch (do return .ok (← call)) fun halt =>
    match halt with
    | .error .keyNotFound => return .error .keyNotFound
    | other => throw other

namespace HashMap

open RobinHood.HashMap (Answer)

def OccupiedUse.run (place : HashMap.Occupied K V) :
    HashMap.OccupiedUse V → Guarded (List (Answer K V) × HashMap K V)
  | .leave => return ([], place.toMap)
  | .remove => do
      let (value, map) ← Occupied.remove place
      return ([.value (some value)], map)
  | .removeEntry => do
      let (pair, map) ← Occupied.removeEntry place
      return ([.pair (some pair)], map)
  | .key rest => do
      let key ← Occupied.key place
      let (answers, map) ← run place rest
      return (.key (some key) :: answers, map)
  | .get rest => do
      let value ← Occupied.get place
      let (answers, map) ← run place rest
      return (.value (some value) :: answers, map)
  | .modify change rest => do run (← Occupied.modify place change) rest
  | .replace value rest => do
      let (old, place) ← Occupied.replace place value
      let (answers, map) ← run place rest
      return (.value (some old) :: answers, map)

def VacantUse.run (place : HashMap.Vacant K V) :
    HashMap.VacantUse V → Guarded (List (Answer K V) × HashMap K V)
  | .leave => return ([], (HashMap.Entry.vacant place).toMap)
  | .key rest => do
      let (answers, map) ← run place rest
      return (.key (some place.key) :: answers, map)
  | .insert value change => do
      let (stored, map) ← Occupied.lend (← Vacant.insert place value) change
      return ([.value (some stored)], map)

def EntryUse.run [Inhabited V] (entry : HashMap.Entry K V) (state : σ) :
    HashMap.EntryUse K V σ → Guarded (List (Answer K V) × σ × HashMap K V)
  | .key rest => do
      let key ← Entry.key entry
      let (answers, last) ← run entry state rest
      return (.key (some key) :: answers, last)
  | .modifyIfOccupied change rest => do run (← Entry.modifyIfOccupied entry change) state rest
  | .insertIfVacant value change => do
      let (stored, map) ← Occupied.lend (← Entry.insertIfVacant entry value) change
      return ([.value (some stored)], state, map)
  | .insertIfVacantWith make change => do
      let (place, state) ← Entry.insertIfVacantWithKey entry (fun _ => make) state
      let (stored, map) ← Occupied.lend place change
      return ([.value (some stored)], state, map)
  | .insertIfVacantWithKey make change => do
      let (place, state) ← Entry.insertIfVacantWithKey entry make state
      let (stored, map) ← Occupied.lend place change
      return ([.value (some stored)], state, map)
  | .insertDefaultIfVacant change => do
      let (stored, map) ← Occupied.lend (← Entry.insertIfVacant entry default) change
      return ([.value (some stored)], state, map)
  | .split occupied vacant => do
      let (answers, map) ←
        match entry with
        | .occupied place => OccupiedUse.run place occupied
        | .vacant place => VacantUse.run place vacant
      return (answers, state, map)

def Command.run [BEq K] [Inhabited V] (memory : Memory) (map : HashMap K V) (state : σ) :
    HashMap.Command K V σ → Guarded (List (Answer K V) × σ × HashMap K V)
  | .insert key value => do
      let (old, map) ← insert memory map key value
      return ([.value old], state, map)
  | .insertIfNew key value change => do
      let (place, isNew) ← insertIfNew memory map key value
      let (stored, map) ← Occupied.lend place change
      return ([.stored (some stored) isNew], state, map)
  | .insertIfNewWith key make change => do
      let (place, isNew, state) ← insertIfNewWith memory map key make state
      let (stored, map) ← Occupied.lend place change
      return ([.stored (some stored) isNew], state, map)
  | .assign key value change => do
      let (place, isNew) ← assign memory map key value
      let (stored, map) ← Occupied.lend place change
      return ([.stored (some stored) isNew], state, map)
  | .getOrInsertDefault key change => do
      let (stored, map) ← Occupied.lend (← getOrInsertDefault memory map key) change
      return ([.value (some stored)], state, map)
  | .get key => return ([.value (← get? map key)], state, map)
  | .getEntry key => return ([.pair (← getEntry? map key)], state, map)
  | .modify key change => do
      let (value, map) ← modify map key change
      return ([.value value], state, map)
  | .lookup key => return ([.lookedUp (← answered (lookup map key))], state, map)
  | .lookupModify key change => do
      match ← answered (lookupModify map key change) with
      | .ok (value, map) => return ([.lookedUp (.ok value)], state, map)
      | .error missing => return ([.lookedUp (.error missing)], state, map)
  | .contains key => return ([.flag (← contains map key)], state, map)
  | .remove key => do
      let (value, map) ← remove map key
      return ([.value value], state, map)
  | .removeEntry key => do
      let (pair, map) ← removeEntry map key
      return ([.pair pair], state, map)
  | .erase key => do
      let (number, map) ← erase map key
      return ([.count number], state, map)
  | .entry key use => do EntryUse.run (← entry memory map key) state use
  | .retain offer => do
      let (state, map) ← retain offer state map
      return ([], state, map)
  | .clear => return ([], state, map.clear)
  | .reserve additional => return ([], state, ← reserve memory map additional)
  | .size => return ([.count map.size], state, map)

end HashMap

theorem Follows.answered {good : β → Prop} {guarded : Guarded β} {plain : Except TableError β}
    (follows : Follows (· = .keyNotFound) good guarded plain) :
    Follows Never (fun found => ∀ answer, found = .ok answer → good answer)
      (Guarded.answered guarded) (HashMap.answered plain) := by
  cases follows with
  | answer holds =>
      refine .answer ?_
      intro other same
      rwa [← Except.ok.inj same]
  | error known =>
      subst known
      exact .answer fun _ same => by simp at same

end

end Guarded

namespace HashMap

open Guarded

variable {map : HashMap K V}

/-- Whether a command may need memory. -/
def Command.asks : Command K V σ → Bool
  | insert .. | insertIfNew .. | insertIfNewWith .. | assign .. | getOrInsertDefault .. => true
  | entry .. | reserve .. => true
  | _ => false

theorem OccupiedUse.run_follows (use : OccupiedUse V) {place : Occupied K V}
    (firm : place.place.Firm) :
    Follows Never (fun answer => answer.2.table.Safe)
      (Guarded.HashMap.OccupiedUse.run place use) (use.run place) := by
  induction use generalizing place with
  | leave => exact .answer firm.safe
  | remove => exact (Occupied.remove_follows firm).bind fun _ after => .answer after
  | removeEntry => exact (Occupied.removeEntry_follows firm).bind fun _ after => .answer after
  | key rest ih =>
      exact (Occupied.key_follows firm).bind fun _ _ => (ih firm).bind fun _ after => .answer after
  | get rest ih =>
      exact (Occupied.get_follows firm).bind fun _ _ => (ih firm).bind fun _ after => .answer after
  | modify change rest ih =>
      exact (Occupied.modify_follows firm change).bind fun _ changed => ih changed
  | replace value rest ih =>
      exact (Occupied.replace_follows firm value).bind fun _ changed =>
        (ih changed).bind fun _ after => .answer after

theorem VacantUse.run_follows (use : VacantUse V) {place : Vacant K V}
    (firm : place.place.Firm) :
    Follows Never (fun answer => answer.2.table.Safe)
      (Guarded.HashMap.VacantUse.run place use) (use.run place) := by
  induction use with
  | leave => exact .answer firm.safe
  | key rest ih => exact ih.bind fun _ after => .answer after
  | insert value change =>
      exact (Vacant.insert_follows firm value).bind fun _ placed =>
        (Occupied.lend_follows placed change).bind fun _ after => .answer after

theorem EntryUse.run_follows [Inhabited V] (use : EntryUse K V σ) {entry : Entry K V}
    (firm : entry.Firm) (state : σ) :
    Follows Never (fun answer => answer.2.2.table.Safe)
      (Guarded.HashMap.EntryUse.run entry state use) (use.run entry state) := by
  induction use generalizing entry with
  | key rest ih =>
      exact (Entry.key_follows firm).bind fun _ _ => (ih firm).bind fun _ after => .answer after
  | modifyIfOccupied change rest ih =>
      exact (Entry.modifyIfOccupied_follows firm change).bind fun _ changed => ih changed
  | insertIfVacant value change =>
      exact (Entry.insertIfVacant_follows firm value).bind fun _ placed =>
        (Occupied.lend_follows placed change).bind fun _ after => .answer after
  | insertIfVacantWith make change =>
      exact (Entry.insertIfVacantWithKey_follows firm _ state).bind fun _ placed =>
        (Occupied.lend_follows placed change).bind fun _ after => .answer after
  | insertIfVacantWithKey make change =>
      exact (Entry.insertIfVacantWithKey_follows firm make state).bind fun _ placed =>
        (Occupied.lend_follows placed change).bind fun _ after => .answer after
  | insertDefaultIfVacant change =>
      exact (Entry.insertIfVacant_follows firm default).bind fun _ placed =>
        (Occupied.lend_follows placed change).bind fun _ after => .answer after
  | split occupied vacant =>
      cases entry with
      | occupied place => exact (occupied.run_follows firm).bind fun _ after => .answer after
      | vacant place => exact (vacant.run_follows firm).bind fun _ after => .answer after

variable [BEq K] [Inhabited V]

theorem Command.run_follows (command : Command K V σ) (safe : map.table.Safe) (memory : Memory)
    (state : σ) :
    Follows (fun error => command.asks = true ∧ memory.Refusal error)
      (fun answer => answer.2.2.table.Safe)
      (Guarded.HashMap.Command.run memory map state command) (command.run memory map state) := by
  cases command with
  | insert key value =>
      exact ((insert_follows safe memory key value).asked rfl).bind fun _ after => .answer after
  | insertIfNew key value change =>
      exact ((insertIfNew_follows safe memory key value).asked rfl).bind fun _ placed =>
        (Occupied.lend_follows placed change).never.bind fun _ after => .answer after
  | insertIfNewWith key make change =>
      exact ((insertIfNewWith_follows safe memory key make state).asked rfl).bind fun _ placed =>
        (Occupied.lend_follows placed change).never.bind fun _ after => .answer after
  | assign key value change =>
      exact ((assign_follows safe memory key value).asked rfl).bind fun _ placed =>
        (Occupied.lend_follows placed change).never.bind fun _ after => .answer after
  | getOrInsertDefault key change =>
      exact ((getOrInsertDefault_follows safe memory key).asked rfl).bind fun _ placed =>
        (Occupied.lend_follows placed change).never.bind fun _ after => .answer after
  | entry key use =>
      exact ((entry_follows safe memory key).asked rfl).bind fun _ firm =>
        (use.run_follows firm state).never
  | reserve additional =>
      exact ((reserve_follows safe memory additional).asked rfl).bind fun _ after =>
        .answer after
  | get key =>
      exact (get?_follows safe key).never.bind fun _ _ => .answer safe
  | getEntry key =>
      exact (getEntry?_follows safe key).never.bind fun _ _ => .answer safe
  | modify key change =>
      exact (modify_follows safe key change).never.bind fun _ after => .answer after
  | lookup key =>
      exact (lookup_follows safe key).answered.never.bind fun _ _ => .answer safe
  | lookupModify key change =>
      refine (lookupModify_follows safe key change).answered.never.bind ?_
      intro found after
      cases found with
      | ok answer => exact .answer (after answer rfl)
      | error missing => exact .answer safe
  | contains key =>
      exact (contains_follows safe key).never.bind fun _ _ => .answer safe
  | remove key =>
      exact (remove_follows safe key).never.bind fun _ after => .answer after
  | removeEntry key =>
      exact (removeEntry_follows safe key).never.bind fun _ after => .answer after
  | erase key =>
      exact (erase_follows safe key).never.bind fun _ after => .answer after
  | retain offer =>
      exact (retain_follows safe offer state).never.bind fun _ after => .answer after
  | clear => exact .answer safe.clear
  | size => exact .answer safe

end HashMap

end RobinHood
