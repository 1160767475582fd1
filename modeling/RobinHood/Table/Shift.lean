import RobinHood.Search
import RobinHood.Table.Basic

/-! Adding a value at a slot and taking one out. Both move a run of values by one slot: forward
into the next free slot, or back over the slot that was emptied. -/

namespace RobinHood

namespace Table

variable {α : Type}

def swapNext (slots : Array (Slot α)) (index : Nat) : Array (Slot α) :=
  slots.swapIfInBounds (index % slots.size) ((index + 1) % slots.size)

/-- Moves the slots from `start` up to a free one, `steps` further on, one slot forward; the free
slot comes to `start`. -/
def openGap (slots : Array (Slot α)) (start steps : Nat) : Array (Slot α) :=
  steps.foldRev (fun offset _ slots => swapNext slots (start + offset)) slots

/-- Moves `steps` slots after a free one, at `start`, one slot back; the free slot comes last. -/
def closeGap (slots : Array (Slot α)) (start steps : Nat) : Array (Slot α) :=
  steps.fold (fun offset _ slots => swapNext slots (start + offset)) slots

def stepsToFree (table : Table α) (index : Nat) : Except TableError Nat :=
  match firstWhere (fun steps => table.isFree (table.after index steps)) 0 table.slotCount with
  | some steps => .ok steps
  | none => .error (.broken .endless)

def fill (table : Table α) (index : Nat) (cell : Cell α) : Except TableError (Table α) :=
  if table.slotCount ≤ index then .error (.broken (.slotOutside index))
  else if ¬ table.isFree index then .error (.broken (.slotTaken index))
  else .ok { table with slots := table.slots.setIfInBounds index (some cell) }

/-- Adds a value at the slot where a walk for its hash ended; the values from there up to the next
free slot make room. -/
def insertAt (table : Table α) (index : Nat) (hash : UInt64) (value : α) :
    Except TableError (Table α) := do
  if table.trigger ≤ table.population then
    throw (.broken .noRoom)
  let steps ← table.stepsToFree index
  let opened := { table with slots := openGap table.slots index steps }
  let filled ← opened.fill index { hash, value }
  return { filled with population := filled.population + 1 }

def endsRun (table : Table α) (index : Nat) : Bool :=
  match table.slot index with
  | none => true
  | some cell => table.displacement cell.hash index == 0

/-- Takes the value out of a slot; the displaced values after it move one slot towards home. -/
def removeAt (table : Table α) (index : Nat) : Except TableError (α × Table α) :=
  match table.slot index with
  | none => .error (.broken (.slotEmpty index))
  | some cell =>
      if table.population = 0 then .error (.broken .miscounted)
      else
        let holed := { table with slots := table.slots.setIfInBounds index none }
        let ends (steps : Nat) : Bool := holed.endsRun (holed.after index steps)
        match firstWhere ends 1 holed.slotCount with
        | none => .error (.broken .endless)
        | some steps =>
            .ok (cell.value,
              { holed with
                slots := closeGap holed.slots index (steps - 1)
                population := holed.population - 1 })

end Table

end RobinHood
