import RobinHood.Search
import RobinHood.Table.Shift

/-! Making room. A table moves to a larger ring: every value is placed again, in the order of the
old slots, and may carry on a value it found closer to home than itself. Every growing operation is
told how large a slot is and which requests for memory are granted. -/

namespace RobinHood

structure Memory where
  slotBytes : Nat
  /-- Whether a request for so many slots is granted. -/
  grants : Nat → Bool

/-- An array must be shorter than half the address space; only then is memory asked for. -/
def Memory.allocate {α : Type} (memory : Memory) (slots : Nat) :
    Except TableError (Array (Slot α)) :=
  if UInt64.size / 2 ≤ slots * memory.slotBytes then .error .capacityOverflow
  else if memory.grants slots then .ok (Array.replicate slots none)
  else .error (.allocationFailure slots)

namespace Table

variable {α : Type}

def leastSlots : Nat := 16

/-- The smallest slot count whose trigger admits `required` values. -/
def slotsFor (required : Nat) : Except TableError Nat :=
  match firstWhere (fun power => required ≤ triggerOf ((1 <<< power) - 1)) 4 60 with
  | some power => .ok (1 <<< power)
  | none => .error .capacityOverflow

/-- Carries a cell `distance` slots from its home on to a free slot. A resident closer to its own
home gives up its slot and is carried on in turn. -/
def settle (table : Table α) (carried : Cell α) (index distance : Nat) :
    Nat → Except TableError (Table α)
  | 0 => .error (.broken .endless)
  | steps + 1 =>
      match table.slot index with
      | none => table.fill index carried
      | some resident =>
          let settled := table.displacement resident.hash index
          if settled < distance then
            settle { table with slots := table.slots.setIfInBounds index (some carried) }
              resident (table.next index) (settled + 1) steps
          else settle table carried (table.next index) (distance + 1) steps

def place (table : Table α) (cell : Cell α) : Except TableError (Table α) :=
  if table.slotCount ≤ table.home cell.hash then
    .error (.broken (.slotOutside (table.home cell.hash)))
  else table.settle cell (table.home cell.hash) 0 table.slotCount

def isPowerOfTwo (count : Nat) : Bool :=
  1 <<< Nat.log2 count == count

/-- Moves every value into a larger ring. Only asking for its memory can fail. -/
def resize (memory : Memory) (table : Table α) (slots : Nat) : Except TableError (Table α) := do
  if ¬ isPowerOfTwo slots ∨ slots ≤ table.slotCount then
    throw (.broken (.slotCount slots))
  let fresh ← memory.allocate slots
  table.cells.foldlM place (ofSlots fresh table.population)

def grow (memory : Memory) (table : Table α) : Except TableError (Table α) :=
  if table.slotCount = 0 then table.resize memory leastSlots
  else if UInt64.size ≤ 2 * table.slotCount then .error .capacityOverflow
  else table.resize memory (2 * table.slotCount)

def growIfFull (memory : Memory) (table : Table α) : Except TableError (Table α) :=
  if table.population = table.trigger then table.grow memory else .ok table

def reserve (memory : Memory) (table : Table α) (additional : Nat) : Except TableError (Table α) :=
  let required := table.population + additional
  if UInt64.size ≤ required then .error .capacityOverflow
  else if required = 0 ∨ required ≤ table.trigger then .ok table
  else do
    let slots ← slotsFor required
    table.resize memory slots

def withCapacity (memory : Memory) (capacity : Nat) : Except TableError (Table α) :=
  empty.reserve memory capacity

end Table

end RobinHood
