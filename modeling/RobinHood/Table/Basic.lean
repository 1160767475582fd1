import RobinHood.Hash.Mixer
import RobinHood.TableError

/-! A table is a ring of slots. Each value has a home, the high bits of its stored hash, and sits
in its home or in one of the slots after it; its displacement is how many slots after. -/

namespace RobinHood

structure Cell (α : Type) where
  hash : UInt64
  value : α
deriving DecidableEq

abbrev Slot (α : Type) := Option (Cell α)

structure Table (α : Type) where
  slots : Array (Slot α)
  /-- One less than the number of slots. -/
  mask : Nat
  /-- How far a stored hash is shifted to give the home. -/
  shift : Nat
  population : Nat
  /-- The population at which the table grows before it takes another value. -/
  trigger : Nat
deriving DecidableEq

namespace Table

variable {α : Type}

/-- Seven eighths of a slot count, given its mask. -/
def triggerOf (mask : Nat) : Nat :=
  mask ^^^ (mask >>> 3)

/-- A table over given slots, whose mask, shift and trigger follow from their number. -/
def ofSlots (slots : Array (Slot α)) (population : Nat) : Table α :=
  if slots.size = 0 then { slots, mask := 0, shift := 64, population, trigger := 0 }
  else
    { slots
      mask := slots.size - 1
      shift := 64 - Nat.log2 slots.size
      population
      trigger := triggerOf (slots.size - 1) }

def empty : Table α :=
  ofSlots #[] 0

def slotCount (table : Table α) : Nat :=
  table.slots.size

/-- What a slot holds; there is nothing outside the table. -/
def slot (table : Table α) (index : Nat) : Slot α :=
  table.slots.getD index none

def isFree (table : Table α) (index : Nat) : Bool :=
  (table.slot index).isNone

/-- The slot that a stored hash asks for. -/
def home (table : Table α) (hash : UInt64) : Nat :=
  hash.toNat >>> table.shift

/-- The slot `steps` after `index` on the ring. -/
def after (table : Table α) (index steps : Nat) : Nat :=
  (index + steps) % table.slotCount

def next (table : Table α) (index : Nat) : Nat :=
  table.after index 1

def previous (table : Table α) (index : Nat) : Nat :=
  (index + table.slotCount - 1) % table.slotCount

/-- How many slots `index` lies after the home of a stored hash. -/
def displacement (table : Table α) (hash : UInt64) (index : Nat) : Nat :=
  (index + table.slotCount - table.home hash) % table.slotCount

def cells (table : Table α) : List (Cell α) :=
  table.slots.toList.filterMap id

def toList (table : Table α) : List α :=
  table.cells.map Cell.value

def isEmpty (table : Table α) : Bool :=
  table.population == 0

def modifyAt (table : Table α) (index : Nat) (change : α → α) : Table α :=
  { table with
    slots := table.slots.modify index fun slot =>
      slot.map fun cell => { cell with value := change cell.value } }

def clear (table : Table α) : Table α :=
  if table.population = 0 then table
  else { table with slots := Array.replicate table.slotCount none, population := 0 }

end Table

end RobinHood
