import RobinHood.Search
import RobinHood.Table.Growth

/-! Checking a table's structure: its geometry, its count, that all hashes are odd, and that no
value lies further from home than the one before it allows. -/

namespace RobinHood

namespace Table

variable {α : Type}

/-- The displacement that the slot before `index` allows at it. -/
def allowance (table : Table α) (index : Nat) : Nat :=
  match table.slot (table.previous index) with
  | none => 0
  | some cell => table.displacement cell.hash (table.previous index) + 1

def faultAt (table : Table α) (index : Nat) : Option TableError :=
  match table.slot index with
  | none => none
  | some cell =>
      if cell.hash % 2 = 0 then some (.invariantViolation index "cached hash is even")
      else if table.allowance index < table.displacement cell.hash index then
        some (.invariantViolation index "value displaced further than its predecessor allows")
      else none

def geometryFault (table : Table α) : Option String :=
  if ¬ isPowerOfTwo table.slotCount ∨ table.slotCount < leastSlots then
    some "slot count is not a power of two of at least 16"
  else if table.mask ≠ table.slotCount - 1 then
    some "capacity mask does not match slot count"
  else if (UInt64.size - 1) >>> table.shift ≠ table.mask then
    some "index shift does not match capacity mask"
  else if table.trigger ≠ triggerOf table.mask then
    some "resize trigger does not match capacity"
  else if table.trigger < table.population then
    some "population exceeds resize trigger"
  else none

/-- Reports the first fault: of the geometry, then of the slots in order, then of the count. -/
def check (table : Table α) : Except TableError Unit :=
  if table.slotCount = 0 then
    if table.population ≠ 0 ∨ table.trigger ≠ 0 then
      .error (.invariantViolation 0 "unallocated table reports values")
    else .ok ()
  else
    match table.geometryFault with
    | some reason => .error (.invariantViolation 0 reason)
    | none =>
        match firstAnswer table.faultAt 0 table.slotCount with
        | some fault => .error fault
        | none =>
            if table.cells.length ≠ table.population then
              .error (.invariantViolation 0 "occupied slot count does not match length")
            else .ok ()

end Table

end RobinHood
