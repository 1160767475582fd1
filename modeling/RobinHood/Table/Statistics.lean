import RobinHood.Table.Basic

/-! How far values lie from home, and how full a table is. -/

namespace RobinHood

namespace Table

variable {α : Type}

def displacements (table : Table α) : List Nat :=
  table.slots.toList.zipIdx.filterMap fun (slot, index) =>
    slot.map fun cell => table.displacement cell.hash index

def countAt (counts : Array Nat) (place : Nat) : Array Nat :=
  (counts ++ Array.replicate (place + 1 - counts.size) 0).modify place (· + 1)

/-- The entry at each displacement counts the values with it; the last entry is not zero. -/
def histogram (table : Table α) : List Nat :=
  (table.displacements.foldl countAt #[]).toList

end Table

structure Statistics where
  population : Nat
  trigger : Nat
  slots : Nat
  maxDisplacement : Nat
  meanDisplacement : Float
  loadFactor : Float
  totalBytes : Nat
  wastedBytes : Nat

def ratio (count whole : Nat) : Float :=
  if whole = 0 then 0 else Float.ofNat count / Float.ofNat whole

def Table.statistics {α : Type} (slotBytes : Nat) (table : Table α) : Statistics :=
  let histogram := table.histogram
  let total := histogram.zipIdx.foldl
    (fun total (count, displacement) => total + displacement * count) 0
  { population := table.population
    trigger := table.trigger
    slots := table.slotCount
    maxDisplacement := histogram.length - 1
    meanDisplacement := ratio total table.population
    loadFactor := ratio table.population table.slotCount
    totalBytes := table.slotCount * slotBytes
    wastedBytes := (table.slotCount - table.population) * slotBytes }

end RobinHood
