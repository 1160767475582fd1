import RobinHood.Text.Outline

/-! Why a table operation can fail. -/

namespace RobinHood

/-- A promise between a table's own operations that did not hold. Tables built by the public
operations never show one. -/
inductive Breach where
  /-- A probe entered a table without slots. -/
  | unallocated
  | evenHash
  | slotOutside (slot : Nat)
  /-- A value was expected. -/
  | slotEmpty (slot : Nat)
  /-- A free slot was expected. -/
  | slotTaken (slot : Nat)
  /-- A value was to be added to a table at its trigger. -/
  | noRoom
  /-- A value was taken from a table that counts none. -/
  | miscounted
  | slotCount (slots : Nat)
  /-- A walk around the ring did not meet what ends it. -/
  | endless
deriving DecidableEq

inductive TableError where
  /-- The requested number of slots cannot be represented. -/
  | capacityOverflow
  | allocationFailure (slots : Nat)
  | keyNotFound
  /-- A structural check failed at a slot. -/
  | invariantViolation (slot : Nat) (reason : String)
  | broken (breach : Breach)
deriving DecidableEq

namespace Breach

def message : Breach → String
  | unallocated => "probe of a table without slots"
  | evenHash => "even stored hash"
  | slotOutside slot => s!"slot {slot} lies outside the table"
  | slotEmpty slot => s!"slot {slot} is empty"
  | slotTaken slot => s!"slot {slot} is taken"
  | noRoom => "no room below the trigger"
  | miscounted => "a value that was not counted"
  | slotCount slots => s!"a table cannot be moved to {slots} slots"
  | endless => "walk without an end"

end Breach

namespace TableError

def message : TableError → String
  | capacityOverflow => "capacity overflow"
  | allocationFailure slots => s!"failed to allocate a table of {slots} slots"
  | keyNotFound => "key not found"
  | invariantViolation slot reason => s!"table invariant violated at slot {slot}: {reason}"
  | broken breach => breach.message

def outline : TableError → Outline
  | capacityOverflow => .atom "CapacityOverflow"
  | allocationFailure slots => .record "AllocationFailure" [("slots", .number slots)]
  | keyNotFound => .atom "KeyNotFound"
  | invariantViolation slot reason =>
      .record "InvariantViolation" [("slot", .number slot), ("reason", .quoted reason)]
  | broken breach => .record "Broken" [("breach", .quoted breach.message)]

end TableError

end RobinHood
