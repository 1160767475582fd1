import RobinHood.Table.Basic

/-! Draining: the slots leave the table, which reads as empty from then on, and their values are
taken out from slot 0 up. Closing the drain hands the emptied slots back; abandoning it leaves the
table without slots. -/

namespace RobinHood

namespace Table

variable {α : Type}

structure Drain (α : Type) where
  slots : Array (Slot α)
  /-- The first slot not yet passed. -/
  index : Nat
  remaining : Nat

def drain (table : Table α) : Drain α :=
  { slots := table.slots, index := 0, remaining := table.population }

namespace Drain

def sizeHint (drain : Drain α) : Nat × Option Nat :=
  (drain.remaining, some drain.remaining)

def next (drain : Drain α) : Option α × Drain α :=
  go (drain.slots.size - drain.index) drain
where
  go : Nat → Drain α → Option α × Drain α
    | 0, drain => (none, drain)
    | fuel + 1, drain =>
        if drain.remaining = 0 then (none, drain)
        else
          let taken := drain.slots.getD drain.index none
          let slots := drain.slots.setIfInBounds drain.index none
          match taken with
          | none => go fuel { drain with slots, index := drain.index + 1 }
          | some cell =>
              let remaining := drain.remaining - 1
              (some cell.value, { slots, index := drain.index + 1, remaining })

def take : Nat → Drain α → List (Option α) × Drain α
  | 0, drain => ([], drain)
  | count + 1, drain =>
      let (value, drain) := drain.next
      let (values, drain) := take count drain
      (value :: values, drain)

/-- Empties the slots not yet passed and makes a table of all of them. -/
def close (drain : Drain α) : Table α :=
  ofSlots (drain.slots.mapIdx fun index slot => if drain.index ≤ index then none else slot) 0

/-- What the table is while the drain is open, and stays if it is never closed. -/
def abandon (_ : Drain α) : Table α :=
  empty

end Drain

end Table

end RobinHood
