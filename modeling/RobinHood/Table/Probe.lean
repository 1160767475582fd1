import RobinHood.Search
import RobinHood.Table.Basic

/-! Looking a hash up. The walk starts at the hash's home and ends at a value that the caller
accepts, at a free slot, or at a value closer to its own home than the walk is to the hash's:
had the hash been stored beyond, it would have taken that slot. -/

namespace RobinHood

/-- Where a walk ended, and after how many steps. -/
inductive Probe where
  | found (index distance : Nat)
  /-- The hash belongs at this slot, which is free or held by a value that gives way. -/
  | vacant (index distance : Nat)
deriving DecidableEq

namespace Probe

def distance : Probe → Nat
  | found _ distance => distance
  | vacant _ distance => distance

end Probe

namespace Table

variable {α : Type}

/-- What a walk decides at one of its steps; nothing if it goes on. -/
def probeAt (table : Table α) (hash : UInt64) (accept : α → Bool) (distance : Nat) :
    Option Probe :=
  let index := table.after (table.home hash) distance
  match table.slot index with
  | none => some (.vacant index distance)
  | some cell =>
      if cell.hash == hash && accept cell.value then some (.found index distance)
      else if table.displacement cell.hash index < distance then some (.vacant index distance)
      else none

/-- Walks the path of a stored hash. After one round every slot gives way. -/
def probe (table : Table α) (hash : UInt64) (accept : α → Bool) : Except TableError Probe :=
  if table.slotCount = 0 then .error (.broken .unallocated)
  else if hash % 2 = 0 then .error (.broken .evenHash)
  else if table.slotCount ≤ table.home hash then
    .error (.broken (.slotOutside (table.home hash)))
  else
    match firstAnswer (table.probeAt hash accept) 0 (table.slotCount + 1) with
    | some probe => .ok probe
    | none => .error (.broken .endless)

def findIndex (table : Table α) (raw : UInt64) (accept : α → Bool) :
    Except TableError (Option Nat) :=
  if table.population = 0 then .ok none
  else
    match table.probe (storedHash raw) accept with
    | .error error => .error error
    | .ok (.found index _) => .ok (some index)
    | .ok (.vacant _ _) => .ok none

def find (table : Table α) (raw : UInt64) (accept : α → Bool) : Except TableError (Option α) := do
  match ← table.findIndex raw accept with
  | none => return none
  | some index => return (table.slot index).map Cell.value

def findModify (table : Table α) (raw : UInt64) (accept : α → Bool) (change : α → α) :
    Except TableError (Option α × Table α) := do
  match ← table.findIndex raw accept with
  | none => return (none, table)
  | some index =>
      let changed := table.modifyAt index change
      return ((changed.slot index).map Cell.value, changed)

def probeLength (table : Table α) (raw : UInt64) (accept : α → Bool) : Except TableError Nat :=
  if table.population = 0 then .ok 0
  else (table.probe (storedHash raw) accept).map fun probe => probe.distance + 1

/-- The values that a lookup shows to the caller, in order: those whose stored hash agrees. -/
def consulted (table : Table α) (raw : UInt64) (accept : α → Bool) :
    Except TableError (List α) := do
  let visited ← table.probeLength raw accept
  let hash := storedHash raw
  return (List.range visited).filterMap fun distance =>
    match table.slot (table.after (table.home hash) distance) with
    | none => none
    | some cell => if cell.hash == hash then some cell.value else none

end Table

end RobinHood
