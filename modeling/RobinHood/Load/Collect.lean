import RobinHood.HashMap.Entry
import RobinHood.HashSet.Basic
import RobinHood.Load.Source

/-! Loading a map or a set from a source. The announced count is not trusted: room is made for a
bounded number of items at first. -/

namespace RobinHood

/-- How many items room is made for before the first one is read. -/
def trustedItems : Nat := 65536

namespace Source

def initialCapacity {α : Type} (source : Source α) : Nat :=
  min (source.announced.getD 0) trustedItems

/-- Fails with what the source met after its items. -/
def finish {α β : Type} (source : Source α) (result : β) : Except LoadFault β :=
  match source.fault with
  | none => .ok result
  | some fault => .error fault

end Source

def HashMap.load {K V : Type} [BEq K] (memory : Memory) (hash : K → UInt64)
    (source : Source (K × V)) : Except LoadFault (HashMap K V) := do
  let map ← (HashMap.withCapacity memory source.initialCapacity hash).mapError .table
  let map ← (map.insertAll memory source.items).mapError .table
  source.finish map

def HashSet.load {T : Type} [BEq T] (memory : Memory) (hash : T → UInt64) (source : Source T) :
    Except LoadFault (HashSet T) := do
  let set ← (HashSet.withCapacity memory source.initialCapacity hash).mapError .table
  let set ← (set.insertAll memory source.items).mapError .table
  source.finish set

end RobinHood
