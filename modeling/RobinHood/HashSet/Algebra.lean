import RobinHood.HashSet.Basic

/-! Relations and combinations of two sets, each asked under its own hash function. A combination is
a list of members, or a walk that looks for the next of them when it is asked. -/

namespace RobinHood.HashSet

variable {T : Type} [BEq T]

/-- The members of the first set, in its order, that the second does not have. -/
def difference (set other : HashSet T) : Except TableError (List T) :=
  set.toList.filterM fun value => do return !(← other.contains value)

/-- The common members, in the order and spelling of the smaller set. -/
def intersection (set other : HashSet T) : Except TableError (List T) :=
  if set.size ≤ other.size then set.toList.filterM other.contains
  else other.toList.filterM set.contains

def union (set other : HashSet T) : Except TableError (List T) := do
  return set.toList ++ (← other.difference set)

/-- What one of the sets has and the other has not, the first set's members first. -/
def symmetricDifference (set other : HashSet T) : Except TableError (List T) := do
  return (← set.difference other) ++ (← other.difference set)

def isDisjoint (set other : HashSet T) : Except TableError Bool :=
  if set.size ≤ other.size then set.toList.allM fun value => do return !(← other.contains value)
  else other.toList.allM fun value => do return !(← set.contains value)

def isSubset (set other : HashSet T) : Except TableError Bool :=
  if set.size ≤ other.size then set.toList.allM other.contains else .ok false

def isSuperset (set other : HashSet T) : Except TableError Bool :=
  other.isSubset set

def equals (set other : HashSet T) : Except TableError Bool :=
  if set.size ≠ other.size then .ok false else set.toList.allM other.contains

/-- A walk over the members of a set that another set has, or over those that it has not. -/
structure SelectingWalk (T : Type) where
  members : Table.Walk T
  other : HashSet T
  shared : Bool

namespace SelectingWalk

def seek (other : HashSet T) (shared : Bool) : (count : Nat) → Table.Walk T →
    Except TableError (Option T × Table.Walk T)
  | 0, members => return (none, members)
  | count + 1, members =>
      match members.step .front with
      | (none, members) => return (none, members)
      | (some value, members) => do
          if (← other.contains value) = shared then return (some value, members)
          else seek other shared count members

def next (walk : SelectingWalk T) : Except TableError (Option T × SelectingWalk T) := do
  let (value, members) ← seek walk.other walk.shared walk.members.cursor.remaining walk.members
  return (value, { walk with members })

end SelectingWalk

def differenceWalk (set other : HashSet T) : SelectingWalk T :=
  { members := set.table.walk, other, shared := false }

def intersectionWalk (set other : HashSet T) : SelectingWalk T :=
  if set.size ≤ other.size then { members := set.table.walk, other, shared := true }
  else { members := other.table.walk, other := set, shared := true }

structure UnionWalk (T : Type) where
  members : Table.Walk T
  rest : SelectingWalk T

def UnionWalk.next (walk : UnionWalk T) : Except TableError (Option T × UnionWalk T) :=
  match walk.members.step .front with
  | (some value, members) => return (some value, { walk with members })
  | (none, members) => do
      let (value, rest) ← walk.rest.next
      return (value, { members, rest })

def unionWalk (set other : HashSet T) : UnionWalk T :=
  { members := set.table.walk, rest := other.differenceWalk set }

/-- Two walks one after the other; the first is let go when it has nothing more to give. -/
structure SymmetricWalk (T : Type) where
  mine : Option (SelectingWalk T)
  theirs : SelectingWalk T

namespace SymmetricWalk

def nextOfTheirs (walk : SymmetricWalk T) : Except TableError (Option T × SymmetricWalk T) := do
  let (value, theirs) ← walk.theirs.next
  return (value, { mine := none, theirs })

def next (walk : SymmetricWalk T) : Except TableError (Option T × SymmetricWalk T) := do
  match walk.mine with
  | none => walk.nextOfTheirs
  | some mine =>
      match ← mine.next with
      | (some value, mine) => return (some value, { walk with mine := some mine })
      | (none, _) => walk.nextOfTheirs

end SymmetricWalk

def symmetricDifferenceWalk (set other : HashSet T) : SymmetricWalk T :=
  { mine := some (set.differenceWalk other), theirs := other.differenceWalk set }

end RobinHood.HashSet
