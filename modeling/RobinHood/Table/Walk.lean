import RobinHood.Search
import RobinHood.Table.Basic

/-! Walking over the values of a table, from both ends, in the order of the slots. Three walks
share one cursor: the first reads the values, the second changes them in place, the third takes
them out. -/

namespace RobinHood

namespace Table

variable {α : Type}

inductive Side where
  | front
  | back
deriving DecidableEq

/-- The slots between the two ends of a walk, and the number of values still to come. -/
structure Cursor where
  front : Nat
  back : Nat
  remaining : Nat
deriving DecidableEq

def cursor (table : Table α) : Cursor :=
  { front := 0, back := table.slotCount, remaining := table.population }

namespace Cursor

def sizeHint (cursor : Cursor) : Nat × Option Nat :=
  (cursor.remaining, some cursor.remaining)

def next (cursor : Cursor) (slots : Array (Slot α)) : Option Nat × Cursor :=
  if cursor.remaining = 0 then (none, cursor)
  else
    match firstWhere (fun index => (slots.getD index none).isSome) cursor.front
        (cursor.back - cursor.front) with
    | none => (none, { cursor with front := cursor.back })
    | some index =>
        (some index, { cursor with front := index + 1, remaining := cursor.remaining - 1 })

def nextBack (cursor : Cursor) (slots : Array (Slot α)) : Option Nat × Cursor :=
  if cursor.remaining = 0 then (none, cursor)
  else
    match firstWhere (fun passed => (slots.getD (cursor.back - 1 - passed) none).isSome) 0
        (cursor.back - cursor.front) with
    | none => (none, { cursor with back := cursor.front })
    | some passed =>
        (some (cursor.back - 1 - passed),
          { cursor with back := cursor.back - 1 - passed, remaining := cursor.remaining - 1 })

def step (cursor : Cursor) (slots : Array (Slot α)) : Side → Option Nat × Cursor
  | .front => cursor.next slots
  | .back => cursor.nextBack slots

end Cursor

/-- Repeats a step until it gives nothing, `count` times at most. -/
def collect {ω β : Type} (step : ω → Option β × ω) : (count : Nat) → ω → List β × ω
  | 0, walk => ([], walk)
  | count + 1, walk =>
      match step walk with
      | (none, walk) => ([], walk)
      | (some value, walk) =>
          let (values, walk) := collect step count walk
          (value :: values, walk)

def valueIn (slots : Array (Slot α)) (index : Nat) : Option α :=
  (slots.getD index none).map Cell.value

structure Walk (α : Type) where
  slots : Array (Slot α)
  cursor : Cursor

def walk (table : Table α) : Walk α :=
  { slots := table.slots, cursor := table.cursor }

namespace Walk

def step (walk : Walk α) (side : Side) : Option α × Walk α :=
  match walk.cursor.step walk.slots side with
  | (none, cursor) => (none, { walk with cursor })
  | (some index, cursor) => (valueIn walk.slots index, { walk with cursor })

def rest (walk : Walk α) (side : Side) : List α × Walk α :=
  collect (·.step side) walk.cursor.remaining walk

end Walk

/-- A walk that changes the values in place. -/
structure ChangingWalk (α : Type) where
  table : Table α
  cursor : Cursor

def changingWalk (table : Table α) : ChangingWalk α :=
  { table, cursor := table.cursor }

namespace ChangingWalk

def step (walk : ChangingWalk α) (side : Side) (change : α → α) : Option α × ChangingWalk α :=
  match walk.cursor.step walk.table.slots side with
  | (none, cursor) => (none, { walk with cursor })
  | (some index, cursor) =>
      let table := walk.table.modifyAt index change
      (valueIn table.slots index, { table, cursor })

def rest (walk : ChangingWalk α) (side : Side) (change : α → α) : List α × ChangingWalk α :=
  collect (·.step side change) walk.cursor.remaining walk

end ChangingWalk

/-- A walk that takes the values out of slots that no table has any more. -/
structure TakingWalk (α : Type) where
  slots : Array (Slot α)
  cursor : Cursor

def takingWalk (table : Table α) : TakingWalk α :=
  { slots := table.slots, cursor := table.cursor }

namespace TakingWalk

def step (walk : TakingWalk α) (side : Side) : Option α × TakingWalk α :=
  match walk.cursor.step walk.slots side with
  | (none, cursor) => (none, { walk with cursor })
  | (some index, cursor) =>
      (valueIn walk.slots index, { slots := walk.slots.setIfInBounds index none, cursor })

def rest (walk : TakingWalk α) (side : Side) : List α × TakingWalk α :=
  collect (·.step side) walk.cursor.remaining walk

end TakingWalk

end Table

end RobinHood
