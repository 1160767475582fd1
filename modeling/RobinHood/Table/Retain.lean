import RobinHood.Table.Shift

/-! Keeping some of the values. The ring is walked once around from a free slot; closing a gap
never moves a value across that slot, so each value is offered once. -/

namespace RobinHood

namespace Table

variable {α σ : Type}

/-- Offers the values from `index` up to `start`, and counts the rounds made. A value is kept, as
the offer returns it, or taken out; in that case the same slot is offered again. -/
def retainFrom (offer : σ → α → Option α × σ) (start : Nat) :
    (fuel rounds index : Nat) → σ → Table α → Except TableError (Nat × σ × Table α)
  | 0, rounds, index, state, table =>
      if index = start then .ok (rounds, state, table) else .error (.broken .endless)
  | fuel + 1, rounds, index, state, table =>
      if index = start then .ok (rounds, state, table)
      else
        match table.slot index with
        | none => retainFrom offer start fuel (rounds + 1) (table.next index) state table
        | some cell =>
            match offer state cell.value with
            | (some value, state) =>
                retainFrom offer start fuel (rounds + 1) (table.next index) state
                  (table.modifyAt index fun _ => value)
            | (none, state) => do
                let (_, table) ← table.removeAt index
                retainFrom offer start fuel (rounds + 1) index state table

/-- Offers every value of a table with any, starting after its first free slot. -/
def retainRounds (offer : σ → α → Option α × σ) (state : σ) (table : Table α) :
    Except TableError (Nat × σ × Table α) := do
  let start ← table.stepsToFree 0
  retainFrom offer start (table.slotCount + table.population) 0 (table.next start) state table

def retain (offer : σ → α → Option α × σ) (state : σ) (table : Table α) :
    Except TableError (σ × Table α) :=
  if table.population = 0 then .ok (state, table)
  else (retainRounds offer state table).map Prod.snd

end Table

end RobinHood
