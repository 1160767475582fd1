import RobinHood.Proofs.Guarded.Shifting
import RobinHood.Proofs.ProbeEnds

/-!
What one removal and one insertion do to the slots. Removing closes the gap with the run behind it,
up to the first slot that is free or holds a value at its home. Inserting opens a gap where the
probe ended and moves the run there into the first free slot. Nothing else moves.
-/

namespace RobinHood.Table

variable {α : Type} {table result : Table α} {index : Nat}

/-- A slot that is free or holds a value at its home. -/
def Settled (table : Table α) (index : Nat) : Prop :=
  ∀ cell, table.slot index = some cell → table.home cell.hash = index

theorem Shaped.settled_iff (shaped : Shaped table) (bound : index < table.slotCount) :
    table.Settled index ↔ table.reach index ≤ 1 := by
  cases held : table.slot index with
  | none => simp [Settled, held, reach_of_free held]
  | some cell =>
      have apart := shaped.displacement_cases cell.hash bound
      have homeBound := shaped.home_lt cell.hash
      simp only [Settled, held, reach_of_cell held, Option.some.injEq, forall_eq']
      omega

structure RunStops (table : Table α) (index steps : Nat) : Prop where
  behind : 0 < steps
  round : steps < table.slotCount
  stops : table.Settled (table.after index steps)
  runs : ∀ offset, 0 < offset → offset < steps → ¬ table.Settled (table.after index offset)

structure FirstFree (table : Table α) (index steps : Nat) : Prop where
  round : steps < table.slotCount
  free : table.slot (table.after index steps) = none
  taken : ∀ offset < steps, table.slot (table.after index offset) ≠ none

/-- Each slot from `index` up to the one before the last of `steps` has what its successor had, the
last one is free, and no other slot has changed. -/
structure GapClosed (table result : Table α) (index steps : Nat) : Prop where
  moved : ∀ offset, offset + 1 < steps → ∃ cell,
    table.slot (table.next (table.after index offset)) = some cell ∧
      result.slot (table.after index offset) = some cell ∧
        result.displacement cell.hash (table.after index offset) + 1 =
          table.displacement cell.hash (table.next (table.after index offset))
  gap : result.slot (table.previous (table.after index steps)) = none
  kept : ∀ position, (∀ offset < steps, position ≠ table.after index offset) →
    result.slot position = table.slot position
  shape : SameShape table result
  population : result.population + 1 = table.population
  checked : result.check = .ok ()

/-- The slot `index` has the new cell, each of the `steps` slots from there on has passed what it
had to its successor, and no other slot has changed. -/
structure GapFilled (table result : Table α) (index steps : Nat) (cell : Cell α) : Prop where
  placed : result.slot index = some cell
  moved : ∀ offset < steps, ∃ resident,
    table.slot (table.after index offset) = some resident ∧
      result.slot (table.next (table.after index offset)) = some resident ∧
        result.displacement resident.hash (table.next (table.after index offset)) =
          table.displacement resident.hash (table.after index offset) + 1
  kept : ∀ position, (∀ offset ≤ steps, position ≠ table.after index offset) →
    result.slot position = table.slot position
  shape : SameShape table result
  population : result.population = table.population + 1
  checked : result.check = .ok ()

/-- The slot `distance` on from the home of a hash comes behind every value of the same home, and
before every value whose home lies farther on. -/
structure StandsBetween (table : Table α) (hash : UInt64) (distance : Nat) : Prop where
  behind : ∀ steps < table.slotCount, steps ≠ distance → ∀ cell,
    table.slot (table.after (table.home hash) steps) = some cell →
      table.home cell.hash = table.home hash → steps < distance
  before : ∀ steps < table.slotCount, steps ≠ distance → ∀ cell,
    table.slot (table.after (table.home hash) steps) = some cell →
      ∀ farther, 0 < farther → farther ≤ steps →
        table.home cell.hash = table.after (table.home hash) farther → distance < steps

theorem previous_after (allocated : 0 < table.slotCount) (index steps : Nat) :
    table.previous (table.after index (steps + 1)) = table.after index steps := by
  rw [← next_after, previous_next (after_lt allocated index steps)]

theorem SameShape.slot_outside {position : Nat} (same : SameShape table result)
    (outside : table.slotCount ≤ position) : result.slot position = table.slot position := by
  rw [slot_of_le outside, slot_of_le (by rw [same.slotCount]; exact outside)]

theorem Removed.runStops {steps : Nat} {cell : Cell α}
    (removed : Removed table result index steps cell) (shaped : Shaped table) :
    table.RunStops index steps := by
  have settled (offset : Nat) := shaped.settled_iff (after_lt shaped.allocated index offset)
  constructor
  case behind => exact removed.steps_pos
  case round => exact removed.steps_lt
  case stops => exact (settled steps).mpr removed.ends
  case runs =>
    intro offset positive before
    have far := removed.run offset positive before
    rw [settled offset]
    omega

theorem Removed.gapClosed {steps : Nat} {cell : Cell α}
    (removed : Removed table result index steps cell) (sound : Sound table)
    (bound : index < table.slotCount) : GapClosed table result index steps := by
  have allocated := sound.shaped.allocated
  have positive := removed.steps_pos
  have round := removed.steps_lt
  constructor
  case moved =>
    intro offset before
    have content := removed.slots offset (by omega)
    rw [if_pos before, ← next_after] at content
    have far := removed.run (offset + 1) (by omega) before
    rw [← next_after] at far
    obtain ⟨resident, held, displaced⟩ := exists_cell_of_lt_reach far
    refine ⟨resident, held, content.trans held, ?_⟩
    rw [removed.shape.displacement, sound.shaped.displacement_before_next resident.hash
      (after_lt allocated index offset) (by omega)]
  case gap =>
    obtain ⟨last, rfl⟩ : ∃ last, steps = last + 1 := ⟨steps - 1, by omega⟩
    have content := removed.slots last (by omega)
    rw [if_neg (by omega), if_pos rfl] at content
    rw [previous_after allocated, content]
  case kept =>
    intro position apart
    by_cases inside : position < table.slotCount
    · obtain ⟨offset, offsetBound, rfl⟩ := exists_after bound inside
      have beyond : steps ≤ offset := by
        by_contra within
        exact apart offset (by omega) rfl
      rw [removed.slots offset offsetBound, if_neg (by omega), if_neg (by omega)]
    · exact removed.shape.slot_outside (by omega)
  case shape => exact removed.shape
  case population => exact removed.population
  case checked => exact check_iff_valid.mpr (.allocated (removed.sound sound bound))

/-- Removing gives the value and closes the gap, whether or not the run passes the end of the
array. The rotations of the array that move the run as a whole come to the same. -/
theorem removeAt_closes_gap {cell : Cell α} (checked : table.check = .ok ())
    (held : table.slot index = some cell) :
    ∃ steps result, table.RunStops index steps ∧
      table.removeAt index = .ok (cell.value, result) ∧ GapClosed table result index steps ∧
        (table.slotCount < 2 ^ 64 →
          Guarded.removeAt table index = pure (cell.value, result)) := by
  have valid := check_iff_valid.mp checked
  have sound := valid.sound_of_slot held
  obtain ⟨result, steps, answer, removed⟩ :=
    Table.removeAt_spec held sound.exists_free (valid.population_ne_zero held)
  refine ⟨steps, result, removed.runStops sound.shaped, answer, ?_, ?_⟩
  · exact removed.gapClosed sound (lt_of_slot held)
  · intro counted
    exact sound.removeAt_eq counted held answer

def closedAcross : Table Nat :=
  ofSlots (#[some ⟨0xF000000000000001, 30⟩, some ⟨0x1000000000000001, 40⟩] ++
    Array.replicate 13 none ++ #[some ⟨0xF000000000000003, 20⟩]) 3

theorem removeAt_acrossTheEnd :
    acrossTheEnd.removeAt 15 = .ok (10, closedAcross) ∧
      ∃ steps, acrossTheEnd.RunStops 15 steps ∧ GapClosed acrossTheEnd closedAcross 15 steps := by
  have checked : acrossTheEnd.check = .ok () := by decide +kernel
  have held : acrossTheEnd.slot 15 = some ⟨0xF000000000000001, 10⟩ := by decide +kernel
  have computed : acrossTheEnd.removeAt 15 = .ok (10, closedAcross) := by decide +kernel
  obtain ⟨steps, result, stops, removed, closed, _⟩ := removeAt_closes_gap checked held
  obtain rfl : closedAcross = result := by
    rw [computed] at removed
    exact (Prod.mk.inj (Except.ok.inj removed)).2
  exact ⟨computed, steps, stops, closed⟩

theorem Inserted.firstFree {steps : Nat} {cell : Cell α}
    (inserted : Inserted table result index steps cell) : table.FirstFree index steps :=
  ⟨inserted.steps_lt, inserted.hole, inserted.run⟩

theorem Inserted.gapFilled {steps : Nat} {cell : Cell α}
    (inserted : Inserted table result index steps cell) (ordered : Ordered table)
    (bound : index < table.slotCount) (checked : result.check = .ok ()) :
    GapFilled table result index steps cell := by
  have allocated := ordered.shaped.allocated
  have round := inserted.steps_lt
  constructor
  case placed => exact inserted.placed bound
  case moved =>
    intro offset before
    have content := inserted.slots (offset + 1) (by omega)
    rw [if_neg (by omega), if_pos (by omega), Nat.add_sub_cancel, ← next_after] at content
    obtain ⟨resident, held⟩ := Option.ne_none_iff_exists'.mp (inserted.run offset before)
    refine ⟨resident, held, content.trans held, ?_⟩
    rw [inserted.shape.displacement,
      ordered.displacement_next ⟨_, after_lt allocated _ _, inserted.hole⟩ held,
      reach_of_cell held]
  case kept =>
    intro position apart
    by_cases inside : position < table.slotCount
    · obtain ⟨offset, offsetBound, rfl⟩ := exists_after bound inside
      have beyond : steps < offset := by
        by_contra within
        exact apart offset (by omega) rfl
      rw [inserted.slots offset offsetBound, if_neg (by omega), if_neg (by omega)]
    · exact inserted.shape.slot_outside (by omega)
  case shape => exact inserted.shape
  case population => exact inserted.population
  case checked => exact checked

theorem Inserted.reach_next_le {steps : Nat} {cell : Cell α}
    (inserted : Inserted table result index steps cell) (ordered : Ordered table)
    (bound : index < table.slotCount) :
    result.reach (table.next index) ≤ table.reach index + 1 := by
  have least := ordered.shaped.sixteen_le
  have following := inserted.reach ordered bound 1 (by omega)
  have gradual := ordered.gradual bound
  rw [next_eq] at gradual ⊢
  rw [if_neg (by omega), Nat.sub_self, after_zero bound] at following
  split at following <;> omega

theorem Ordered.standsBetween {cell : Cell α} {distance : Nat} (ordered : Ordered table)
    (held : table.slot index = some cell)
    (displaced : table.displacement cell.hash index = distance)
    (last : table.reach (table.next index) ≤ distance + 1) :
    table.StandsBetween cell.hash distance := by
  have shaped := ordered.shaped
  have arrival := shaped.after_displacement cell.hash (lt_of_slot held)
  rw [displaced] at arrival
  constructor
  case behind =>
    intro steps round apart resident present sameHome
    by_contra beyond
    have path := shaped.displacement_after resident.hash round
    rw [sameHome] at path
    have passes : distance + 1 ≤ table.displacement resident.hash
        (table.after (table.home cell.hash) steps) := by omega
    have far := ordered.lt_reach_of_le present passes
    rw [sameHome, ← next_after, arrival] at far
    omega
  case before =>
    intro steps round apart resident present farther positive within laterHome
    by_contra nearer
    have passes : steps ≤ table.displacement cell.hash index := by omega
    have near := ordered.lt_reach_of_le held passes
    have apartHomes : steps - farther < table.slotCount := by omega
    have path := shaped.displacement_after resident.hash apartHomes
    rw [laterHome, after_after, Nat.add_sub_cancel' within] at path
    rw [reach_of_cell present] at near
    omega

/-- Inserting where a probe ended opens the gap there and nowhere else, and puts the value in its
place among the values of the path. The rotations of the array that move the run as a whole come to
the same. -/
theorem insertAt_opens_gap {hash : UInt64} {accept : α → Bool} {distance : Nat}
    (checked : table.check = .ok ()) (room : table.population < table.trigger)
    (odd : hash % 2 = 1) (vacant : table.probe hash accept = .ok (.vacant index distance))
    (value : α) :
    ∃ steps result, table.FirstFree index steps ∧
      table.insertAt index hash value = .ok result ∧
        GapFilled table result index steps { hash, value } ∧
          index = result.after (result.home hash) distance ∧
            result.StandsBetween hash distance ∧
              (table.slotCount < 2 ^ 64 →
                Guarded.insertAt table index hash value = pure result) := by
  have valid := check_iff_valid.mp checked
  have allocated : table.slotCount ≠ 0 := by
    have share := valid.eight_mul_trigger
    omega
  have sound := valid.sound allocated
  have shaped := sound.shaped
  have ended : VacantAt table hash accept index distance := by
    rcases sound.probe_cases odd accept with
      ⟨place, steps, probed, _⟩ | ⟨place, steps, probed, ended⟩
    · simp [vacant] at probed
    · simp only [vacant, Except.ok.injEq, Probe.vacant.injEq] at probed
      obtain ⟨rfl, rfl⟩ := probed
      exact ended
  have bound := ended.index_lt shaped
  have displaced := ended.displacement_eq shaped sound.exists_free
  have gives := ended.gives
  obtain ⟨result, steps, answer, inserted, resultSound⟩ :=
    ended.insertAt_spec sound room odd value
  have filled := inserted.gapFilled sound.toOrdered bound
    (check_iff_valid.mpr (.allocated resultSound))
  have same := inserted.shape
  refine ⟨steps, result, inserted.firstFree, answer, filled, ?_, ?_, ?_⟩
  · rw [same.after, same.home]
    exact ended.index_eq
  · refine resultSound.standsBetween filled.placed ?_ ?_
    · rw [same.displacement, displaced]
    · have next := inserted.reach_next_le sound.toOrdered bound
      rw [next_eq, same.after, ← next_eq]
      omega
  · intro counted
    exact sound.insertAt_eq counted bound room answer

def openedAcross : Table Nat :=
  ofSlots (#[some ⟨0xF000000000000003, 20⟩, some ⟨0xF000000000000001, 30⟩,
    some ⟨0xF000000000000005, 50⟩, some ⟨0x1000000000000001, 40⟩] ++ Array.replicate 11 none ++
      #[some ⟨0xF000000000000001, 10⟩]) 5

theorem insertAt_acrossTheEnd :
    acrossTheEnd.insertAt 2 0xF000000000000005 50 = .ok openedAcross ∧
      openedAcross.StandsBetween 0xF000000000000005 3 ∧
        ∃ steps, acrossTheEnd.FirstFree 2 steps ∧
          GapFilled acrossTheEnd openedAcross 2 steps ⟨0xF000000000000005, 50⟩ := by
  have checked : acrossTheEnd.check = .ok () := by decide +kernel
  have room : acrossTheEnd.population < acrossTheEnd.trigger := by decide +kernel
  have odd : (0xF000000000000005 : UInt64) % 2 = 1 := by decide
  have vacant : acrossTheEnd.probe 0xF000000000000005 (· == 50) = .ok (.vacant 2 3) := by
    decide +kernel
  have computed : acrossTheEnd.insertAt 2 0xF000000000000005 50 = .ok openedAcross := by
    decide +kernel
  obtain ⟨steps, result, firstFree, inserted, filled, _, between, _⟩ :=
    insertAt_opens_gap checked room odd vacant 50
  obtain rfl : openedAcross = result := by
    rw [computed] at inserted
    exact Except.ok.inj inserted
  exact ⟨computed, between, steps, firstFree, filled⟩

end RobinHood.Table
