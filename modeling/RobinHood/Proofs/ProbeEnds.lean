import RobinHood.Proofs.Checking
import RobinHood.Proofs.Guarded.Lookup

/-!
The end of a probe, as the slots alone tell it. A checked ring has exactly one place where a probe
may end. The walk stops there, early as it may be, and a value that it has not met by then is
nowhere in the table.
-/

namespace RobinHood

variable {α : Type} {hash : UInt64} {accept : α → Bool}

theorem Cell.accept_eq_false {cell : Cell α} (unmatched : cell.matches hash accept = false)
    (same : cell.hash = hash) : accept cell.value = false := by
  simpa [Cell.matches, same] using unmatched

namespace Table

variable {table : Table α} {index distance : Nat}

/-- A slot holds an accepted value of the hash, and no slot before it on the path does. -/
structure EndsFound (table : Table α) (hash : UInt64) (accept : α → Bool) (index distance : Nat) :
    Prop where
  held : ∃ cell, table.slot index = some cell ∧ cell.hash = hash ∧ accept cell.value = true ∧
    table.displacement cell.hash index = distance
  first : ∀ steps < distance, ∀ cell,
    table.slot (table.after (table.home hash) steps) = some cell → cell.hash = hash →
      accept cell.value = false

/-- No slot of the table holds an accepted value of the hash. The slots before this one on the path
are taken by values at least as far from home as the path has come; this one gives way. -/
structure EndsVacant (table : Table α) (hash : UInt64) (accept : α → Bool) (index distance : Nat) :
    Prop where
  arrives : index = table.after (table.home hash) distance
  round : distance < table.slotCount
  absent : ∀ position cell, table.slot position = some cell → cell.hash = hash →
    accept cell.value = false
  passed : ∀ steps < distance, ∃ cell,
    table.slot (table.after (table.home hash) steps) = some cell ∧
      steps ≤ table.displacement cell.hash (table.after (table.home hash) steps)
  gives : ∀ cell, table.slot index = some cell → table.displacement cell.hash index < distance

def Ends (table : Table α) (hash : UInt64) (accept : α → Bool) : Probe → Prop
  | .found index distance => table.EndsFound hash accept index distance
  | .vacant index distance => table.EndsVacant hash accept index distance

theorem FoundAt.endsFound (found : FoundAt table hash accept index distance) :
    table.EndsFound hash accept index distance := by
  obtain ⟨cell, held, matched⟩ := found.cell
  obtain ⟨same, accepted⟩ := Cell.matches_iff.mp matched
  constructor
  case held => exact ⟨cell, held, same, accepted, by rw [same, found.displacement_eq]⟩
  case first =>
    intro steps before resident present agrees
    exact Cell.accept_eq_false (found.first steps before resident present) agrees

theorem VacantAt.endsVacant (vacant : VacantAt table hash accept index distance)
    (sound : Sound table) : table.EndsVacant hash accept index distance := by
  constructor
  case arrives => exact vacant.index_eq
  case round => exact vacant.distance_lt sound.shaped sound.exists_free
  case absent =>
    intro position cell held agrees
    exact Cell.accept_eq_false (vacant.absent held) agrees
  case passed =>
    intro steps before
    exact exists_cell_of_lt_reach (vacant.passed steps before)
  case gives =>
    intro cell held
    have gives := vacant.gives
    rw [reach_of_cell held] at gives
    exact gives

theorem EndsFound.arrives (found : table.EndsFound hash accept index distance)
    (shaped : Shaped table) : index = table.after (table.home hash) distance := by
  obtain ⟨cell, held, same, _, displaced⟩ := found.held
  rw [← displaced, same, shaped.after_displacement hash (lt_of_slot held)]

theorem EndsFound.not_lt {other farther : Nat} (shaped : Shaped table)
    (found : table.EndsFound hash accept index distance)
    (later : table.EndsFound hash accept other farther) : ¬ distance < farther := by
  intro before
  obtain ⟨cell, held, same, accepted, _⟩ := found.held
  rw [found.arrives shaped] at held
  have rejected := later.first distance before cell held same
  simp [accepted] at rejected

theorem EndsVacant.not_lt {other farther : Nat}
    (vacant : table.EndsVacant hash accept index distance)
    (later : table.EndsVacant hash accept other farther) : ¬ distance < farther := by
  intro before
  obtain ⟨cell, held, far⟩ := later.passed distance before
  rw [← vacant.arrives] at held far
  have near := vacant.gives cell held
  omega

theorem EndsFound.not_endsVacant {other farther : Nat}
    (found : table.EndsFound hash accept index distance) :
    ¬ table.EndsVacant hash accept other farther := by
  intro vacant
  obtain ⟨cell, held, same, accepted, _⟩ := found.held
  have rejected := vacant.absent index cell held same
  simp [accepted] at rejected

theorem Ends.unique {outcome other : Probe} (shaped : Shaped table)
    (ends : table.Ends hash accept outcome) (otherEnds : table.Ends hash accept other) :
    other = outcome := by
  -- Two ends of one kind lie on the same path, and the nearer one rules out the other.
  cases outcome with
  | found index distance =>
      cases other with
      | found place farther =>
          have found : table.EndsFound hash accept index distance := ends
          have later : table.EndsFound hash accept place farther := otherEnds
          have near := found.not_lt shaped later
          have far := later.not_lt shaped found
          obtain rfl : farther = distance := by omega
          rw [found.arrives shaped, later.arrives shaped]
      | vacant place farther => exact absurd otherEnds (EndsFound.not_endsVacant ends)
  | vacant index distance =>
      cases other with
      | found place farther => exact absurd ends (EndsFound.not_endsVacant otherEnds)
      | vacant place farther =>
          have vacant : table.EndsVacant hash accept index distance := ends
          have later : table.EndsVacant hash accept place farther := otherEnds
          have near := vacant.not_lt later
          have far := later.not_lt vacant
          obtain rfl : farther = distance := by omega
          rw [vacant.arrives, later.arrives]

/-- A probe of a checked table ends at the one place where it may. So does the walk that nothing
bounds, as long as a word can count the slots. -/
theorem probe_exact (checked : table.check = .ok ()) (allocated : table.slotCount ≠ 0)
    (odd : hash % 2 = 1) (accept : α → Bool) :
    ∃ outcome, table.probe hash accept = .ok outcome ∧ table.Ends hash accept outcome ∧
      (∀ other, table.Ends hash accept other → other = outcome) ∧
        (table.slotCount < 2 ^ 64 → Guarded.probe table hash accept = pure outcome) := by
  have sound := (check_iff_valid.mp checked).sound allocated
  have shaped := sound.shaped
  obtain ⟨outcome, probed, ends⟩ : ∃ outcome, table.probe hash accept = .ok outcome ∧
      table.Ends hash accept outcome := by
    rcases sound.probe_cases odd accept with
      ⟨index, distance, probed, found⟩ | ⟨index, distance, probed, vacant⟩
    · exact ⟨.found index distance, probed, found.endsFound⟩
    · exact ⟨.vacant index distance, probed, vacant.endsVacant sound⟩
  exact ⟨outcome, probed, ends, fun other otherEnds => ends.unique shaped otherEnds,
    fun counted => shaped.probe_eq counted odd accept probed⟩

def acrossTheEnd : Table Nat :=
  ofSlots (#[some ⟨0xF000000000000003, 20⟩, some ⟨0xF000000000000001, 30⟩,
    some ⟨0x1000000000000001, 40⟩] ++ Array.replicate 12 none ++
      #[some ⟨0xF000000000000001, 10⟩]) 4

theorem probe_acrossTheEnd :
    acrossTheEnd.probe 0xF000000000000001 (· == 30) = .ok (.found 1 2) ∧
      acrossTheEnd.EndsFound 0xF000000000000001 (· == 30) 1 2 ∧
        acrossTheEnd.probe 0xF000000000000001 (· == 40) = .ok (.vacant 2 3) ∧
          acrossTheEnd.EndsVacant 0xF000000000000001 (· == 40) 2 3 := by
  have checked : acrossTheEnd.check = .ok () := by decide +kernel
  have allocated : acrossTheEnd.slotCount ≠ 0 := by decide +kernel
  have odd : (0xF000000000000001 : UInt64) % 2 = 1 := by decide
  have hit : acrossTheEnd.probe 0xF000000000000001 (· == 30) = .ok (.found 1 2) := by
    decide +kernel
  have miss : acrossTheEnd.probe 0xF000000000000001 (· == 40) = .ok (.vacant 2 3) := by
    decide +kernel
  obtain ⟨_, probed, found, _⟩ := probe_exact checked allocated odd (· == 30)
  obtain rfl := Except.ok.inj (hit.symm.trans probed)
  obtain ⟨_, probed, vacant, _⟩ := probe_exact checked allocated odd (· == 40)
  obtain rfl := Except.ok.inj (miss.symm.trans probed)
  exact ⟨hit, found, miss, vacant⟩

end Table

end RobinHood
