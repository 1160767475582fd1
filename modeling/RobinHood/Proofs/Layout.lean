import RobinHood.Proofs.Checking
import RobinHood.Proofs.Lookups
import RobinHood.Table.Report

/-!
The layout of a ring is fixed by the homes of its cells. How far from home the cell in a slot lies
is a matter of counting: some stretch of slots before it must be the home of enough cells.
-/

namespace RobinHood.Table

variable {α β : Type} {table : Table α} {other : Table β}

/-- How many cells have their home in the `width` slots from `base` on. -/
def homesIn (table : Table α) (base width : Nat) : Nat :=
  table.cells.countP fun cell => decide (table.ahead base (table.home cell.hash) < width)

theorem exists_last_free {start : Nat} (empty : table.slot (table.after start 0) = none)
    (total : Nat) :
    ∃ last ≤ total, table.slot (table.after start last) = none ∧
      ∀ offset, last < offset → offset ≤ total → table.slot (table.after start offset) ≠ none := by
  induction total with
  | zero => exact ⟨0, Nat.le_refl 0, empty, fun _ later within => absurd within (by omega)⟩
  | succ total ih =>
      by_cases vacant : table.slot (table.after start (total + 1)) = none
      · exact ⟨total + 1, Nat.le_refl _, vacant, fun _ later within => absurd within (by omega)⟩
      · obtain ⟨last, within, free, taken⟩ := ih
        refine ⟨last, by omega, free, ?_⟩
        intro offset later bound
        by_cases ends : offset = total + 1
        · rw [ends]
          exact vacant
        · exact taken offset later (by omega)

theorem exists_run (free : ∃ hole < table.slotCount, table.slot hole = none) {index : Nat}
    (bound : index < table.slotCount) :
    ∃ hole < table.slotCount, ∃ steps < table.slotCount, table.slot hole = none ∧
      table.after hole steps = index ∧
        ∀ offset, 0 < offset → offset ≤ steps → table.slot (table.after hole offset) ≠ none := by
  obtain ⟨start, startBound, empty⟩ := free
  obtain ⟨total, totalBound, arrival⟩ := exists_after startBound bound
  rw [← after_zero startBound] at empty
  obtain ⟨last, within, vacant, taken⟩ := exists_last_free empty total
  refine ⟨table.after start last, after_lt (by omega) _ _, total - last, by omega, vacant, ?_, ?_⟩
  · rw [after_after, Nat.add_sub_cancel' within, arrival]
  · intro offset positive ahead
    rw [after_after]
    exact taken (last + offset) (by omega) (by omega)

/-- A slot is reached from far exactly if enough homes lie before it. -/
theorem Ordered.lt_reach_iff (ordered : Ordered table)
    (free : ∃ hole < table.slotCount, table.slot hole = none) {index : Nat}
    (bound : index < table.slotCount) (steps : Nat) :
    steps < table.reach index ↔ ∃ base < table.slotCount, ∃ width,
      width + steps < table.slotCount ∧ table.after base (width + steps) = index ∧
        width + steps < table.homesIn base (width + 1) := by
  have allocated := ordered.shaped.allocated
  constructor
  · intro reached
    obtain ⟨hole, holeBound, total, totalBound, empty, arrival, run⟩ := exists_run free bound
    have climb (offset : Nat) : table.reach (table.after hole offset) ≤ offset := by
      have rise := ordered.reach_after_le holeBound offset
      rwa [reach_of_free empty, Nat.zero_add] at rise
    have limit := climb total
    rw [arrival] at limit
    obtain ⟨width, rfl⟩ : ∃ width, total = width + steps + 1 :=
      ⟨total - steps - 1, by omega⟩
    have baseBound := after_lt allocated hole 1
    refine ⟨table.after hole 1, baseBound, width, by omega, ?_, ?_⟩
    · rw [after_after, Nat.add_comm 1]
      exact arrival
    · rw [homesIn, countP_cells_from table _ (table.after hole 1), ← Nat.add_one_le_iff]
      apply le_countP_range _ (by omega)
      intro offset before
      have inside := after_lt allocated hole (offset + 1)
      rw [after_after, Nat.add_comm 1]
      obtain ⟨cell, held⟩ := Option.ne_none_iff_exists'.mp (run (offset + 1) (by omega) (by omega))
      have low := climb (offset + 1)
      have rest := ordered.reach_after_le inside (width + steps + 1 - (offset + 1))
      rw [after_after, Nat.add_sub_cancel' (by omega), arrival] at rest
      rw [reach_of_cell held] at low rest
      have here := after_cases baseBound offset (by omega)
      rw [after_after, Nat.add_comm 1] at here
      have apart := ordered.shaped.displacement_cases cell.hash inside
      have homeBound := ordered.shaped.home_lt cell.hash
      have position := ahead_cases baseBound homeBound
      simp only [held, Option.any_some, decide_eq_true_eq]
      omega
  · rintro ⟨base, baseBound, width, inside, arrival, crowd⟩
    by_contra short
    rw [homesIn, countP_cells_from table _ base] at crowd
    have few : (List.range table.slotCount).countP (fun offset =>
        (table.slot (table.after base offset)).any fun cell =>
          decide (table.ahead base (table.home cell.hash) < width + 1)) ≤ width + steps := by
      apply countP_range_le
      intro offset offsetBound passed
      by_contra late
      cases held : table.slot (table.after base offset) with
      | none => simp [held] at passed
      | some cell =>
          simp only [held, Option.any_some, decide_eq_true_eq] at passed
          have homeBound := ordered.shaped.home_lt cell.hash
          have position := ahead_cases baseBound homeBound
          have there := after_cases baseBound offset (by omega)
          have apart := ordered.shaped.displacement_cases cell.hash (lt_of_slot held)
          have start := after_cases baseBound (table.ahead base (table.home cell.hash)) (by omega)
          have onWay := ordered.lt_reach_of_le held
            (show width + steps - table.ahead base (table.home cell.hash) ≤ _ by omega)
          have way : table.after (table.home cell.hash)
              (width + steps - table.ahead base (table.home cell.hash)) = index := by
            have home : table.home cell.hash =
                table.after base (table.ahead base (table.home cell.hash)) := by omega
            rw [home, after_after, ← home, Nat.add_sub_cancel' (by omega), arrival]
          rw [way] at onWay
          omega
    omega

theorem homesIn_congr (same : SameShape table other)
    (hashes : (other.cells.map Cell.hash).Perm (table.cells.map Cell.hash)) (base width : Nat) :
    other.homesIn base width = table.homesIn base width := by
  let test (hash : UInt64) : Bool := decide (table.ahead base (table.home hash) < width)
  have here : table.homesIn base width = (table.cells.map Cell.hash).countP test := by
    rw [List.countP_map]
    rfl
  have there : other.homesIn base width = (other.cells.map Cell.hash).countP test := by
    rw [List.countP_map]
    simp only [homesIn, ahead, same.slotCount, same.home]
    rfl
  rw [here, there, hashes.countP_eq]

theorem Ordered.reach_le_of_homes (ordered : Ordered table) (otherOrdered : Ordered other)
    (free : ∃ hole < table.slotCount, table.slot hole = none)
    (otherFree : ∃ hole < other.slotCount, other.slot hole = none)
    (slotCount : other.slotCount = table.slotCount)
    (homes : ∀ base width, other.homesIn base width = table.homesIn base width) {index : Nat}
    (bound : index < table.slotCount) : table.reach index ≤ other.reach index := by
  by_contra short
  have otherBound : index < other.slotCount := by omega
  obtain ⟨base, baseBound, width, inside, arrival, crowd⟩ :=
    (ordered.lt_reach_iff free bound (other.reach index)).mp (by omega)
  have reached := (otherOrdered.lt_reach_iff otherFree otherBound (other.reach index)).mpr
    ⟨base, by omega, width, by omega, by simpa only [after, slotCount] using arrival,
      by rw [homes]; exact crowd⟩
  omega

theorem Shaped.sameShape (shaped : Shaped table) (otherShaped : Shaped other)
    (slotCount : other.slotCount = table.slotCount) : SameShape table other := by
  have mask : other.mask = table.mask := by rw [otherShaped.mask, shaped.mask, slotCount]
  obtain ⟨width, _, count⟩ := shaped.power
  have bits := shaped.shift_add_width count
  have otherBits := otherShaped.shift_add_width (slotCount.trans count)
  refine ⟨slotCount, mask, by omega, ?_⟩
  rw [otherShaped.trigger, shaped.trigger, mask]

/-- Two rings whose slots are reached from equally far. -/
structure SameLayout (table : Table α) (other : Table β) : Prop extends SameShape table other where
  reach : ∀ index, other.reach index = table.reach index
  population : other.population = table.population

theorem Sound.sameLayout (sound : Sound table) (otherSound : Sound other)
    (slotCount : other.slotCount = table.slotCount)
    (hashes : (other.cells.map Cell.hash).Perm (table.cells.map Cell.hash)) :
    SameLayout table other := by
  have same := sound.shaped.sameShape otherSound.shaped slotCount
  have homes := homesIn_congr same hashes
  refine ⟨same, ?_, ?_⟩
  · intro index
    by_cases bound : index < table.slotCount
    · apply Nat.le_antisymm
      · exact otherSound.reach_le_of_homes sound.toOrdered otherSound.exists_free
          sound.exists_free slotCount.symm (fun base width => (homes base width).symm) (by omega)
      · exact sound.reach_le_of_homes otherSound.toOrdered sound.exists_free
          otherSound.exists_free slotCount homes bound
    · rw [reach_of_free (slot_of_le (by omega)), reach_of_free (slot_of_le (by omega))]
  · have length := hashes.length_eq
    rwa [List.length_map, List.length_map, otherSound.counted, sound.counted] at length

theorem map_displacement_slot (table : Table α) (index : Nat) :
    (table.slot index).map (fun cell => table.displacement cell.hash index) =
      if table.reach index = 0 then none else some (table.reach index - 1) := by
  cases held : table.slot index with
  | none => simp [reach_of_free held]
  | some cell => simp [reach_of_cell held]

theorem displacements_eq (table : Table α) :
    table.displacements = (List.range table.slotCount).filterMap fun index =>
      (table.slot index).map fun cell => table.displacement cell.hash index := by
  have indexed : table.slots.toList.zipIdx =
      (List.range table.slotCount).map fun index => (table.slot index, index) := by
    rw [toList_slots]
    apply List.ext_getElem
    · simp
    · intro index _ _
      simp
  rw [displacements, indexed, List.filterMap_map]
  rfl

theorem slotText_eq (table : Table α) (index : Nat) :
    table.slotText index =
      if table.reach index = 0 then ".."
      else padLeft '0' 2 (toString (table.reach index - 1)) := by
  cases held : table.slot index with
  | none => simp [slotText, held, reach_of_free held]
  | some cell => simp [slotText, held, reach_of_cell held]

namespace SameLayout

theorem displacement_eq (same : SameLayout table other) (index : Nat) :
    (other.slot index).map (fun cell => other.displacement cell.hash index) =
      (table.slot index).map fun cell => table.displacement cell.hash index := by
  rw [map_displacement_slot, map_displacement_slot, same.reach]

theorem home_eq (same : SameLayout table other) (shaped : Shaped table) (index : Nat) :
    (other.slot index).map (fun cell => other.home cell.hash) =
      (table.slot index).map fun cell => table.home cell.hash := by
  have reach := same.reach index
  cases held : table.slot index with
  | none =>
      rw [reach_of_free held, reach_eq_zero_iff] at reach
      rw [reach]
      rfl
  | some cell =>
      cases present : other.slot index with
      | none => simp [reach_of_free present, reach_of_cell held] at reach
      | some resident =>
          rw [reach_of_cell present, reach_of_cell held, same.displacement] at reach
          have bound := lt_of_slot held
          have here := shaped.displacement_cases cell.hash bound
          have there := shaped.displacement_cases resident.hash bound
          have homeBound := shaped.home_lt cell.hash
          have residentBound := shaped.home_lt resident.hash
          simp only [Option.map_some, Option.some.injEq, same.home]
          omega

theorem histogram_eq (same : SameLayout table other) : other.histogram = table.histogram := by
  have displacements : other.displacements = table.displacements := by
    simp only [displacements_eq, same.slotCount, same.displacement_eq]
  rw [histogram, histogram, displacements]

theorem outline_eq (same : SameLayout table other) : other.outline = table.outline := by
  have rows : other.rowText = table.rowText := by
    have texts : other.slotText = table.slotText := by
      funext index
      rw [slotText_eq, slotText_eq, same.reach]
    funext row
    simp only [rowText, texts, same.slotCount]
  simp only [outline, rows, same.slotCount, same.population, same.trigger, same.shift]

theorem probe_eq (same : SameLayout table other) {hash : UInt64} {accept : α → Bool}
    {otherAccept : β → Bool} (absent : table.Absent hash accept)
    (otherAbsent : other.Absent hash otherAccept) :
    other.probe hash otherAccept = table.probe hash accept := by
  have steps : other.probeAt hash otherAccept = table.probeAt hash accept := by
    funext distance
    rw [probeAt_of_absent absent, probeAt_of_absent otherAbsent, same.home, same.after, same.reach]
  simp only [probe, steps, same.slotCount, same.home]

end SameLayout

/-- Two checked tables with as many slots and the same stored hashes have one layout: only which of
the cells of a home lies where may differ. -/
theorem layout_determined (checked : table.check = .ok ()) (otherChecked : other.check = .ok ())
    (allocated : table.slotCount ≠ 0) (slotCount : other.slotCount = table.slotCount)
    (hashes : (other.cells.map Cell.hash).Perm (table.cells.map Cell.hash)) :
    (∀ index, (other.slot index).map (fun cell => other.home cell.hash) =
        (table.slot index).map fun cell => table.home cell.hash) ∧
      (∀ index, (other.slot index).map (fun cell => other.displacement cell.hash index) =
        (table.slot index).map fun cell => table.displacement cell.hash index) ∧
      other.outline = table.outline ∧ other.histogram = table.histogram ∧
      ∀ hash accept otherAccept, hash % 2 = 1 → table.Absent hash accept →
        other.Absent hash otherAccept → ∃ index distance,
          table.probe hash accept = .ok (.vacant index distance) ∧
            other.probe hash otherAccept = .ok (.vacant index distance) := by
  have sound := (check_iff_valid.mp checked).sound allocated
  have otherSound := (check_iff_valid.mp otherChecked).sound (by omega)
  have same := sound.sameLayout otherSound slotCount hashes
  refine ⟨same.home_eq sound.shaped, same.displacement_eq, same.outline_eq, same.histogram_eq, ?_⟩
  intro hash accept otherAccept odd absent otherAbsent
  rcases sound.probe_cases odd accept with
    ⟨index, distance, _, found⟩ | ⟨index, distance, probed, _⟩
  · obtain ⟨cell, held, matched⟩ := found.cell
    simp [absent cell (mem_cells.mpr ⟨index, held⟩)] at matched
  · exact ⟨index, distance, probed, by rw [same.probe_eq absent otherAbsent, probed]⟩

def firstTwo (first second : Cell Nat) : Table Nat :=
  ofSlots (#[some first, some second] ++ Array.replicate 14 none) 2

theorem layout_firstTwo :
    (firstTwo ⟨3, 20⟩ ⟨1, 10⟩).cells ≠ (firstTwo ⟨1, 10⟩ ⟨3, 20⟩).cells ∧
      (firstTwo ⟨3, 20⟩ ⟨1, 10⟩).outline = (firstTwo ⟨1, 10⟩ ⟨3, 20⟩).outline := by
  have checked : (firstTwo ⟨1, 10⟩ ⟨3, 20⟩).check = .ok () := by decide +kernel
  have otherChecked : (firstTwo ⟨3, 20⟩ ⟨1, 10⟩).check = .ok () := by decide +kernel
  have allocated : (firstTwo ⟨1, 10⟩ ⟨3, 20⟩).slotCount ≠ 0 := by decide +kernel
  have slotCount : (firstTwo ⟨3, 20⟩ ⟨1, 10⟩).slotCount =
      (firstTwo ⟨1, 10⟩ ⟨3, 20⟩).slotCount := by decide +kernel
  have hashes : ((firstTwo ⟨3, 20⟩ ⟨1, 10⟩).cells.map Cell.hash).Perm
      ((firstTwo ⟨1, 10⟩ ⟨3, 20⟩).cells.map Cell.hash) := by decide +kernel
  refine ⟨by decide +kernel, ?_⟩
  exact (layout_determined checked otherChecked allocated slotCount hashes).2.2.1

end RobinHood.Table
