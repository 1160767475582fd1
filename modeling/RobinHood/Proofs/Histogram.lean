import RobinHood.Proofs.Layout
import RobinHood.Proofs.Offers

/-!
The histogram of displacements tells how far the values of a table lie from home. It counts each
displacement as often as there are values with it. On the way up from a free slot no displacement is
left out, so no entry is zero; this bounds its length and how far all values together can lie from
home.
-/

namespace RobinHood.Table

variable {α : Type} {table : Table α}

section Counts

theorem size_countAt (counts : Array Nat) (place : Nat) :
    (countAt counts place).size = max counts.size (place + 1) := by
  simp only [countAt, Array.size_modify, Array.size_append, Array.size_replicate]
  omega

theorem getD_countAt (counts : Array Nat) (place other : Nat) :
    (countAt counts place)[other]?.getD 0 =
      counts[other]?.getD 0 + if place = other then 1 else 0 := by
  simp only [countAt, Array.getElem?_modify, Array.getElem?_append, Array.getElem?_replicate]
  grind

theorem getD_foldl_countAt (places : List Nat) (counts : Array Nat) (place : Nat) :
    (places.foldl countAt counts)[place]?.getD 0 =
      counts[place]?.getD 0 + places.count place := by
  induction places generalizing counts with
  | nil => simp
  | cons first rest ih =>
      rw [List.foldl_cons, ih, getD_countAt, List.count_cons, Nat.add_assoc]
      simp only [beq_iff_eq, Nat.add_comm]

theorem lt_size_foldl_countAt_iff (places : List Nat) (counts : Array Nat) (place : Nat) :
    place < (places.foldl countAt counts).size ↔
      place < counts.size ∨ ∃ other ∈ places, place ≤ other := by
  induction places generalizing counts with
  | nil => simp
  | cons first rest ih =>
      rw [List.foldl_cons, ih, size_countAt, lt_max_iff, Nat.lt_succ_iff, or_assoc]
      simp only [List.mem_cons, exists_eq_or_imp]

theorem sum_map_range_count (weight : Nat → Nat) {places : List Nat} {bound : Nat}
    (within : ∀ place ∈ places, place < bound) :
    ((List.range bound).map fun place => weight place * places.count place).sum =
      (places.map weight).sum := by
  have covered : places.toFinset ⊆ Finset.range bound := by
    intro place member
    exact Finset.mem_range.mpr (within place (List.mem_toFinset.mp member))
  have outside : ∀ place ∈ Finset.range bound, place ∉ places.toFinset →
      places.count place • weight place = 0 := by
    intro place _ missing
    rw [List.count_eq_zero.mpr (by simpa using missing), zero_smul]
  calc
    ((List.range bound).map fun place => weight place * places.count place).sum
    _ = ∑ place ∈ Finset.range bound, weight place * places.count place := rfl
    _ = ∑ place ∈ Finset.range bound, places.count place • weight place := by
      simp only [smul_eq_mul, Nat.mul_comm]
    _ = ∑ place ∈ places.toFinset, places.count place • weight place :=
      (Finset.sum_subset covered outside).symm
    _ = (places.map weight).sum := (Finset.sum_list_map_count places weight).symm

/-- The places summed, each as often as it is counted. -/
def sumOfPlaces (counts : List Nat) : Nat :=
  (counts.zipIdx.map fun (count, place) => place * count).sum

theorem sumOfPlaces_append_singleton (counts : List Nat) (last : Nat) :
    sumOfPlaces (counts ++ [last]) = sumOfPlaces counts + counts.length * last := by
  simp [sumOfPlaces, List.zipIdx_append]

theorem pairs_add (first second : Nat) :
    (first + second) * (first + second - 1) =
      first * (first - 1) + 2 * (first * second) + second * (second - 1) := by
  cases first with
  | zero => simp
  | succ first =>
      rw [Nat.add_right_comm, Nat.add_sub_cancel, Nat.add_sub_cancel]
      cases second with
      | zero => simp
      | succ second =>
          rw [Nat.add_sub_cancel]
          ring

theorem sumOfPlaces_le {counts : List Nat} (filled : ∀ count ∈ counts, 0 < count) :
    sumOfPlaces counts ≤ counts.sum * (counts.sum - 1) / 2 := by
  rw [Nat.le_div_iff_mul_le Nat.two_pos, Nat.mul_comm]
  induction counts using List.reverseRecOn with
  | nil => simp [sumOfPlaces]
  | append_singleton counts last ih =>
      have before : ∀ count ∈ counts, 0 < count :=
        fun count member => filled count (List.mem_append_left _ member)
      have earlier := ih before
      have places : counts.length ≤ counts.sum := List.length_le_sum_of_one_le counts before
      have added := Nat.mul_le_mul_right last places
      rw [sumOfPlaces_append_singleton, List.sum_append, List.sum_singleton, pairs_add]
      omega

end Counts

def displacedBy (table : Table α) (distance : Nat) : Nat :=
  (List.range table.slotCount).countP fun index =>
    (table.slot index).any fun cell => table.displacement cell.hash index == distance

def IsDisplacement (table : Table α) (distance : Nat) : Prop :=
  ∃ index cell, table.slot index = some cell ∧ table.displacement cell.hash index = distance

theorem mem_displacements {distance : Nat} :
    distance ∈ table.displacements ↔ table.IsDisplacement distance := by
  rw [displacements_eq, IsDisplacement]
  simp only [List.mem_filterMap, List.mem_range, Option.map_eq_some_iff]
  constructor
  · rintro ⟨index, _, cell, held, same⟩
    exact ⟨index, cell, held, same⟩
  · rintro ⟨index, cell, held, same⟩
    exact ⟨index, lt_of_slot held, cell, held, same⟩

theorem count_displacements (table : Table α) (distance : Nat) :
    table.displacements.count distance = table.displacedBy distance := by
  rw [displacements_eq, List.count, List.countP_filterMap, displacedBy]
  congr
  funext index
  cases table.slot index <;> rfl

theorem length_displacements (table : Table α) :
    table.displacements.length = table.cells.length := by
  rw [displacements_eq, cells_eq, List.length_filterMap_eq_countP, List.length_filterMap_eq_countP]
  simp only [Option.isSome_map]

theorem getD_histogram (table : Table α) (distance : Nat) :
    table.histogram[distance]?.getD 0 = table.displacements.count distance := by
  have counted := getD_foldl_countAt table.displacements #[] distance
  simpa [histogram] using counted

theorem lt_length_histogram_iff {distance : Nat} :
    distance < table.histogram.length ↔ ∃ other ∈ table.displacements, distance ≤ other := by
  have covered := lt_size_foldl_countAt_iff table.displacements #[] distance
  simpa [histogram] using covered

theorem zipIdx_histogram (table : Table α) :
    table.histogram.zipIdx = (List.range table.histogram.length).map fun distance =>
      (table.displacements.count distance, distance) := by
  apply List.ext_getElem
  · simp
  · intro distance inside _
    have bound : distance < table.histogram.length := by simpa using inside
    have entry := table.getD_histogram distance
    rw [List.getElem?_eq_getElem bound, Option.getD_some] at entry
    simp [entry]

theorem sum_map_histogram (table : Table α) (weight : Nat → Nat) :
    (table.histogram.zipIdx.map fun (count, distance) => weight distance * count).sum =
      (table.displacements.map weight).sum := by
  have within : ∀ distance ∈ table.displacements, distance < table.histogram.length :=
    fun distance member => lt_length_histogram_iff.mpr ⟨distance, member, Nat.le_refl _⟩
  rw [zipIdx_histogram, List.map_map, ← sum_map_range_count weight within]
  rfl

theorem sum_histogram (table : Table α) : table.histogram.sum = table.displacements.length := by
  have counted := table.sum_map_histogram fun _ => 1
  simp only [Nat.one_mul, List.zipIdx_map_fst] at counted
  simpa using counted

theorem sumOfPlaces_histogram (table : Table α) :
    sumOfPlaces table.histogram = table.displacements.sum := by
  have counted := table.sum_map_histogram id
  simpa [sumOfPlaces] using counted

theorem Ordered.exists_reach_eq (ordered : Ordered table)
    (free : ∃ hole < table.slotCount, table.slot hole = none) {index height : Nat}
    (bound : index < table.slotCount) (below : height ≤ table.reach index) :
    ∃ position, table.reach position = height := by
  obtain ⟨hole, holeBound, empty⟩ := free
  obtain ⟨steps, -, rfl⟩ := exists_after holeBound bound
  clear bound
  induction steps with
  | zero =>
      rw [after_zero holeBound, reach_of_free empty] at below
      exact ⟨hole, by rw [reach_of_free empty]; omega⟩
  | succ steps ih =>
      by_cases reached : height ≤ table.reach (table.after hole steps)
      · exact ih reached
      · -- One slot raises the reach by one at most, so here it comes to the height exactly.
        have step := ordered.gradual (after_lt ordered.shaped.allocated hole steps)
        rw [next_after] at step
        exact ⟨table.after hole (steps + 1), by omega⟩

/-- No displacement is left out below one that a value has. -/
theorem Valid.isDisplacement_of_le (valid : Valid table) {distance lower : Nat}
    (displaced : table.IsDisplacement distance) (le : lower ≤ distance) :
    table.IsDisplacement lower := by
  obtain ⟨index, cell, held, same⟩ := displaced
  have sound := valid.sound_of_slot held
  have reach := reach_of_cell held
  obtain ⟨position, height⟩ := sound.toOrdered.exists_reach_eq sound.exists_free (lt_of_slot held)
    (show lower + 1 ≤ table.reach index by omega)
  obtain ⟨resident, present, _⟩ :=
    exists_cell_of_lt_reach (show lower < table.reach position by omega)
  rw [reach_of_cell present] at height
  exact ⟨position, resident, present, by omega⟩

theorem Valid.lt_length_histogram_iff (valid : Valid table) {distance : Nat} :
    distance < table.histogram.length ↔ table.IsDisplacement distance := by
  rw [Table.lt_length_histogram_iff]
  constructor
  · rintro ⟨other, member, le⟩
    exact valid.isDisplacement_of_le (mem_displacements.mp member) le
  · intro displaced
    exact ⟨distance, mem_displacements.mpr displaced, Nat.le_refl _⟩

theorem Valid.sum_histogram (valid : Valid table) : table.histogram.sum = table.population := by
  rw [Table.sum_histogram, length_displacements, valid.counted]

theorem Valid.getD_histogram_pos (valid : Valid table) {distance : Nat}
    (inside : distance < table.histogram.length) : 0 < table.histogram[distance]?.getD 0 := by
  have displaced := valid.lt_length_histogram_iff.mp inside
  rw [getD_histogram]
  exact List.count_pos_iff.mpr (mem_displacements.mpr displaced)

theorem Valid.histogram_filled (valid : Valid table) : ∀ count ∈ table.histogram, 0 < count := by
  intro count member
  obtain ⟨distance, inside, rfl⟩ := List.getElem_of_mem member
  have positive := valid.getD_histogram_pos inside
  rwa [List.getElem?_eq_getElem inside, Option.getD_some] at positive

theorem Valid.length_histogram_le (valid : Valid table) :
    table.histogram.length ≤ table.population := by
  rw [← valid.sum_histogram]
  exact List.length_le_sum_of_one_le _ valid.histogram_filled

theorem Valid.histogram_eq_nil_iff (valid : Valid table) :
    table.histogram = [] ↔ table.population = 0 := by
  constructor
  · intro none
    rw [← valid.sum_histogram, none, List.sum_nil]
  · intro vacant
    have length := valid.length_histogram_le
    exact List.length_eq_zero_iff.mp (by omega)

theorem Valid.lt_length_histogram_iff_le (valid : Valid table) (occupied : table.population ≠ 0)
    (slotBytes : Nat) {distance : Nat} :
    distance < table.histogram.length ↔
      distance ≤ (table.statistics slotBytes).maxDisplacement := by
  have entries : table.histogram.length ≠ 0 :=
    List.length_eq_zero_iff.not.mpr (valid.histogram_eq_nil_iff.not.mpr occupied)
  change _ ↔ distance ≤ table.histogram.length - 1
  omega

theorem meanDisplacement_eq (table : Table α) (slotBytes : Nat) :
    (table.statistics slotBytes).meanDisplacement =
      ratio (sumOfPlaces table.histogram) table.population := by
  simp only [statistics, sumOfPlaces, List.sum_eq_foldl, List.foldl_map]

theorem Valid.sumOfPlaces_histogram_le (valid : Valid table) :
    sumOfPlaces table.histogram ≤ table.population * (table.population - 1) / 2 := by
  have bound := sumOfPlaces_le valid.histogram_filled
  rwa [valid.sum_histogram] at bound

theorem Valid.sumOfPlaces_histogram_lt (valid : Valid table)
    (counted : table.population ≤ 2 ^ 32) : sumOfPlaces table.histogram < 2 ^ 64 := by
  have bound := valid.sumOfPlaces_histogram_le
  have pairs : table.population * (table.population - 1) ≤ 2 ^ 32 * (2 ^ 32 - 1) :=
    Nat.mul_le_mul counted (Nat.sub_le_sub_right counted 1)
  omega

/-- What the histogram and the statistics of a table tell about its values. -/
structure Summarized (table : Table α) (slotBytes : Nat) : Prop where
  entry : ∀ distance, table.histogram[distance]?.getD 0 = table.displacedBy distance
  sum : table.histogram.sum = table.population
  empty : table.histogram = [] ↔ table.population = 0
  last : ∀ nonempty : table.histogram ≠ [], table.histogram.getLast nonempty ≠ 0
  greatest : table.population ≠ 0 →
    IsGreatest {distance | table.IsDisplacement distance}
      (table.statistics slotBytes).maxDisplacement
  filled : table.population ≠ 0 → ∀ distance ≤ (table.statistics slotBytes).maxDisplacement,
    table.histogram[distance]?.getD 0 ≠ 0
  noGap : ∀ distance, 0 < distance → table.IsDisplacement distance →
    table.IsDisplacement (distance - 1)
  length : table.histogram.length ≤ table.population
  total : sumOfPlaces table.histogram = table.displacements.sum
  mean : (table.statistics slotBytes).meanDisplacement =
    ratio (sumOfPlaces table.histogram) table.population
  bounded : sumOfPlaces table.histogram ≤ table.population * (table.population - 1) / 2
  fits : table.population ≤ 2 ^ 32 → sumOfPlaces table.histogram < 2 ^ 64

theorem Valid.summarized (valid : Valid table) (slotBytes : Nat) : table.Summarized slotBytes := by
  constructor
  case entry =>
    intro distance
    rw [getD_histogram, count_displacements]
  case sum => exact valid.sum_histogram
  case empty => exact valid.histogram_eq_nil_iff
  case last =>
    intro nonempty
    exact Nat.ne_of_gt (valid.histogram_filled _ (List.getLast_mem nonempty))
  case greatest =>
    intro occupied
    constructor
    · have inside := (valid.lt_length_histogram_iff_le occupied slotBytes).mpr (Nat.le_refl _)
      exact valid.lt_length_histogram_iff.mp inside
    · intro distance displaced
      have inside := valid.lt_length_histogram_iff.mpr displaced
      exact (valid.lt_length_histogram_iff_le occupied slotBytes).mp inside
  case filled =>
    intro occupied distance le
    have inside := (valid.lt_length_histogram_iff_le occupied slotBytes).mpr le
    exact Nat.ne_of_gt (valid.getD_histogram_pos inside)
  case noGap =>
    intro distance _ displaced
    exact valid.isDisplacement_of_le displaced (Nat.sub_le distance 1)
  case length => exact valid.length_histogram_le
  case total => exact table.sumOfPlaces_histogram
  case mean => exact table.meanDisplacement_eq slotBytes
  case bounded => exact valid.sumOfPlaces_histogram_le
  case fits => exact valid.sumOfPlaces_histogram_lt

/-- The histogram of any table that a caller can hold sums up how far its values lie from home. -/
theorem reachable_summarized (reachable : Reachable table) (slotBytes : Nat) :
    table.Summarized slotBytes :=
  reachable.valid.summarized slotBytes

theorem summarized_overTheEnd :
    ∃ table : Table Nat, runAll overTheEnd [] = .ok [table] ∧ table.Summarized 16 ∧
      table.histogram = [1, 1, 2] ∧ table.displacedBy 2 = 2 ∧
        sumOfPlaces table.histogram = 5 :=
  ⟨_, rfl, reachable_summarized ⟨overTheEnd, _, rfl, List.mem_singleton_self _⟩ 16,
    by decide +kernel, by decide +kernel, by decide +kernel⟩

end RobinHood.Table
