import RobinHood.Load.Collect
import RobinHood.Proofs.Atomicity

/-!
The room that is made before a source gives its first item. What it announces is cut down to a
bound, but that bound is one on items: as an eighth of the slots stays free, room for so many items
takes twice as many slots.
-/

namespace RobinHood

namespace Table

variable {α : Type}

theorem reserve_of_fewest (memory : Memory) {table : Table α} {additional slots : Nat}
    (tight : table.trigger < table.population + additional)
    (fewest : FewestSlots (table.population + additional) slots) (counted : slots ≤ 2 ^ 63) :
    table.reserve memory additional = table.resize memory slots := by
  have enough := fewest.enough
  have chosen := fewest.slotsFor_eq
  rw [if_pos counted] at chosen
  rw [reserve, wordSize_eq, if_neg (by omega), if_neg (by omega), chosen]
  rfl

theorem withCapacity_cases (memory : Memory) {capacity slots : Nat} (wanted : 0 < capacity)
    (fewest : FewestSlots capacity slots) (counted : slots ≤ 2 ^ 63) :
    (∃ table : Table α, withCapacity memory capacity = .ok table ∧ table.slotCount = slots) ∨
      ∃ error, withCapacity (α := α) memory capacity = .error error ∧ memory.Refusal error ∧
        ¬ memory.Supplies slots := by
  have required : (empty : Table α).population + capacity = capacity := Nat.zero_add capacity
  have tight : (empty : Table α).trigger < (empty : Table α).population + capacity := by
    rwa [required]
  have unallocated : (empty : Table α).slotCount < 16 := Nat.succ_pos 15
  rw [withCapacity, reserve_of_fewest memory tight (required.symm ▸ fewest) counted]
  obtain ⟨width, rfl⟩ := fewest.power
  have most : width ≤ 63 := (Nat.pow_le_pow_iff_right (by decide)).mp counted
  rcases valid_empty.resize_cases memory rfl (sixteen_le_two_pow_iff.mp fewest.least)
    (Nat.le_succ_of_le most) (Nat.lt_of_lt_of_le unallocated fewest.least) with
    ⟨table, done, _, count⟩ | refused
  · exact Or.inl ⟨table, done, count⟩
  · exact Or.inr refused

theorem FewestSlots.le_iff {required width slots : Nat} (fewest : FewestSlots required slots)
    (least : 16 ≤ 2 ^ width) : slots ≤ 2 ^ width ↔ 8 * required ≤ 7 * 2 ^ width := by
  constructor
  · intro bound
    have enough := fewest.enough
    omega
  · exact fewest.fewest width least

end Table

/-- How many slots stand ready before the first item of a source is read. -/
inductive Source.Prepares {α : Type} (source : Source α) : Nat → Prop
  | none : source.initialCapacity = 0 → Prepares source 0
  | some {slots : Nat} : 0 < source.initialCapacity →
      Table.FewestSlots source.initialCapacity slots → Prepares source slots

/-- A load that starts from a table with so many slots, or is refused them. -/
def StartsWith {α γ : Type} (memory : Memory) (slots : Nat) (made : Except TableError (Table α))
    (fill : Table α → Except LoadFault γ) (load : Except LoadFault γ) : Prop :=
  (∃ table, made = .ok table ∧ table.slotCount = slots ∧ load = fill table) ∨
    ∃ error, made = .error error ∧ load = .error (.table error) ∧ memory.Refusal error ∧
      ¬ memory.Supplies slots

namespace Source

variable {α β γ : Type} {source : Source β} {slots : Nat}

theorem exists_prepares (source : Source α) : ∃ slots, source.Prepares slots := by
  by_cases nothing : source.initialCapacity = 0
  · exact ⟨0, .none nothing⟩
  · obtain ⟨slots, fewest⟩ := Table.exists_fewestSlots source.initialCapacity
    exact ⟨slots, .some (Nat.pos_of_ne_zero nothing) fewest⟩

theorem Prepares.bounds (prepares : source.Prepares slots) :
    slots ≤ 2 * trustedItems ∧
      (slots ≤ trustedItems ↔ 8 * source.announced.getD 0 ≤ 7 * trustedItems) := by
  have capacity : source.initialCapacity = min (source.announced.getD 0) trustedItems := rfl
  have items : trustedItems = 65536 := rfl
  cases prepares with
  | none nothing => omega
  | some wanted fewest =>
      have once : slots ≤ 2 ^ 16 ↔ 8 * source.initialCapacity ≤ 7 * 2 ^ 16 :=
        fewest.le_iff (by decide)
      have twice : slots ≤ 2 ^ 17 ↔ 8 * source.initialCapacity ≤ 7 * 2 ^ 17 :=
        fewest.le_iff (by decide)
      omega

theorem Prepares.startsWith (prepares : source.Prepares slots) (memory : Memory)
    {fill : Table α → Except LoadFault γ} {load : Except LoadFault γ}
    (begins : load =
      (Table.withCapacity memory source.initialCapacity).mapError .table >>= fill) :
    StartsWith memory slots (Table.withCapacity memory source.initialCapacity) fill load := by
  have counted : slots ≤ 2 ^ 63 := Nat.le_trans prepares.bounds.1 (by decide)
  have made : (∃ table : Table α, Table.withCapacity memory source.initialCapacity = .ok table ∧
      table.slotCount = slots) ∨ ∃ error,
        Table.withCapacity (α := α) memory source.initialCapacity = .error error ∧
          memory.Refusal error ∧ ¬ memory.Supplies slots := by
    cases prepares with
    | none nothing =>
        rw [nothing]
        exact Or.inl ⟨.empty, rfl, rfl⟩
    | some wanted fewest => exact Table.withCapacity_cases memory wanted fewest counted
  rcases made with ⟨table, done, count⟩ | ⟨error, failed, refusal⟩
  · refine Or.inl ⟨table, done, count, ?_⟩
    rw [begins, done]
    rfl
  · refine Or.inr ⟨error, failed, ?_, refusal⟩
    rw [begins, failed]
    rfl

end Source

def HashMap.fillFrom {K V : Type} [BEq K] (memory : Memory) (hash : K → UInt64)
    (source : Source (K × V)) (table : Table (K × V)) : Except LoadFault (HashMap K V) := do
  source.finish (← ((HashMap.mk table hash).insertAll memory source.items).mapError .table)

def HashSet.fillFrom {T : Type} [BEq T] (memory : Memory) (hash : T → UInt64) (source : Source T)
    (table : Table T) : Except LoadFault (HashSet T) := do
  source.finish (← ((HashSet.mk table hash).insertAll memory source.items).mapError .table)

section Loading

variable {K V T : Type} [BEq K] [BEq T]

theorem HashMap.load_begins (memory : Memory) (hash : K → UInt64) (source : Source (K × V)) :
    HashMap.load memory hash source =
      (Table.withCapacity memory source.initialCapacity).mapError .table >>=
        HashMap.fillFrom memory hash source := by
  rw [HashMap.load, HashMap.withCapacity]
  cases Table.withCapacity (α := K × V) memory source.initialCapacity <;> rfl

theorem HashSet.load_begins (memory : Memory) (hash : T → UInt64) (source : Source T) :
    HashSet.load memory hash source =
      (Table.withCapacity memory source.initialCapacity).mapError .table >>=
        HashSet.fillFrom memory hash source := by
  rw [HashSet.load, HashSet.withCapacity]
  cases Table.withCapacity (α := T) memory source.initialCapacity <;> rfl

/-- Whatever is announced, at most twice as many slots stand ready as items are trusted, and more
than these only if more is announced than seven eighths of them. -/
theorem slots_before_first_item (memory : Memory) (mapHash : K → UInt64) (setHash : T → UInt64)
    (mapSource : Source (K × V)) (setSource : Source T) :
    (∃ slots ≤ 2 * trustedItems,
        (slots ≤ trustedItems ↔ 8 * mapSource.announced.getD 0 ≤ 7 * trustedItems) ∧
          StartsWith memory slots (Table.withCapacity memory mapSource.initialCapacity)
            (HashMap.fillFrom memory mapHash mapSource)
            (HashMap.load memory mapHash mapSource)) ∧
      ∃ slots ≤ 2 * trustedItems,
        (slots ≤ trustedItems ↔ 8 * setSource.announced.getD 0 ≤ 7 * trustedItems) ∧
          StartsWith memory slots (Table.withCapacity memory setSource.initialCapacity)
            (HashSet.fillFrom memory setHash setSource)
            (HashSet.load memory setHash setSource) := by
  obtain ⟨mapSlots, mapPrepares⟩ := mapSource.exists_prepares
  obtain ⟨setSlots, setPrepares⟩ := setSource.exists_prepares
  exact ⟨⟨mapSlots, mapPrepares.bounds.1, mapPrepares.bounds.2,
      mapPrepares.startsWith memory (HashMap.load_begins memory mapHash mapSource)⟩,
    setSlots, setPrepares.bounds.1, setPrepares.bounds.2,
      setPrepares.startsWith memory (HashSet.load_begins memory setHash setSource)⟩

end Loading

def emptyPromise : Source (Nat × Nat) :=
  { announced := some 65536, items := [], fault := none }

theorem slots_exceed_trustedItems :
    ∃ table : Table (Nat × Nat),
      Table.withCapacity willing emptyPromise.initialCapacity = .ok table ∧
        HashMap.load willing (fun _ => 0) emptyPromise = .ok ⟨table, fun _ => 0⟩ ∧
          table.slotCount = 131072 ∧ trustedItems < table.slotCount := by
  have fewest : Table.FewestSlots 65536 131072 := by
    refine ⟨⟨17, rfl⟩, by decide, by decide, ?_⟩
    intro width _ fits
    by_contra below
    have narrow : width < 17 := (Nat.pow_lt_pow_iff_right (a := 2) (by decide)).mp (by omega)
    have half : 2 ^ width ≤ 2 ^ 16 := Nat.pow_le_pow_right (by decide) (by omega)
    omega
  have prepares : emptyPromise.Prepares 131072 := .some (by decide) fewest
  rcases prepares.startsWith willing (HashMap.load_begins willing (fun _ => 0) emptyPromise) with
    ⟨table, made, count, loads⟩ | ⟨error, _, _, _, missing⟩
  · exact ⟨table, made, loads, count, by rw [count]; decide⟩
  · exact absurd ⟨by decide, by decide, rfl⟩ missing

end RobinHood
