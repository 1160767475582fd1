import RobinHood.Proofs.Bag
import RobinHood.Proofs.Guarded.Growth
import RobinHood.Proofs.WellFormed

/-!
Moving to a larger ring does not show. Whatever the layout was, wrapped round the end of the array
or not, all cells come over, the new ring is well formed, and a lookup that has only one answer to
give gives that answer before and after.
-/

namespace RobinHood.Table

variable {α : Type} {table grown : Table α}

/-- At most one of the values stored with a hash is accepted. -/
def AcceptsOne (table : Table α) (hash : UInt64) (accept : α → Bool) : Prop :=
  ∀ first ∈ table.bag, ∀ second ∈ table.bag, first.matches hash accept = true →
    second.matches hash accept = true → first.value = second.value

/-- What a table has become in a ring of so many slots. -/
structure Enlarged (table grown : Table α) (slots : Nat) : Prop where
  slotCount : grown.slotCount = slots
  mask : grown.mask + 1 = slots
  shift : grown.shift + Nat.log2 slots = 64
  trigger : 8 * grown.trigger = 7 * slots
  population : grown.population = table.population
  bag : grown.bag = table.bag
  checked : grown.check = .ok ()
  find : ∀ raw accept, table.AcceptsOne (storedHash raw) accept →
    ∃ answer, table.find raw accept = .ok answer ∧ grown.find raw accept = .ok answer

theorem Absent.congr {hash : UInt64} {accept : α → Bool} (absent : table.Absent hash accept)
    (same : grown.bag = table.bag) : grown.Absent hash accept := by
  intro cell member
  exact absent cell ((bag_eq_iff.mp same).subset member)

theorem Valid.find_congr (valid : Valid table) (grownValid : Valid grown)
    (same : grown.bag = table.bag) {raw : UInt64} {accept : α → Bool}
    (one : table.AcceptsOne (storedHash raw) accept) :
    ∃ answer, table.find raw accept = .ok answer ∧ grown.find raw accept = .ok answer := by
  rcases valid.find_cases raw accept with ⟨cell, member, matched, found⟩ | ⟨absent, missed⟩
  · rcases grownValid.find_cases raw accept with
      ⟨other, otherMember, otherMatched, otherFound⟩ | ⟨absent, _⟩
    · have known : other ∈ table.bag := same ▸ otherMember
      have value := one other known cell member otherMatched matched
      exact ⟨some cell.value, found, value ▸ otherFound⟩
    · exact absurd (absent.congr same.symm) (not_absent_of_mem member matched)
  · rcases grownValid.find_cases raw accept with
      ⟨other, otherMember, otherMatched, _⟩ | ⟨_, otherMissed⟩
    · exact absurd (absent.congr same) (not_absent_of_mem otherMember otherMatched)
    · exact ⟨none, missed, otherMissed⟩

theorem Grown.enlarged {slots : Nat} (grows : Grown table grown) (valid : Valid table)
    (slotCount : grown.slotCount = slots) : Enlarged table grown slots := by
  obtain ⟨_, mask, shift, trigger⟩ := shaped_iff.mp grows.sound.shaped
  have same : grown.bag = table.bag := bag_eq_iff.mpr grows.cells
  rw [slotCount] at mask shift trigger
  constructor
  case slotCount => exact slotCount
  case mask => exact mask
  case shift => exact shift
  case trigger => exact trigger
  case population => exact grows.population
  case bag => exact same
  case checked => exact check_iff_valid.mpr (.allocated grows.sound)
  case find =>
    intro raw accept one
    exact valid.find_congr (.allocated grows.sound) same one

/-- A checked table moves to any larger ring that memory is granted for, and nothing shows of it but
the slot count. The walks that place the cells end without a bound too. -/
theorem resize_transparent {memory : Memory} {slots : Nat} {fresh : Array (Slot α)}
    (checked : table.check = .ok ()) (power : ∃ width, slots = 2 ^ width) (least : 16 ≤ slots)
    (word : slots < 2 ^ 64) (larger : table.slotCount < slots)
    (granted : memory.allocate slots = .ok fresh) :
    ∃ grown, table.resize memory slots = .ok grown ∧ Enlarged table grown slots ∧
      Guarded.resize memory table slots = pure grown := by
  have valid := check_iff_valid.mp checked
  obtain ⟨width, rfl⟩ := power
  have wide : 4 ≤ width := sixteen_le_two_pow_iff.mp least
  have short : width < 64 := (Nat.pow_lt_pow_iff_right (by decide)).mp word
  obtain ⟨grown, moved, grows, slotCount⟩ :=
    valid.resize_of_granted rfl wide (Nat.le_of_lt short) larger granted
  have followed := valid.resize_follows memory rfl wide short larger
  exact ⟨grown, moved, grows.enlarged valid slotCount, (followed.eq_of_ok moved).1⟩

def tailFirst : Table Nat :=
  ofSlots (#[some ⟨storedHash 19, 20⟩, some ⟨storedHash 18, 30⟩] ++ Array.replicate 13 none ++
    #[some ⟨storedHash 38, 10⟩]) 3

def parted : Table Nat :=
  ofSlots (#[some ⟨storedHash 19, 20⟩] ++ Array.replicate 29 none ++
    #[some ⟨storedHash 18, 30⟩, some ⟨storedHash 38, 10⟩]) 3

theorem resize_tailFirst :
    tailFirst.resize { slotBytes := 24, grants := fun _ => true } 32 = .ok parted ∧
      Enlarged tailFirst parted 32 ∧ tailFirst.AcceptsOne (storedHash 19) (· < 25) ∧
      parted.find 19 (· < 25) = .ok (some 20) := by
  have checked : tailFirst.check = .ok () := by decide +kernel
  have larger : tailFirst.slotCount < 32 := by decide +kernel
  have granted : Memory.allocate { slotBytes := 24, grants := fun _ => true } 32 =
      .ok (Array.replicate 32 (none : Slot Nat)) := rfl
  have moves : tailFirst.resize { slotBytes := 24, grants := fun _ => true } 32 = .ok parted := rfl
  obtain ⟨grown, moved, enlarged, _⟩ :=
    resize_transparent checked ⟨5, rfl⟩ (by decide) (by decide) larger granted
  obtain rfl : grown = parted := Except.ok.inj (moved.symm.trans moves)
  have one : tailFirst.AcceptsOne (storedHash 19) (· < 25) := by
    unfold AcceptsOne
    decide +kernel
  refine ⟨moves, enlarged, one, ?_⟩
  obtain ⟨answer, found, same⟩ := enlarged.find 19 _ one
  rw [same, ← found]
  rfl

end RobinHood.Table
