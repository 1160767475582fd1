import Mathlib
import RobinHood.Table.Basic

/-!
Mixing permutes the words. Folding the high bits down undoes itself, as a second fold moves them
past the end of the word, and an odd multiplier has an inverse. The stored hash then loses the
lowest bit of the mixed word and nothing else, and no home reads that bit.
-/

namespace RobinHood

/-- Puts together again what `mix` made of a word: the inverse multipliers in the other order. -/
def unmix (word : UInt64) : UInt64 :=
  foldHigh (foldHigh (foldHigh word * 0x9cb4b2f8129337db) * 0x4f74430c22a54005)

theorem shiftRight_33_33 (word : UInt64) : word >>> 33 >>> 33 = 0 := by
  apply UInt64.toNat_inj.mp
  have bound := word.toNat_lt
  simp only [UInt64.toNat_shiftRight, UInt64.reduceToNat, Nat.reduceMod,
    Nat.shiftRight_eq_div_pow]
  omega

@[simp] theorem foldHigh_foldHigh (word : UInt64) : foldHigh (foldHigh word) = word := by
  rw [foldHigh, foldHigh, UInt64.shiftRight_xor, shiftRight_33_33, UInt64.xor_zero,
    UInt64.xor_assoc, UInt64.xor_self, UInt64.xor_zero]

theorem mul_mul_of_inverse {multiplier inverse : UInt64} (unit : multiplier * inverse = 1)
    (word : UInt64) : word * multiplier * inverse = word := by
  rw [UInt64.mul_assoc, unit, UInt64.mul_one]

@[simp] theorem unmix_mix (word : UInt64) : unmix (mix word) = word := by
  rw [unmix, mix, foldHigh_foldHigh, mul_mul_of_inverse (by decide), foldHigh_foldHigh,
    mul_mul_of_inverse (by decide), foldHigh_foldHigh]

@[simp] theorem mix_unmix (word : UInt64) : mix (unmix word) = word := by
  rw [unmix, mix, foldHigh_foldHigh, mul_mul_of_inverse (by decide), foldHigh_foldHigh,
    mul_mul_of_inverse (by decide), foldHigh_foldHigh]

theorem mix_injective : Function.Injective mix :=
  Function.LeftInverse.injective unmix_mix

theorem mix_eq_iff {raw word : UInt64} : mix raw = word ↔ raw = unmix word := by
  constructor
  · rintro rfl
    exact (unmix_mix raw).symm
  · rintro rfl
    exact mix_unmix word

theorem toNat_or_one (word : UInt64) : (word ||| 1).toNat = word.toNat / 2 * 2 + 1 := by
  rw [UInt64.toNat_or, UInt64.toNat_one]
  apply Nat.eq_of_testBit_eq
  intro bit
  cases bit with
  | zero => simp
  | succ bit =>
      rw [Nat.testBit_or, Nat.testBit_add_one, Nat.testBit_add_one, Nat.testBit_add_one]
      have halves : (word.toNat / 2 * 2 + 1) / 2 = word.toNat / 2 := by omega
      simp [halves]

section Lowest

variable {first second word : UInt64}

theorem or_one_inj_iff : first ||| 1 = second ||| 1 ↔
    ∀ bit, bit ≠ 0 → first.toNat.testBit bit = second.toNat.testBit bit := by
  have halves : first ||| 1 = second ||| 1 ↔ first.toNat / 2 = second.toNat / 2 := by
    rw [← UInt64.toNat_inj, toNat_or_one, toNat_or_one]
    omega
  rw [halves]
  constructor
  · intro same bit above
    obtain ⟨bit, rfl⟩ := Nat.exists_eq_succ_of_ne_zero above
    rw [Nat.testBit_succ, Nat.testBit_succ, same]
  · intro agree
    apply Nat.eq_of_testBit_eq
    intro bit
    rw [← Nat.testBit_succ, ← Nat.testBit_succ]
    exact agree (bit + 1) (Nat.succ_ne_zero bit)

theorem toNat_of_odd (odd : word % 2 = 1) :
    word.toNat % 2 = 1 ∧ (word - 1).toNat = word.toNat - 1 := by
  have remainder : word.toNat % 2 = 1 := congrArg UInt64.toNat odd
  refine ⟨remainder, UInt64.toNat_sub_of_le _ _ ?_⟩
  rw [UInt64.le_iff_toNat_le, UInt64.toNat_one]
  omega

theorem or_one_eq_iff (odd : word % 2 = 1) :
    first ||| 1 = word ↔ first = word ∨ first = word - 1 := by
  obtain ⟨remainder, before⟩ := toNat_of_odd odd
  rw [← UInt64.toNat_inj, ← UInt64.toNat_inj, ← UInt64.toNat_inj, toNat_or_one, before]
  omega

theorem storedHash_eq_iff (odd : word % 2 = 1) (raw : UInt64) :
    storedHash raw = word ↔ raw = unmix word ∨ raw = unmix (word - 1) := by
  rw [storedHash, or_one_eq_iff odd, mix_eq_iff, mix_eq_iff]

end Lowest

namespace Table

variable {α : Type}

theorem home_or_one {table : Table α} (shifted : 0 < table.shift) (word : UInt64) :
    table.home (word ||| 1) = table.home word := by
  obtain ⟨places, moved⟩ := Nat.exists_eq_succ_of_ne_zero (Nat.ne_of_gt shifted)
  have halves : (word.toNat / 2 * 2 + 1) / 2 = word.toNat / 2 := by omega
  rw [home, home, toNat_or_one, moved, Nat.succ_eq_one_add, Nat.shiftRight_add,
    Nat.shiftRight_add, Nat.shiftRight_one, Nat.shiftRight_one, halves]

theorem shift_ofSlots {slots : Array (Slot α)} {width : Nat} (count : slots.size = 2 ^ width)
    (population : Nat) : (ofSlots slots population).shift = 64 - width := by
  have allocated : slots.size ≠ 0 := by
    rw [count]
    exact (Nat.two_pow_pos width).ne'
  rw [ofSlots, if_neg allocated, count, Nat.log2_two_pow]

end Table

/-- Mixing loses nothing, making a hash odd only the lowest bit of the mixed word, and that bit
decides no home. -/
theorem storedHash_keeps_high_bits {α : Type} :
    Function.Injective mix ∧ Function.Surjective mix ∧
      (∀ word, unmix (mix word) = word ∧ mix (unmix word) = word) ∧
      (∀ first second, storedHash first = storedHash second ↔
        ∀ bit, bit ≠ 0 → (mix first).toNat.testBit bit = (mix second).toNat.testBit bit) ∧
      (∀ word : UInt64, word % 2 = 1 → unmix word ≠ unmix (word - 1) ∧
        ∀ raw, storedHash raw = word ↔ raw = unmix word ∨ raw = unmix (word - 1)) ∧
      ∀ width, 1 ≤ width → width ≤ 63 → ∀ (slots : Array (Slot α)) (population : Nat),
        slots.size = 2 ^ width → ∀ raw, (Table.ofSlots slots population).home (storedHash raw) =
          (Table.ofSlots slots population).home (mix raw) := by
  refine ⟨mix_injective, fun word => ⟨unmix word, mix_unmix word⟩,
    fun word => ⟨unmix_mix word, mix_unmix word⟩, fun first second => or_one_inj_iff, ?_, ?_⟩
  · intro word odd
    refine ⟨?_, storedHash_eq_iff odd⟩
    intro same
    obtain ⟨remainder, before⟩ := toNat_of_odd odd
    have equal := congrArg (fun raw => (mix raw).toNat) same
    simp only [mix_unmix, before] at equal
    omega
  · intro width _ most slots population count raw
    apply Table.home_or_one
    rw [Table.shift_ofSlots count]
    omega

def twoSlots : Table Nat :=
  .ofSlots #[none, none] 0

theorem storedHash_keeps_high_bits_least :
    (0x50bf096683646df0 : UInt64) ≠ 0 ∧
      (∀ raw, storedHash raw = 1 ↔ raw = 0x50bf096683646df0 ∨ raw = 0) ∧
        mix 1 = 0xb456bcfc34c2cb2c ∧ twoSlots.home (storedHash 1) = twoSlots.home (mix 1) ∧
          twoSlots.home (mix 1) = 1 := by
  obtain ⟨_, _, _, _, preimages, homes⟩ := storedHash_keeps_high_bits (α := Nat)
  obtain ⟨different, exact⟩ := preimages 1 (by decide)
  have one : unmix 1 = 0x50bf096683646df0 := by decide
  have zero : unmix (1 - 1) = 0 := by decide
  rw [one, zero] at different exact
  exact ⟨different, exact, by decide, homes 1 (by decide) (by decide) #[none, none] 0 rfl 1,
    by decide⟩

end RobinHood
