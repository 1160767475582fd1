import Mathlib
import RobinHood.Hash.Mixer
import RobinHood.Proofs.Mixing

/-!
Byte strings as words. A word reads its bytes as the digits of a number, lowest first; a longer
string gives one word for each eight bytes, so that whole words can be written apart or at once,
and two strings give the same words only if one ends in zeros that fill up the last word of the
other. These a hasher tells apart by the number of bytes.
-/

namespace RobinHood

section LittleEndian

@[simp] theorem Feed.length_littleEndian (width value : Nat) :
    (Feed.littleEndian width value).length = width := by
  induction width generalizing value with
  | zero => rfl
  | succ width ih => rw [Feed.littleEndian, List.length_cons, ih]

def ofBytes (bytes : List UInt8) : Nat :=
  Nat.ofDigits 256 (bytes.map UInt8.toNat)

theorem ofBytes_cons (byte : UInt8) (rest : List UInt8) :
    ofBytes (byte :: rest) = byte.toNat + 256 * ofBytes rest :=
  Nat.ofDigits_cons

theorem digits_lt {bytes : List UInt8} {digit : Nat} (member : digit ∈ bytes.map UInt8.toNat) :
    digit < 256 := by
  obtain ⟨byte, _, rfl⟩ := List.mem_map.mp member
  exact byte.toNat_lt

theorem ofBytes_lt (bytes : List UInt8) : ofBytes bytes < 256 ^ bytes.length := by
  have bound := Nat.ofDigits_lt_base_pow_length (b := 256) (l := bytes.map UInt8.toNat)
    (by decide) fun _ member => digits_lt member
  rwa [List.length_map] at bound

theorem ofBytes_zeros (bytes : List UInt8) (zeros : Nat) :
    ofBytes (bytes ++ List.replicate zeros 0) = ofBytes bytes := by
  rw [ofBytes, List.map_append, List.map_replicate]
  exact Nat.ofDigits_append_replicate_zero _

theorem ofBytes_inj {first second : List UInt8} (length : first.length = second.length)
    (same : ofBytes first = ofBytes second) : first = second := by
  have digits := Nat.ofDigits_inj_of_len_eq (by decide)
    (by rw [List.length_map, List.length_map, length]) (fun _ member => digits_lt member)
    (fun _ member => digits_lt member) same
  exact List.map_injective_iff.mpr (fun _ _ => UInt8.toNat_inj.mp) digits

theorem ofBytes_littleEndian (width value : Nat) :
    ofBytes (Feed.littleEndian width value) = value % 256 ^ width := by
  induction width generalizing value with
  | zero => rw [pow_zero, Nat.mod_one]; rfl
  | succ width ih =>
      rw [Feed.littleEndian, ofBytes_cons, ih, UInt8.toNat_ofNat', pow_succ' (256 : Nat) width,
        Nat.mod_mul]

end LittleEndian

namespace Mixer

theorem toNat_wordOfBytes {bytes : List UInt8} (short : bytes.length ≤ 8) :
    (wordOfBytes bytes).toNat = ofBytes bytes := by
  induction bytes with
  | nil => rfl
  | cons byte rest ih =>
      rw [List.length_cons] at short
      -- the bytes above the lowest fill at most seven places, so moving them up drops none
      have bound : ofBytes rest < 256 ^ 7 :=
        Nat.lt_of_lt_of_le (ofBytes_lt rest) (Nat.pow_le_pow_right (by decide) (by omega))
      have moved : (wordOfBytes rest <<< 8).toNat = ofBytes rest <<< 8 := by
        rw [UInt64.toNat_shiftLeft, ih (by omega), Nat.shiftLeft_eq, Nat.shiftLeft_eq]
        apply Nat.mod_eq_of_lt
        change ofBytes rest * 256 < 2 ^ 64
        omega
      rw [wordOfBytes, UInt64.toNat_or, moved, UInt8.toNat_toUInt64, Nat.or_comm,
        ← Nat.shiftLeft_add_eq_or_of_lt byte.toNat_lt, ofBytes_cons, Nat.shiftLeft_eq]
      omega

theorem wordOfBytes_inj {first second : List UInt8} (short : first.length ≤ 8)
    (length : first.length = second.length) (same : wordOfBytes first = wordOfBytes second) :
    first = second := by
  apply ofBytes_inj length
  rw [← toNat_wordOfBytes short, ← toNat_wordOfBytes (length ▸ short), same]

theorem wordOfBytes_littleEndian (word : UInt64) :
    wordOfBytes (Feed.littleEndian 8 word.toNat) = word := by
  apply UInt64.toNat_inj.mp
  rw [toNat_wordOfBytes (Feed.length_littleEndian 8 _).le, ofBytes_littleEndian]
  exact Nat.mod_eq_of_lt word.toNat_lt

theorem wordsOfBytes_eq {bytes : List UInt8} (filled : 0 < bytes.length) :
    wordsOfBytes bytes = wordOfBytes (bytes.take 8) :: wordsOfBytes (bytes.drop 8) := by
  match bytes, filled with
  | [_], _ | [_, _], _ | [_, _, _], _ | [_, _, _, _], _ | [_, _, _, _, _], _
  | [_, _, _, _, _, _], _ | [_, _, _, _, _, _, _], _ => rfl
  | _ :: _ :: _ :: _ :: _ :: _ :: _ :: _ :: _, _ => rfl

@[elab_as_elim]
theorem chunk_induction {motive : List UInt8 → Prop} (nil : motive [])
    (chunk : ∀ bytes, 0 < bytes.length → motive (bytes.drop 8) → motive bytes)
    (bytes : List UInt8) : motive bytes := by
  by_cases none : bytes = []
  · exact none ▸ nil
  · have filled := List.length_pos_iff.mpr none
    exact chunk bytes filled (chunk_induction nil chunk (bytes.drop 8))
termination_by bytes.length
decreasing_by
  rw [List.length_drop]
  omega

theorem length_wordsOfBytes (bytes : List UInt8) :
    (wordsOfBytes bytes).length = (bytes.length + 7) / 8 := by
  induction bytes using chunk_induction with
  | nil => rfl
  | chunk bytes filled ih =>
      rw [wordsOfBytes_eq filled, List.length_cons, ih, List.length_drop]
      omega

theorem wordsOfBytes_append (first second : List UInt8) (whole : first.length % 8 = 0) :
    wordsOfBytes (first ++ second) = wordsOfBytes first ++ wordsOfBytes second := by
  induction first using chunk_induction with
  | nil => rfl
  | chunk first filled ih =>
      have rest := ih (by rw [List.length_drop]; omega)
      rw [wordsOfBytes_eq filled, wordsOfBytes_eq (by rw [List.length_append]; omega),
        List.take_append_of_le_length (by omega), List.drop_append_of_le_length (by omega), rest,
        List.cons_append]

theorem wordsOfBytes_split {before bytes after : List UInt8} (whole : before.length % 8 = 0)
    (filled : 0 < bytes.length) (last : bytes.length = 8 ∨ bytes.length < 8 ∧ after = []) :
    wordsOfBytes (before ++ bytes ++ after) =
      wordsOfBytes before ++ wordOfBytes bytes :: wordsOfBytes after := by
  have parts : (bytes ++ after).take 8 = bytes ∧ (bytes ++ after).drop 8 = after := by
    rcases last with full | ⟨short, rfl⟩
    · exact ⟨List.take_left' full, List.drop_left' full⟩
    · rw [List.append_nil]
      exact ⟨List.take_of_length_le short.le, List.drop_of_length_le short.le⟩
  have longer : 0 < (bytes ++ after).length := by
    rw [List.length_append]
    omega
  rw [List.append_assoc, wordsOfBytes_append before _ whole, wordsOfBytes_eq longer, parts.1,
    parts.2]

theorem wordsOfBytes_inj {first second : List UInt8} (length : first.length = second.length)
    (same : wordsOfBytes first = wordsOfBytes second) : first = second := by
  induction first using chunk_induction generalizing second with
  | nil => exact (List.length_eq_zero_iff.mp length.symm).symm
  | chunk first filled ih =>
      have secondFilled : 0 < second.length := by omega
      rw [wordsOfBytes_eq filled, wordsOfBytes_eq secondFilled, List.cons.injEq] at same
      have chunk := wordOfBytes_inj (List.length_take_le 8 first)
        (by rw [List.length_take, List.length_take, length]) same.1
      have rest := ih (by rw [List.length_drop, List.length_drop, length]) same.2
      rw [← List.take_append_drop 8 first, ← List.take_append_drop 8 second, chunk, rest]

theorem wordsOfBytes_zeros (bytes : List UInt8) (zeros : Nat)
    (fit : (bytes.length + zeros + 7) / 8 = (bytes.length + 7) / 8) :
    wordsOfBytes (bytes ++ List.replicate zeros 0) = wordsOfBytes bytes := by
  induction bytes using chunk_induction with
  | nil =>
      have nothing : zeros = 0 := by
        rw [List.length_nil] at fit
        omega
      rw [nothing, List.replicate_zero, List.append_nil]
  | chunk bytes filled ih =>
      rw [wordsOfBytes_eq filled, wordsOfBytes_eq (by rw [List.length_append]; omega)]
      by_cases long : 8 ≤ bytes.length
      · have rest := ih (by rw [List.length_drop]; omega)
        rw [List.take_append_of_le_length long, List.drop_append_of_le_length long, rest]
      · -- the last word: the zeros stand where it was filled up with zeros anyway
        have total : (bytes ++ List.replicate zeros 0).length ≤ 8 := by
          rw [List.length_append, List.length_replicate]
          omega
        rw [List.take_of_length_le total, List.drop_of_length_le total,
          List.take_of_length_le (by omega), List.drop_of_length_le (by omega)]
        congr 1
        apply UInt64.toNat_inj.mp
        rw [toNat_wordOfBytes total, toNat_wordOfBytes (by omega), ofBytes_zeros]

theorem wordsOfBytes_eq_iff {first second : List UInt8} (longer : first.length ≤ second.length) :
    wordsOfBytes first = wordsOfBytes second ↔
      second = first ++ List.replicate (second.length - first.length) 0 ∧
        (second.length + 7) / 8 = (first.length + 7) / 8 := by
  constructor
  · intro same
    have count : (second.length + 7) / 8 = (first.length + 7) / 8 := by
      rw [← length_wordsOfBytes, ← length_wordsOfBytes, same]
    refine ⟨?_, count⟩
    apply wordsOfBytes_inj
    · rw [List.length_append, List.length_replicate]
      omega
    · rw [← same, wordsOfBytes_zeros]
      rwa [Nat.add_sub_of_le longer]
  · rintro ⟨filled, count⟩
    rw [filled, wordsOfBytes_zeros]
    rwa [Nat.add_sub_of_le longer]

theorem wordsOfBytes_littleEndian (word : UInt64) :
    wordsOfBytes (Feed.littleEndian 8 word.toNat) = [word] :=
  congrArg (fun word => [word]) (wordOfBytes_littleEndian word)

theorem absorb_word (mixer : Mixer) (word : UInt64) :
    mixer.absorb (.word word) = mixer.absorb (.bytes (Feed.littleEndian 8 word.toNat)) := by
  rw [absorb, absorb, wordsOfBytes_littleEndian, Feed.length_littleEndian]
  rfl

theorem absorb_nil (mixer : Mixer) : mixer.absorb (.bytes []) = mixer := by
  have counted : mixer.written + UInt64.ofNat 0 = mixer.written := UInt64.add_zero _
  rw [absorb, List.length_nil, counted]
  rfl

theorem absorb_append (mixer : Mixer) (first second : List UInt8) (whole : first.length % 8 = 0) :
    mixer.absorb (.bytes (first ++ second)) =
      (mixer.absorb (.bytes first)).absorb (.bytes second) := by
  simp only [absorb, wordsOfBytes_append first second whole, List.foldl_append,
    List.length_append, UInt64.ofNat_add, UInt64.add_assoc]

theorem absorbAll_words (mixer : Mixer) (words : List UInt64) :
    mixer.absorbAll (words.map .word) =
      mixer.absorb (.bytes (words.flatMap fun word => Feed.littleEndian 8 word.toNat)) := by
  induction words generalizing mixer with
  | nil => exact (absorb_nil mixer).symm
  | cons word rest ih =>
      have whole : (Feed.littleEndian 8 word.toNat).length % 8 = 0 := by
        rw [Feed.length_littleEndian]
      rw [List.flatMap_cons, absorb_append mixer _ _ whole, ← absorb_word, ← ih]
      rfl

theorem finish_eq_iff_written {mixer other : Mixer} (state : mixer.state = other.state) :
    mixer.finish = other.finish ↔ mixer.written = other.written := by
  rw [finish, finish, mix_injective.eq_iff, state, UInt64.xor_right_inj]

theorem finish_eq_iff_state {mixer other : Mixer} (written : mixer.written = other.written) :
    mixer.finish = other.finish ↔ mixer.state = other.state := by
  rw [finish, finish, mix_injective.eq_iff, written, UInt64.xor_left_inj]

theorem finish_absorb_ne (mixer : Mixer) {first second : List UInt8}
    (length : first.length ≠ second.length) (same : wordsOfBytes first = wordsOfBytes second) :
    (mixer.absorb (.bytes first)).finish ≠ (mixer.absorb (.bytes second)).finish := by
  have state : (mixer.absorb (.bytes first)).state = (mixer.absorb (.bytes second)).state := by
    rw [absorb, absorb, same]
  rw [ne_eq, finish_eq_iff_written state]
  intro written
  have counts : UInt64.ofNat first.length = UInt64.ofNat second.length :=
    (UInt64.add_right_inj mixer.written).mp written
  have remainders := congrArg UInt64.toNat counts
  rw [UInt64.toNat_ofNat', UInt64.toNat_ofNat'] at remainders
  -- the lengths lie within one word of each other, so the counters have not come round
  have chunks : (first.length + 7) / 8 = (second.length + 7) / 8 := by
    rw [← length_wordsOfBytes, ← length_wordsOfBytes, same]
  omega

/-- Whole words may be written apart or at once, from any state on; and strings that become the
same words, as one of them ends in zeros in the last word, differ in the hash. -/
theorem absorb_by_chunks :
    (∀ (mixer : Mixer) (first second : List UInt8), first.length % 8 = 0 →
      (mixer.absorb (.bytes first)).absorb (.bytes second) =
        mixer.absorb (.bytes (first ++ second))) ∧
      (∀ (mixer : Mixer) (words : List UInt64), mixer.absorbAll (words.map .word) =
        mixer.absorb (.bytes (words.flatMap fun word => Feed.littleEndian 8 word.toNat))) ∧
      (∀ first second : List UInt8, first.length ≤ second.length →
        (wordsOfBytes first = wordsOfBytes second ↔
          second = first ++ List.replicate (second.length - first.length) 0 ∧
            (second.length + 7) / 8 = (first.length + 7) / 8)) ∧
      ∀ (mixer : Mixer) (first second : List UInt8), first.length ≠ second.length →
        wordsOfBytes first = wordsOfBytes second →
          (mixer.absorb (.bytes first)).finish ≠ (mixer.absorb (.bytes second)).finish :=
  ⟨fun mixer first second whole => (absorb_append mixer first second whole).symm, absorbAll_words,
    fun _ _ => wordsOfBytes_eq_iff, fun mixer _ _ => finish_absorb_ne mixer⟩

theorem absorb_by_chunks_tails :
    ((start defaultSeed).absorb (.bytes [1, 2, 3, 4, 5, 6, 7, 8])).absorb (.bytes [9, 10]) =
        (start defaultSeed).absorb (.bytes [1, 2, 3, 4, 5, 6, 7, 8, 9, 10]) ∧
      (start defaultSeed).absorbAll [.word 0x0807060504030201, .word 9] =
        (start defaultSeed).absorb (.bytes [1, 2, 3, 4, 5, 6, 7, 8, 9, 0, 0, 0, 0, 0, 0, 0]) ∧
      wordsOfBytes [1, 2, 3] = wordsOfBytes [1, 2, 3, 0] ∧
        ((start defaultSeed).absorb (.bytes [1, 2, 3])).finish ≠
          ((start defaultSeed).absorb (.bytes [1, 2, 3, 0])).finish := by
  obtain ⟨cut, whole, padded, apart⟩ := absorb_by_chunks
  have same : wordsOfBytes [1, 2, 3] = wordsOfBytes [1, 2, 3, 0] :=
    (padded [1, 2, 3] [1, 2, 3, 0] (by decide)).mpr ⟨rfl, rfl⟩
  exact ⟨cut _ _ _ rfl, whole _ [0x0807060504030201, 9], same, apart _ _ _ (by decide) same⟩

end Mixer

end RobinHood
