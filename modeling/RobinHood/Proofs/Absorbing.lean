import RobinHood.Proofs.Chunking

/-!
Nothing that is folded in is lost. A fold permutes the states for every word, and gives different
states for different words, so a difference in the seed or in one word survives the later folds and
the mixing at the end. With the lengths of the writes fixed the words give their bytes back.
-/

namespace RobinHood

namespace Write

def content : Write → List UInt8
  | .bytes content => content
  | .word content => Feed.littleEndian 8 content.toNat

def folded : Write → List UInt64
  | .bytes content => Mixer.wordsOfBytes content
  | .word content => [content]

theorem folded_eq (write : Write) : write.folded = Mixer.wordsOfBytes write.content := by
  cases write with
  | bytes content => rfl
  | word content => exact (Mixer.wordsOfBytes_littleEndian content).symm

theorem length_folded (write : Write) :
    write.folded.length = (write.content.length + 7) / 8 := by
  rw [folded_eq, Mixer.length_wordsOfBytes]

/-- Two writes whose bytes are the same outside one word of eight, or outside the shorter rest. -/
def DifferInOneWord (first second : Write) : Prop :=
  ∃ before mine theirs after : List UInt8,
    first.content = before ++ mine ++ after ∧ second.content = before ++ theirs ++ after ∧
      before.length % 8 = 0 ∧ mine.length = theirs.length ∧ mine ≠ theirs ∧
        (mine.length = 8 ∨ mine.length < 8 ∧ after = [])

end Write

namespace Feed

def folded (feed : Feed) : List UInt64 :=
  feed.flatMap Write.folded

def contents (feed : Feed) : List (List UInt8) :=
  feed.map Write.content

def lengths (feed : Feed) : List Nat :=
  feed.contents.map List.length

theorem folded_cons (write : Write) (rest : Feed) :
    folded (write :: rest) = write.folded ++ folded rest :=
  List.flatMap_cons

theorem folded_append (earlier later : Feed) :
    folded (earlier ++ later) = earlier.folded ++ later.folded :=
  List.flatMap_append

theorem contents_cons (write : Write) (rest : Feed) :
    contents (write :: rest) = write.content :: contents rest :=
  List.map_cons

theorem lengths_cons (write : Write) (rest : Feed) :
    lengths (write :: rest) = write.content.length :: lengths rest :=
  rfl

theorem contents_eq_iff {first second : Feed} (lengths : first.lengths = second.lengths) :
    first.contents = second.contents ↔ first.folded = second.folded := by
  induction first generalizing second with
  | nil =>
      cases second with
      | nil => exact iff_of_true rfl rfl
      | cons other others => simp [Feed.lengths, contents] at lengths
  | cons write rest ih =>
      cases second with
      | nil => simp [Feed.lengths, contents] at lengths
      | cons other others =>
          obtain ⟨length, later⟩ := List.cons.inj lengths
          have words : write.folded.length = other.folded.length := by
            rw [Write.length_folded, Write.length_folded, length]
          have same : write.content = other.content ↔ write.folded = other.folded := by
            rw [write.folded_eq, other.folded_eq]
            exact ⟨congrArg Mixer.wordsOfBytes, Mixer.wordsOfBytes_inj length⟩
          have parts : write.folded ++ folded rest = other.folded ++ folded others ↔
              write.folded = other.folded ∧ folded rest = folded others :=
            ⟨fun all => List.append_inj all words, fun ⟨head, tail⟩ => by rw [head, tail]⟩
          rw [contents_cons, contents_cons, List.cons.injEq, folded_cons, folded_cons, parts, same,
            ih later]

end Feed

namespace Mixer

theorem testBit_rotate (word : UInt64) {bit : Nat} (inside : bit < 64) :
    (rotate word).toNat.testBit bit = word.toNat.testBit ((bit + 41) % 64) := by
  simp only [rotate, UInt64.toNat_or, UInt64.toNat_shiftLeft, UInt64.toNat_shiftRight,
    Nat.testBit_or, Nat.testBit_mod_two_pow, Nat.testBit_shiftLeft, Nat.testBit_shiftRight,
    UInt64.reduceToNat, Nat.reduceMod, inside, decide_true, Bool.true_and]
  by_cases below : bit < 23
  · have place : (bit + 41) % 64 = 41 + bit := by omega
    rw [place, decide_eq_false (by omega), Bool.false_and, Bool.false_or]
  · have place : (bit + 41) % 64 = bit - 23 := by omega
    have top : word.toNat.testBit (41 + bit) = false :=
      Nat.testBit_lt_two_pow (Nat.lt_of_lt_of_le word.toNat_lt
        (Nat.pow_le_pow_right (by decide) (by omega)))
    rw [place, top, decide_eq_true (by omega), Bool.true_and, Bool.or_false]

theorem rotate_injective : Function.Injective rotate := by
  intro first second same
  apply UInt64.toBitVec_inj.mp
  apply BitVec.eq_of_getLsbD_eq
  intro bit inside
  have place : ((bit + 23) % 64 + 41) % 64 = bit := by omega
  have bits := congrArg (fun word : UInt64 => word.toNat.testBit ((bit + 23) % 64)) same
  simp only [testBit_rotate _ (Nat.mod_lt (bit + 23) (by decide : 0 < 64)), place] at bits
  exact bits

theorem fold_eq_iff {state other word otherWord : UInt64} :
    fold state word = fold other otherWord ↔ rotate state ^^^ word = rotate other ^^^ otherWord := by
  have unit : multiplier * 0xf1de83e19937733d = 1 := by decide
  constructor
  · intro same
    have undone := congrArg (· * 0xf1de83e19937733d) same
    simpa only [fold, mul_mul_of_inverse unit] using undone
  · intro same
    rw [fold, fold, same]

theorem fold_state_inj {state other word : UInt64} :
    fold state word = fold other word ↔ state = other := by
  rw [fold_eq_iff, UInt64.xor_left_inj, rotate_injective.eq_iff]

theorem fold_word_inj {state word other : UInt64} :
    fold state word = fold state other ↔ word = other := by
  rw [fold_eq_iff, UInt64.xor_right_inj]

theorem foldl_fold_inj (words : List UInt64) {state other : UInt64} :
    words.foldl fold state = words.foldl fold other ↔ state = other := by
  induction words generalizing state other with
  | nil => exact Iff.rfl
  | cons word rest ih => rw [List.foldl_cons, List.foldl_cons, ih, fold_state_inj]

theorem absorb_eq (mixer : Mixer) (write : Write) :
    mixer.absorb write =
      { state := write.folded.foldl fold mixer.state
        written := mixer.written + UInt64.ofNat write.content.length } := by
  cases write with
  | bytes content => rfl
  | word content => rw [absorb_word, Write.folded_eq]; rfl

theorem absorbAll_eq (mixer : Mixer) (feed : Feed) :
    mixer.absorbAll feed =
      { state := feed.folded.foldl fold mixer.state
        written := mixer.written + UInt64.ofNat feed.lengths.sum } := by
  induction feed generalizing mixer with
  | nil => exact (absorb_nil mixer).symm
  | cons write rest ih =>
      have first : mixer.absorbAll (write :: rest) = (mixer.absorb write).absorbAll rest := rfl
      rw [first, ih, absorb_eq, Feed.folded_cons, List.foldl_append, Feed.lengths_cons,
        List.sum_cons, UInt64.ofNat_add, UInt64.add_assoc]

theorem hash_eq_iff {seed other : UInt64} {first second : Feed}
    (lengths : first.lengths = second.lengths) :
    hash seed first = hash other second ↔
      first.folded.foldl fold seed = second.folded.foldl fold other := by
  rw [hash, hash, finish_eq_iff_state] <;> simp only [absorbAll_eq, start, lengths]

theorem hash_eq_iff_word (seed : UInt64) {first second : Feed} {before after : List UInt64}
    {mine theirs : UInt64} (lengths : first.lengths = second.lengths)
    (firstWords : first.folded = before ++ mine :: after)
    (secondWords : second.folded = before ++ theirs :: after) :
    hash seed first = hash seed second ↔ mine = theirs := by
  rw [hash_eq_iff lengths, firstWords, secondWords, List.foldl_append, List.foldl_append,
    List.foldl_cons, List.foldl_cons, foldl_fold_inj, fold_word_inj]

theorem hash_seed_injective (feed : Feed) : Function.Injective fun seed => hash seed feed := by
  intro first second same
  exact (foldl_fold_inj feed.folded).mp ((hash_eq_iff rfl).mp same)

theorem hash_ne_of_differ (seed : UInt64) (earlier later : Feed) {first second : Write}
    (differ : first.DifferInOneWord second) :
    hash seed (earlier ++ first :: later) ≠ hash seed (earlier ++ second :: later) := by
  obtain ⟨before, mine, theirs, after, firstBytes, secondBytes, whole, length, different, last⟩ :=
    differ
  have filled : 0 < mine.length := by
    apply List.length_pos_iff.mpr
    rintro rfl
    exact different (List.length_eq_zero_iff.mp length.symm).symm
  have folded {write : Write} {bytes : List UInt8} (size : bytes.length = mine.length)
      (content : write.content = before ++ bytes ++ after) :
      (earlier ++ write :: later : Feed).folded =
        (earlier.folded ++ wordsOfBytes before) ++
          wordOfBytes bytes :: (wordsOfBytes after ++ later.folded) := by
    rw [Feed.folded_append, Feed.folded_cons, write.folded_eq, content,
      wordsOfBytes_split whole (by omega) (by rwa [size])]
    simp only [List.append_assoc, List.cons_append]
  have lengths : (earlier ++ first :: later : Feed).lengths =
      (earlier ++ second :: later : Feed).lengths := by
    simp [Feed.lengths, Feed.contents, firstBytes, secondBytes, length]
  rw [ne_eq, hash_eq_iff_word seed lengths (folded rfl firstBytes) (folded length.symm secondBytes)]
  intro same
  exact different (wordOfBytes_inj (by omega) length same)

/-- With the lengths of the writes fixed, no seed and no word that is folded in is lost: each of
them can be told from the hash, if the others are known, and the words tell the bytes. -/
theorem hash_keeps_every_word :
    (∀ feed : Feed, Function.Bijective fun seed => hash seed feed) ∧
      (∀ (seed : UInt64) (first second : Feed) (before after : List UInt64)
        (mine theirs : UInt64), first.lengths = second.lengths →
          first.folded = before ++ mine :: after → second.folded = before ++ theirs :: after →
            (hash seed first = hash seed second ↔ mine = theirs)) ∧
      (∀ first second : Feed, first.lengths = second.lengths →
        (first.folded = second.folded ↔ first.contents = second.contents)) ∧
      (∀ (feed : Feed) (first second : UInt64), first ≠ second →
        hash first feed ≠ hash second feed) ∧
      ∀ (seed : UInt64) (earlier later : Feed) (first second : Write),
        first.DifferInOneWord second →
          hash seed (earlier ++ first :: later) ≠ hash seed (earlier ++ second :: later) := by
  refine ⟨?_, ?_, ?_, ?_, ?_⟩
  · intro feed
    exact Finite.injective_iff_bijective.mp (hash_seed_injective feed)
  · intro seed first second before after mine theirs lengths firstWords secondWords
    exact hash_eq_iff_word seed lengths firstWords secondWords
  · intro first second lengths
    exact (Feed.contents_eq_iff lengths).symm
  · intro feed first second different same
    exact different (hash_seed_injective feed same)
  · intro seed earlier later first second differ
    exact hash_ne_of_differ seed earlier later differ

theorem hash_keeps_every_word_tail :
    (Write.bytes [1, 2, 3, 4, 5, 6, 7, 8, 9, 10]).DifferInOneWord
        (.bytes [1, 2, 3, 4, 5, 6, 7, 8, 9, 11]) ∧
      hash 7 [.word 5, .bytes [1, 2, 3, 4, 5, 6, 7, 8, 9, 10], .bytes [0xff]] ≠
        hash 7 [.word 5, .bytes [1, 2, 3, 4, 5, 6, 7, 8, 9, 11], .bytes [0xff]] ∧
      hash 7 [.word 5, .bytes [0xff]] ≠ hash 8 [.word 5, .bytes [0xff]] ∧
      (hash 7 [.word 5, .bytes [0xff]] = hash 7 [.word 5, .bytes [0xfe]] ↔
        (0xff : UInt64) = 0xfe) ∧
      Feed.contents [.word 5, .bytes [0xff]] = Feed.contents [.bytes [5, 0, 0, 0, 0, 0, 0, 0],
        .bytes [0xff]] := by
  obtain ⟨_, word, bytes, seeds, tails⟩ := hash_keeps_every_word
  have differ : (Write.bytes [1, 2, 3, 4, 5, 6, 7, 8, 9, 10]).DifferInOneWord
      (.bytes [1, 2, 3, 4, 5, 6, 7, 8, 9, 11]) :=
    ⟨[1, 2, 3, 4, 5, 6, 7, 8], [9, 10], [9, 11], [], rfl, rfl, rfl, rfl, by decide,
      Or.inr ⟨by decide, rfl⟩⟩
  exact ⟨differ, tails 7 [.word 5] [.bytes [0xff]] _ _ differ, seeds _ 7 8 (by decide),
    word 7 _ _ [5] [] 0xff 0xfe rfl rfl rfl, (bytes _ _ rfl).mp rfl⟩

end Mixer

end RobinHood
