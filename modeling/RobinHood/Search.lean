/-! The first answer in a bounded range of numbers. -/

namespace RobinHood

/-- Asks `count` numbers from `start` on and gives the first answer. -/
def firstAnswer {β : Type} (ask : Nat → Option β) : (start count : Nat) → Option β
  | _, 0 => none
  | start, count + 1 =>
      match ask start with
      | some answer => some answer
      | none => firstAnswer ask (start + 1) count

/-- The least of `count` numbers from `start` on that passes a test. -/
def firstWhere (test : Nat → Bool) (start count : Nat) : Option Nat :=
  firstAnswer (fun number => if test number then some number else none) start count

theorem firstAnswer_eq_some_iff {β : Type} {ask : Nat → Option β} {start count : Nat} {answer : β} :
    firstAnswer ask start count = some answer ↔
      ∃ offset < count, ask (start + offset) = some answer ∧
        ∀ earlier < offset, ask (start + earlier) = none := by
  induction count generalizing start with
  | zero => simp [firstAnswer]
  | succ count ih =>
      rw [firstAnswer]
      split
      next found here =>
        constructor
        · rintro ⟨⟩
          exact ⟨0, by omega, by simpa using here, by omega⟩
        · rintro ⟨offset, _, there, before⟩
          cases offset with
          | zero => simpa [here] using there
          | succ offset => simpa [here] using before 0 (by omega)
      next missing =>
        rw [ih]
        constructor
        · rintro ⟨offset, below, there, before⟩
          refine ⟨offset + 1, by omega, by simpa [Nat.add_comm, Nat.add_left_comm] using there, ?_⟩
          intro earlier bound
          cases earlier with
          | zero => simpa using missing
          | succ earlier =>
              simpa [Nat.add_comm, Nat.add_left_comm] using before earlier (by omega)
        · rintro ⟨offset, below, there, before⟩
          cases offset with
          | zero => simp [missing] at there
          | succ offset =>
              refine ⟨offset, by omega, by simpa [Nat.add_comm, Nat.add_left_comm] using there, ?_⟩
              intro earlier bound
              simpa [Nat.add_comm, Nat.add_left_comm] using before (earlier + 1) (by omega)

theorem firstAnswer_eq_none_iff {β : Type} {ask : Nat → Option β} {start count : Nat} :
    firstAnswer ask start count = none ↔ ∀ offset < count, ask (start + offset) = none := by
  induction count generalizing start with
  | zero => simp [firstAnswer]
  | succ count ih =>
      rw [firstAnswer]
      split
      next found here =>
        simp only [reduceCtorEq, false_iff]
        intro all
        simpa [here] using all 0 (by omega)
      next missing =>
        rw [ih]
        constructor
        · intro all offset below
          cases offset with
          | zero => simpa using missing
          | succ offset => simpa [Nat.add_comm, Nat.add_left_comm] using all offset (by omega)
        · intro all offset below
          simpa [Nat.add_comm, Nat.add_left_comm] using all (offset + 1) (by omega)

theorem firstAnswer_concat {β : Type} (ask : Nat → Option β) (start count : Nat) :
    firstAnswer ask start (count + 1) = (firstAnswer ask start count).or (ask (start + count)) := by
  induction count generalizing start with
  | zero => cases here : ask start <;> simp [firstAnswer, here]
  | succ count ih =>
      have rest := ih (start + 1)
      rw [Nat.add_assoc, Nat.add_comm 1 count] at rest
      rw [firstAnswer.eq_2 ask start (count + 1), firstAnswer.eq_2 ask start count, rest]
      cases ask start <;> rfl

theorem firstWhere_eq_some_iff {test : Nat → Bool} {start count found : Nat} :
    firstWhere test start count = some found ↔
      start ≤ found ∧ found < start + count ∧ test found = true ∧
        ∀ earlier, start ≤ earlier → earlier < found → test earlier = false := by
  rw [firstWhere, firstAnswer_eq_some_iff]
  constructor
  · rintro ⟨offset, below, here, before⟩
    have passed : test (start + offset) = true ∧ start + offset = found := by simpa using here
    obtain ⟨pass, rfl⟩ := passed
    refine ⟨by omega, by omega, pass, ?_⟩
    intro earlier lower upper
    have unasked := before (earlier - start) (by omega)
    rw [Nat.add_sub_cancel' lower] at unasked
    simpa using unasked
  · rintro ⟨lower, upper, pass, before⟩
    refine ⟨found - start, by omega, ?_, ?_⟩
    · simp [Nat.add_sub_cancel' lower, pass]
    · intro earlier bound
      simp [before (start + earlier) (by omega) (by omega)]

theorem firstWhere_eq_none_iff {test : Nat → Bool} {start count : Nat} :
    firstWhere test start count = none ↔
      ∀ number, start ≤ number → number < start + count → test number = false := by
  rw [firstWhere, firstAnswer_eq_none_iff]
  constructor
  · intro all number lower upper
    have failed := all (number - start) (by omega)
    rw [Nat.add_sub_cancel' lower] at failed
    simpa using failed
  · intro all offset below
    simp [all (start + offset) (by omega) (by omega)]

end RobinHood
