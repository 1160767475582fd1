import RobinHood.Proofs.Guarded.Reachable

/-!
Which values a `retain` offers, and in which order. The offer may keep a state of its own; one that
notes down what it is offered shows that each value is offered once, in the order of the ring behind
the lowest free slot, though cells move towards the cursor while it goes round.
-/

namespace RobinHood.Table

variable {α σ τ : Type} {table result : Table α}

/-- The same offer, which also notes each value that it is made for. -/
def noting (offer : σ → α → Option α × σ) : σ × List α → α → Option α × (σ × List α) :=
  fun (state, noted) value => ((offer state value).1, ((offer state value).2, noted ++ [value]))

theorem offerAll_noting (offer : σ → α → Option α × σ) (state : σ) (noted : List α)
    (cells : List (Cell α)) :
    offerAll (noting offer) (state, noted) cells =
      ((offerAll offer state cells).1,
        ((offerAll offer state cells).2, noted ++ cells.map Cell.value)) := by
  induction cells generalizing state noted with
  | nil => simp [offerAll]
  | cons cell rest ih =>
      cases verdict : offer state cell.value with
      | mk answer after =>
          have answered : noting offer (state, noted) cell.value =
              (answer, (after, noted ++ [cell.value])) := by
            simp [noting, verdict]
          cases answer with
          | none => simp [offerAll_of_dropped answered, offerAll_of_dropped verdict, ih]
          | some value => simp [offerAll_of_kept answered, offerAll_of_kept verdict, ih]

theorem retainFrom_project {offer : σ → α → Option α × σ} {other : τ → α → Option α × τ}
    (project : τ → σ)
    (alike : ∀ state value,
      offer (project state) value = ((other state value).1, project (other state value).2))
    (start fuel rounds index : Nat) (state : τ) (table : Table α) :
    retainFrom offer start fuel rounds index (project state) table =
      (retainFrom other start fuel rounds index state table).map
        fun (rounds, state, table) => (rounds, project state, table) := by
  -- Both walks see the same slot in each round, since their tables stay the same.
  induction fuel generalizing rounds index state table with
  | zero =>
      simp only [retainFrom]
      split <;> rfl
  | succ fuel ih =>
      simp only [retainFrom]
      by_cases home : index = start
      · rw [if_pos home, if_pos home]
        rfl
      · rw [if_neg home, if_neg home]
        cases held : table.slot index with
        | none => exact ih _ _ _ _
        | some cell =>
            cases verdict : other state cell.value with
            | mk answer after =>
                have answered := alike state cell.value
                rw [verdict] at answered
                simp only [answered, verdict]
                cases answer with
                | some value => exact ih _ _ _ _
                | none =>
                    cases table.removeAt index with
                    | error error => rfl
                    | ok taken => exact ih _ _ _ _

theorem retainRounds_project {offer : σ → α → Option α × σ} {other : τ → α → Option α × τ}
    (project : τ → σ)
    (alike : ∀ state value,
      offer (project state) value = ((other state value).1, project (other state value).2))
    (state : τ) (table : Table α) :
    table.retainRounds offer (project state) =
      (table.retainRounds other state).map
        fun (rounds, state, table) => (rounds, project state, table) := by
  simp only [retainRounds]
  cases table.stepsToFree 0 with
  | error error => rfl
  | ok start => exact retainFrom_project project alike _ _ _ _ _ _

/-- What a `retain` does with the cells behind a free slot: it offers each of them once, in their
order, and keeps those accepted, in the same order and with their hashes. -/
structure KeepsAccepted (offer : σ → α → Option α × σ) (state : σ) (table result : Table α)
    (start : Nat) : Prop where
  all : (table.cellsBehind start).Perm table.cells
  retain : table.retain offer state =
    .ok ((offerAll offer state (table.cellsBehind start)).2, result)
  noted : table.retain (noting offer) (state, []) =
    .ok (((offerAll offer state (table.cellsBehind start)).2,
      (table.cellsBehind start).map Cell.value), result)
  rounds : table.retainRounds offer state =
    .ok (table.slotCount - 1 + (table.population - result.population),
      (offerAll offer state (table.cellsBehind start)).2, result)
  stepwise : Guarded.retain offer state table =
    pure ((offerAll offer state (table.cellsBehind start)).2, result)
  kept : result.cellsBehind start = (offerAll offer state (table.cellsBehind start)).1
  cells : result.cells.Perm (offerAll offer state (table.cellsBehind start)).1
  free : result.slot start = none
  population : result.population = (offerAll offer state (table.cellsBehind start)).1.length
  shape : SameShape table result
  checked : result.check = .ok ()

/-- A `retain` offers every value of a table once, in the order of the ring behind its lowest free
slot, and makes one more round for each value that it takes out. -/
theorem reachable_keepsAccepted (reachable : Reachable table) (occupied : table.population ≠ 0)
    (offer : σ → α → Option α × σ) (state : σ) :
    ∃ start result, table.LowestFree start ∧ KeepsAccepted offer state table result start := by
  have valid := reachable.valid
  have sound := valid.sound (valid.slotCount_ne_zero occupied)
  obtain ⟨start, result, lowest, walked, resultSound, shape, free, kept⟩ :=
    sound.retainRounds_spec (noting offer) (state, [])
  rw [offerAll_noting] at walked kept
  have all := cellsBehind_perm lowest.bound lowest.free
  have cells := cellsBehind_perm (by rw [shape.slotCount]; exact lowest.bound) free
  rw [kept] at cells
  have offered := all.length_eq
  have left := cells.length_eq
  rw [sound.counted] at offered
  rw [resultSound.counted] at left
  rw [offered, left] at walked
  -- The plain walk is the noting one without its notes.
  have alike (both : σ × List α) (value : α) :
      offer both.1 value = ((noting offer both value).1, (noting offer both value).2.1) := rfl
  have plain := retainRounds_project Prod.fst alike (state, []) table
  rw [walked] at plain
  refine ⟨start, result, lowest, ?_⟩
  constructor
  case all => exact all
  case retain => exact retain_of_rounds occupied plain
  case noted => exact retain_of_rounds occupied walked
  case rounds => exact plain
  case stepwise =>
    exact ((reachable.safe.retain_follows offer state).eq_of_ok
      (retain_of_rounds occupied plain)).1
  case kept => exact kept
  case cells => exact cells.symm
  case free => exact free
  case population => exact left.symm
  case shape => exact shape
  case checked => exact check_iff_valid.mpr (.allocated resultSound)

def adding (raw : UInt64) (value : Nat) : Action Nat :=
  .act 0 (.entry willing raw (fun _ => false)
    { change := id, removes := false, filling := some value })

def overTheEnd : List (Action Nat) :=
  [.new, adding 18 10, adding 19 20, adding 38 30, adding 52 40]

def everySecond (offers value : Nat) : Option Nat × Nat :=
  (if offers % 2 = 0 then none else some (value + 1), offers + 1)

theorem keepsAccepted_overTheEnd :
    ∃ (table result : Table Nat) (start : Nat), runAll overTheEnd [] = .ok [table] ∧
      table.population = 4 ∧ table.LowestFree start ∧
        KeepsAccepted everySecond 0 table result start ∧
          (table.cellsBehind start).map Cell.value = [10, 20, 30, 40] ∧
            result.toList = [41, 21] := by
  obtain ⟨table, made, population, noted⟩ : ∃ table : Table Nat,
      runAll overTheEnd [] = .ok [table] ∧ table.population = 4 ∧
        (table.retain (noting everySecond) (0, [])).map
          (fun answer => (answer.1.2, answer.2.toList)) = .ok ([10, 20, 30, 40], [41, 21]) :=
    ⟨_, rfl, rfl, by decide +kernel⟩
  obtain ⟨start, result, lowest, keeps⟩ := reachable_keepsAccepted
    ⟨overTheEnd, _, made, List.mem_singleton_self _⟩ (by rw [population]; decide) everySecond 0
  rw [keeps.noted] at noted
  obtain ⟨order, rest⟩ := Prod.mk.inj (Except.ok.inj noted)
  exact ⟨table, result, start, made, population, lowest, keeps, order, rest⟩

end RobinHood.Table
