import RobinHood.Proofs.Refinement

/-!
A finite map answers alike in whatever order its pairs stand. If no offer looks at the state, the
answers of a run follow from its calls alone: neither the hash function nor the memory shows.
-/

namespace RobinHood

section Offers

variable {K V σ : Type} {offer : σ → K → V → Option V × σ}

def Stateless (offer : σ → K → V → Option V × σ) : Prop :=
  ∃ verdict : K → V → Option V, ∀ state key value,
    offer state key value = (verdict key value, state)

theorem keepPairs_of_stateless {verdict : K → V → Option V}
    (judged : ∀ state key value, offer state key value = (verdict key value, state)) (state : σ)
    (pairs : List (K × V)) :
    keepPairs offer state pairs =
      (pairs.filterMap fun pair => (verdict pair.1 pair.2).map fun value => (pair.1, value),
        state) := by
  induction pairs with
  | nil => rfl
  | cons pair rest ih =>
      rw [keepPairs, judged]
      cases verdict : verdict pair.1 pair.2 <;> simp [verdict, ih]

end Offers

namespace FiniteMap

variable {K V σ : Type} [BEq K] {first second : FiniteMap K V}

structure Same (first second : FiniteMap K V) : Prop where
  entries : first.entries.Perm second.entries

namespace Same

theorem size_eq (same : Same first second) : first.size = second.size :=
  same.entries.length_eq

theorem changeAt (same : Same first second) (key : K) (change : V → V) :
    Same (first.changeAt key change) (second.changeAt key change) :=
  ⟨same.entries.map _⟩

theorem without (same : Same first second) (key : K) :
    Same (first.without key) (second.without key) :=
  ⟨same.entries.filter _⟩

theorem keep {offer : σ → K → V → Option V × σ} (same : Same first second)
    (stateless : Stateless offer) (state : σ) :
    Same (first.keep offer state).1 (second.keep offer state).1 ∧
      (first.keep offer state).2 = (second.keep offer state).2 := by
  obtain ⟨verdict, judged⟩ := stateless
  refine ⟨⟨?_⟩, ?_⟩
  · simp only [FiniteMap.keep, keepPairs_of_stateless judged]
    exact same.entries.filterMap _
  · simp only [FiniteMap.keep, keepPairs_of_stateless judged]

variable [EquivBEq K]

theorem find?_eq (same : Same first second) (key : K) : first.find? key = second.find? key := by
  cases found : second.find? key with
  | none =>
      rw [find?_eq_none_iff] at found ⊢
      intro pair member
      exact found pair (same.entries.subset member)
  | some pair =>
      rw [find?_eq_some_iff] at found ⊢
      exact ⟨same.entries.symm.subset found.1, found.2⟩

theorem get?_eq (same : Same first second) (key : K) : first.get? key = second.get? key := by
  rw [get?, get?, same.find?_eq]

theorem insertIfNew (same : Same first second) (key : K) (value : V) :
    Same (first.insertIfNew key value) (second.insertIfNew key value) := by
  have keys := same.find?_eq key
  cases found : second.find? key with
  | some pair =>
      rw [insertIfNew_of_present (keys.trans found), insertIfNew_of_present found]
      exact same
  | none =>
      refine ⟨?_⟩
      rw [entries_insertIfNew (keys.trans found), entries_insertIfNew found]
      exact same.entries.cons _

theorem assign (same : Same first second) (key : K) (value : V) :
    Same (first.assign key value) (second.assign key value) := by
  rw [FiniteMap.assign, FiniteMap.assign, same.find?_eq]
  cases second.find? key with
  | some pair => exact same.changeAt key _
  | none => exact same.insertIfNew key value

theorem insertIfNewWith (same : Same first second) (key : K) (make : σ → V × σ) (state : σ) :
    Same (first.insertIfNewWith key make state).1 (second.insertIfNewWith key make state).1 ∧
      (first.insertIfNewWith key make state).2 = (second.insertIfNewWith key make state).2 := by
  rw [FiniteMap.insertIfNewWith, FiniteMap.insertIfNewWith, same.find?_eq]
  cases second.find? key with
  | some pair => exact ⟨same, rfl⟩
  | none => exact ⟨same.insertIfNew key _, rfl⟩

end Same

end FiniteMap

namespace HashMap

open FiniteMap (Same)

variable {K V σ : Type} [BEq K] [EquivBEq K] {first second : FiniteMap K V}

theorem OccupiedUse.runOn_same (use : OccupiedUse V) (key : K) (same : Same first second) :
    (use.runOn key first).1 = (use.runOn key second).1 ∧
      Same (use.runOn key first).2 (use.runOn key second).2 := by
  induction use generalizing first second with
  | leave => exact ⟨rfl, same⟩
  | remove => exact ⟨by simp only [runOn, same.get?_eq], same.without key⟩
  | removeEntry => exact ⟨by simp only [runOn, same.find?_eq], same.without key⟩
  | key rest ih =>
      obtain ⟨answers, after⟩ := ih same
      exact ⟨by simp only [runOn, same.find?_eq, answers], after⟩
  | get rest ih =>
      obtain ⟨answers, after⟩ := ih same
      exact ⟨by simp only [runOn, same.get?_eq, answers], after⟩
  | modify change rest ih => exact ih (same.changeAt key change)
  | replace value rest ih =>
      obtain ⟨answers, after⟩ := ih (same.changeAt key fun _ => value)
      exact ⟨by simp only [runOn, same.get?_eq, answers], after⟩

theorem VacantUse.runOn_same (use : VacantUse V) (key : K) (same : Same first second) :
    (use.runOn key first).1 = (use.runOn key second).1 ∧
      Same (use.runOn key first).2 (use.runOn key second).2 := by
  induction use with
  | leave => exact ⟨rfl, same⟩
  | key rest ih => exact ⟨by simp only [runOn, ih.1], ih.2⟩
  | insert value change => exact ⟨rfl, (same.insertIfNew key value).changeAt key change⟩

/-- Outcomes that differ at most in the order of the pairs. -/
structure SameOutcome (outcome other : List (Answer K V) × σ × FiniteMap K V) : Prop where
  answers : outcome.1 = other.1
  state : outcome.2.1 = other.2.1
  map : Same outcome.2.2 other.2.2

theorem EntryUse.runOn_same [Inhabited V] (use : EntryUse K V σ) (key : K) (state : σ)
    (same : Same first second) :
    SameOutcome (use.runOn key first state) (use.runOn key second state) := by
  induction use generalizing first second with
  | key rest ih =>
      have after := ih same
      refine ⟨?_, after.state, after.map⟩
      simp only [runOn, same.find?_eq, after.answers]
  | modifyIfOccupied change rest ih => exact ih (same.changeAt key change)
  | insertIfVacant value change =>
      have stored := same.insertIfNew key value
      exact ⟨by simp only [runOn, stored.get?_eq], rfl, stored.changeAt key change⟩
  | insertIfVacantWith make change =>
      obtain ⟨stored, made⟩ := same.insertIfNewWith key make state
      exact ⟨by simp only [runOn, stored.get?_eq], made, stored.changeAt key change⟩
  | insertIfVacantWithKey make change =>
      obtain ⟨stored, made⟩ := same.insertIfNewWith key (make key) state
      exact ⟨by simp only [runOn, stored.get?_eq], made, stored.changeAt key change⟩
  | insertDefaultIfVacant change =>
      have stored := same.insertIfNew key default
      exact ⟨by simp only [runOn, stored.get?_eq], rfl, stored.changeAt key change⟩
  | split occupied vacant =>
      rw [runOn, runOn, same.find?_eq]
      cases second.find? key with
      | some pair =>
          obtain ⟨answers, after⟩ := occupied.runOn_same key same
          exact ⟨answers, rfl, after⟩
      | none =>
          obtain ⟨answers, after⟩ := vacant.runOn_same key same
          exact ⟨answers, rfl, after⟩

/-- Only a retain whose offers look at the state can tell the order of the pairs. -/
def Command.Orderless : Command K V σ → Prop
  | .retain offer => Stateless offer
  | _ => True

theorem Command.runOn_same [Inhabited V] {command : Command K V σ} (orderless : command.Orderless)
    (state : σ) (same : Same first second) :
    SameOutcome (command.runOn first state) (command.runOn second state) := by
  cases command with
  | insert key value => exact ⟨by simp only [runOn, same.get?_eq], rfl, same.assign key value⟩
  | insertIfNew key value change =>
      have stored := same.insertIfNew key value
      exact ⟨by simp only [runOn, stored.get?_eq, same.find?_eq], rfl, stored.changeAt key change⟩
  | insertIfNewWith key make change =>
      obtain ⟨stored, made⟩ := same.insertIfNewWith key make state
      exact ⟨by simp only [runOn, stored.get?_eq, same.find?_eq], made, stored.changeAt key change⟩
  | assign key value change =>
      have stored := same.assign key value
      exact ⟨by simp only [runOn, stored.get?_eq, same.find?_eq], rfl, stored.changeAt key change⟩
  | getOrInsertDefault key change =>
      have stored := same.insertIfNew key default
      exact ⟨by simp only [runOn, stored.get?_eq], rfl, stored.changeAt key change⟩
  | get key => exact ⟨by simp only [runOn, same.get?_eq], rfl, same⟩
  | getEntry key => exact ⟨by simp only [runOn, same.find?_eq], rfl, same⟩
  | modify key change => exact ⟨by simp only [runOn, same.get?_eq], rfl, same.changeAt key change⟩
  | lookup key => exact ⟨by simp only [runOn, FiniteMap.lookup, same.get?_eq], rfl, same⟩
  | lookupModify key change =>
      exact ⟨by simp only [runOn, FiniteMap.lookup, same.get?_eq], rfl, same.changeAt key change⟩
  | contains key => exact ⟨by simp only [runOn, same.find?_eq], rfl, same⟩
  | remove key => exact ⟨by simp only [runOn, same.get?_eq], rfl, same.without key⟩
  | removeEntry key => exact ⟨by simp only [runOn, same.find?_eq], rfl, same.without key⟩
  | erase key => exact ⟨by simp only [runOn, same.find?_eq], rfl, same.without key⟩
  | entry key use => exact use.runOn_same key state same
  | retain offer =>
      obtain ⟨kept, last⟩ := same.keep orderless state
      exact ⟨rfl, last, kept⟩
  | clear => exact ⟨rfl, rfl, ⟨List.Perm.refl _⟩⟩
  | reserve additional => exact ⟨rfl, rfl, same⟩
  | size => exact ⟨by simp only [runOn, same.size_eq], rfl, same⟩

theorem Step.reordered [Inhabited V] {state : σ} {command : Command K V σ}
    {outcome : List (Answer K V) × σ × FiniteMap K V} (step : Step first state command outcome) :
    ∃ ordered, Same ordered first ∧ outcome = command.runOn ordered state := by
  cases step with
  | direct => exact ⟨first, ⟨List.Perm.refl _⟩, rfl⟩
  | retain offer order perm => exact ⟨first.reorder order perm, ⟨perm⟩, rfl⟩

theorem Step.unique [Inhabited V] {state : σ} {command : Command K V σ}
    {outcome other : List (Answer K V) × σ × FiniteMap K V} (orderless : command.Orderless)
    (same : Same first second) (step : Step first state command outcome)
    (otherStep : Step second state command other) : SameOutcome outcome other := by
  obtain ⟨ordered, reordered, rfl⟩ := step.reordered
  obtain ⟨otherOrdered, otherReordered, rfl⟩ := otherStep.reordered
  exact Command.runOn_same orderless state
    ⟨reordered.entries.trans (same.entries.trans otherReordered.entries.symm)⟩

theorem Runs.unique [Inhabited V] {state final otherFinal : σ} {commands : List (Command K V σ)}
    {answers otherAnswers : List (List (Answer K V))} {last otherLast : FiniteMap K V}
    (orderless : ∀ command ∈ commands, command.Orderless) (same : Same first second)
    (runs : Runs first state commands answers final last)
    (otherRuns : Runs second state commands otherAnswers otherFinal otherLast) :
    answers = otherAnswers ∧ final = otherFinal ∧ Same last otherLast := by
  induction runs generalizing second otherAnswers with
  | nil =>
      cases otherRuns
      exact ⟨rfl, rfl, same⟩
  | cons step runs ih =>
      cases otherRuns with
      | cons otherStep otherRuns =>
          obtain ⟨here, middle, between⟩ :=
            step.unique (orderless _ List.mem_cons_self) same otherStep
          simp only at here middle between
          subst here middle
          obtain ⟨rest, state, after⟩ :=
            ih (fun command member => orderless command (List.mem_cons_of_mem _ member)) between
              otherRuns
          exact ⟨by rw [rest], state, after⟩

theorem Represents.runAll_unique [Inhabited V] {memory otherMemory : Memory}
    {commands : List (Command K V σ)} {state final otherFinal : σ}
    {answers otherAnswers : List (List (Answer K V))} {map other last otherLast : HashMap K V}
    (orderless : ∀ command ∈ commands, command.Orderless) (represents : map.Represents first)
    (otherRepresents : other.Represents second) (same : Same first second)
    (ran : runAll memory map state commands = .ok (answers, final, last))
    (otherRan : runAll otherMemory other state commands =
      .ok (otherAnswers, otherFinal, otherLast)) :
    answers = otherAnswers ∧ final = otherFinal ∧ last.toList.Perm otherLast.toList := by
  obtain ⟨finite, runs, after⟩ :=
    (runAll_allows commands represents memory state (Nat.le_refl _)).of_ok ran
  obtain ⟨otherFinite, otherRuns, otherAfter⟩ :=
    (runAll_allows commands otherRepresents otherMemory state (Nat.le_refl _)).of_ok otherRan
  obtain ⟨answered, states, finites⟩ := runs.unique orderless same otherRuns
  exact ⟨answered, states,
    after.entries.trans (finites.entries.trans otherAfter.entries.symm)⟩

/-- The hash function and the memory do not show in the answers of a run. -/
theorem runAll_hasher_irrelevant [Inhabited V] {hash otherHash : K → UInt64}
    (respects : ∀ {first second : K}, (first == second) = true → hash first = hash second)
    (otherRespects : ∀ {first second : K},
      (first == second) = true → otherHash first = otherHash second)
    {memory otherMemory : Memory} {commands : List (Command K V σ)} {state final otherFinal : σ}
    {answers otherAnswers : List (List (Answer K V))} {map otherMap : HashMap K V}
    (orderless : ∀ command ∈ commands, command.Orderless)
    (ran : runAll memory (withHasher hash) state commands = .ok (answers, final, map))
    (otherRan : runAll otherMemory (withHasher otherHash) state commands =
      .ok (otherAnswers, otherFinal, otherMap)) :
    answers = otherAnswers ∧ final = otherFinal ∧
      (map.table.cells.map Cell.value).Perm (otherMap.table.cells.map Cell.value) :=
  (withHasher_represents respects).runAll_unique orderless (withHasher_represents otherRespects)
    ⟨List.Perm.refl _⟩ ran otherRan

end HashMap

end RobinHood
