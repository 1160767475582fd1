import RobinHood.Proofs.Commands

/-!
A hash map gives the answers of a finite map on every run of calls, whatever its hash function,
until a request for memory is refused.
-/

namespace RobinHood.HashMap

variable {K V σ : Type} [BEq K] {map : HashMap K V} {finite : FiniteMap K V} {key : K}

theorem OccupiedUse.size_runOn_le (use : OccupiedUse V) (key : K) (finite : FiniteMap K V) :
    (use.runOn key finite).2.size ≤ finite.size := by
  induction use generalizing finite with
  | leave => exact Nat.le_refl _
  | remove => exact finite.size_without_le key
  | removeEntry => exact finite.size_without_le key
  | key rest ih => exact ih finite
  | get rest ih => exact ih finite
  | modify change rest ih => exact (ih _).trans_eq (finite.size_changeAt key change)
  | replace value rest ih => exact (ih _).trans_eq (finite.size_changeAt key _)

variable [EquivBEq K]

theorem VacantUse.size_runOn_le (use : VacantUse V) (key : K) (finite : FiniteMap K V) :
    (use.runOn key finite).2.size ≤ finite.size + 1 := by
  induction use with
  | leave => exact Nat.le_succ _
  | key rest ih => exact ih
  | insert value change =>
      rw [VacantUse.runOn, FiniteMap.size_changeAt]
      exact finite.size_insertIfNew_le key value

theorem EntryUse.size_runOn_le [Inhabited V] (use : EntryUse K V σ) (key : K) (state : σ)
    (finite : FiniteMap K V) : (use.runOn key finite state).2.2.size ≤ finite.size + 1 := by
  induction use generalizing finite with
  | key rest ih => exact ih finite
  | modifyIfOccupied change rest ih =>
      have bound := ih (finite.changeAt key change)
      rwa [FiniteMap.size_changeAt] at bound
  | insertIfVacant value change =>
      simp only [EntryUse.runOn, FiniteMap.size_changeAt]
      exact finite.size_insertIfNew_le key value
  | insertIfVacantWith make change =>
      simp only [EntryUse.runOn, FiniteMap.size_changeAt]
      exact finite.size_insertIfNewWith_le key make state
  | insertIfVacantWithKey make change =>
      simp only [EntryUse.runOn, FiniteMap.size_changeAt]
      exact finite.size_insertIfNewWith_le key (make key) state
  | insertDefaultIfVacant change =>
      simp only [EntryUse.runOn, FiniteMap.size_changeAt]
      exact finite.size_insertIfNew_le key default
  | split occupied vacant =>
      simp only [EntryUse.runOn]
      cases finite.find? key with
      | some pair => exact Nat.le_succ_of_le (occupied.size_runOn_le key finite)
      | none => exact vacant.size_runOn_le key finite

theorem Command.size_runOn_le [Inhabited V] (command : Command K V σ) (state : σ)
    (finite : FiniteMap K V) : (command.runOn finite state).2.2.size ≤ finite.size + 1 := by
  cases command with
  | insert key value => exact finite.size_assign_le key value
  | insertIfNew key value change =>
      simp only [Command.runOn, FiniteMap.size_changeAt]
      exact finite.size_insertIfNew_le key value
  | insertIfNewWith key make change =>
      simp only [Command.runOn, FiniteMap.size_changeAt]
      exact finite.size_insertIfNewWith_le key make state
  | assign key value change =>
      simp only [Command.runOn, FiniteMap.size_changeAt]
      exact finite.size_assign_le key value
  | getOrInsertDefault key change =>
      simp only [Command.runOn, FiniteMap.size_changeAt]
      exact finite.size_insertIfNew_le key default
  | modify key change =>
      simp only [Command.runOn, FiniteMap.size_changeAt]
      exact Nat.le_succ _
  | lookupModify key change =>
      simp only [Command.runOn, FiniteMap.size_changeAt]
      exact Nat.le_succ _
  | remove key => exact Nat.le_succ_of_le (finite.size_without_le key)
  | removeEntry key => exact Nat.le_succ_of_le (finite.size_without_le key)
  | erase key => exact Nat.le_succ_of_le (finite.size_without_le key)
  | entry key use => exact use.size_runOn_le key state finite
  | retain offer => exact Nat.le_succ_of_le (finite.size_keep_le offer state)
  | clear => exact Nat.zero_le _
  | get | getEntry | lookup | contains | reserve | size => exact Nat.le_succ _

theorem Step.size_le [Inhabited V] {state : σ} {command : Command K V σ}
    {outcome : List (Answer K V) × σ × FiniteMap K V}
    (step : Step finite state command outcome) : outcome.2.2.size ≤ finite.size + 1 := by
  cases step with
  | direct => exact command.size_runOn_le state finite
  | retain offer order same =>
      have bound := (Command.retain offer).size_runOn_le state (finite.reorder order same)
      have size : (finite.reorder order same).size = finite.size := same.length_eq
      rwa [size] at bound

theorem Occupied.Shows.lend_spec {place : Occupied K V} {pair : K × V}
    (shown : place.Shows finite key pair) (change : V → V) :
    ∃ map, place.lend change = .ok (pair.2, map) ∧
      map.Represents (finite.changeAt key change) := by
  obtain ⟨changed, done, changedShown⟩ := shown.modify_spec change
  refine ⟨changed.toMap, ?_, changedShown.represents⟩
  exact bind_of_ok shown.get_eq (bind_of_ok done rfl)

theorem OccupiedUse.run_spec (use : OccupiedUse V) {place : Occupied K V} {pair : K × V}
    (shown : place.Shows finite key pair) :
    ∃ map, use.run place = .ok ((use.runOn key finite).1, map) ∧
      map.Represents (use.runOn key finite).2 := by
  induction use generalizing place finite pair with
  | leave => exact ⟨place.toMap, rfl, shown.represents⟩
  | remove =>
      obtain ⟨map, taken, represents⟩ := shown.removeEntry_spec
      refine ⟨map, ?_, represents⟩
      simp only [OccupiedUse.run, OccupiedUse.runOn, Occupied.remove, taken, FiniteMap.get?,
        shown.find?_eq]
      rfl
  | removeEntry =>
      obtain ⟨map, taken, represents⟩ := shown.removeEntry_spec
      refine ⟨map, ?_, represents⟩
      simp only [OccupiedUse.run, OccupiedUse.runOn, taken, shown.find?_eq]
      rfl
  | key rest ih =>
      obtain ⟨map, ran, represents⟩ := ih shown
      refine ⟨map, ?_, represents⟩
      simp only [OccupiedUse.run, OccupiedUse.runOn, shown.key_eq, ran, shown.find?_eq]
      rfl
  | get rest ih =>
      obtain ⟨map, ran, represents⟩ := ih shown
      refine ⟨map, ?_, represents⟩
      simp only [OccupiedUse.run, OccupiedUse.runOn, shown.get_eq, ran, FiniteMap.get?,
        shown.find?_eq]
      rfl
  | modify change rest ih =>
      obtain ⟨changed, done, changedShown⟩ := shown.modify_spec change
      obtain ⟨map, ran, represents⟩ := ih changedShown
      refine ⟨map, ?_, represents⟩
      simp only [OccupiedUse.run, OccupiedUse.runOn, done]
      exact ran
  | replace value rest ih =>
      obtain ⟨changed, done, changedShown⟩ := shown.replace_spec value
      obtain ⟨map, ran, represents⟩ := ih changedShown
      refine ⟨map, ?_, represents⟩
      simp only [OccupiedUse.runOn, FiniteMap.get?, shown.find?_eq]
      exact bind_of_ok done (bind_of_ok ran rfl)

theorem VacantUse.run_spec (use : VacantUse V) {place : Vacant K V}
    (awaits : place.Awaits finite) :
    ∃ map, use.run place = .ok ((use.runOn place.key finite).1, map) ∧
      map.Represents (use.runOn place.key finite).2 := by
  induction use with
  | leave => exact ⟨_, rfl, awaits.represents⟩
  | key rest ih =>
      obtain ⟨map, ran, represents⟩ := ih
      refine ⟨map, ?_, represents⟩
      simp only [VacantUse.run, VacantUse.runOn, ran]
      rfl
  | insert value change =>
      obtain ⟨placed, done, placedShown⟩ := awaits.insert_spec value
      obtain ⟨map, lent, represents⟩ := placedShown.lend_spec change
      refine ⟨map, ?_, represents⟩
      exact bind_of_ok done (bind_of_ok lent rfl)

theorem EntryUse.run_spec [Inhabited V] (use : EntryUse K V σ) (state : σ) {entry : Entry K V}
    (shown : entry.Shows finite key) :
    ∃ map, use.run entry state =
        .ok ((use.runOn key finite state).1, (use.runOn key finite state).2.1, map) ∧
      map.Represents (use.runOn key finite state).2.2 := by
  induction use generalizing entry finite with
  | key rest ih =>
      obtain ⟨map, ran, represents⟩ := ih shown
      refine ⟨map, ?_, represents⟩
      simp only [EntryUse.run, EntryUse.runOn, shown.key_eq, ran]
      rfl
  | modifyIfOccupied change rest ih =>
      obtain ⟨changed, done, changedShown⟩ := shown.modifyIfOccupied_spec change
      obtain ⟨map, ran, represents⟩ := ih changedShown
      refine ⟨map, ?_, represents⟩
      simp only [EntryUse.run, EntryUse.runOn, done]
      exact ran
  | insertIfVacant value change =>
      obtain ⟨place, pair, done, placeShown⟩ := shown.insertIfVacant_spec value
      obtain ⟨map, lent, represents⟩ := placeShown.lend_spec change
      refine ⟨map, ?_, represents⟩
      simp only [EntryUse.runOn, placeShown.get?_eq]
      exact bind_of_ok done (bind_of_ok lent rfl)
  | insertIfVacantWith make change =>
      obtain ⟨place, pair, done, placeShown⟩ :=
        shown.insertIfVacantWithKey_spec (fun _ => make) state
      obtain ⟨map, lent, represents⟩ := placeShown.lend_spec change
      refine ⟨map, ?_, represents⟩
      simp only [EntryUse.runOn, placeShown.get?_eq]
      exact bind_of_ok done (bind_of_ok lent rfl)
  | insertIfVacantWithKey make change =>
      obtain ⟨place, pair, done, placeShown⟩ := shown.insertIfVacantWithKey_spec make state
      obtain ⟨map, lent, represents⟩ := placeShown.lend_spec change
      refine ⟨map, ?_, represents⟩
      simp only [EntryUse.runOn, placeShown.get?_eq]
      exact bind_of_ok done (bind_of_ok lent rfl)
  | insertDefaultIfVacant change =>
      obtain ⟨place, pair, done, placeShown⟩ := shown.insertIfVacant_spec default
      obtain ⟨map, lent, represents⟩ := placeShown.lend_spec change
      refine ⟨map, ?_, represents⟩
      simp only [EntryUse.runOn, placeShown.get?_eq]
      exact bind_of_ok done (bind_of_ok lent rfl)
  | split occupied vacant =>
      cases shown with
      | occupied shown =>
          obtain ⟨map, ran, represents⟩ := occupied.run_spec shown
          simp only [EntryUse.run, EntryUse.runOn, ran, shown.find?_eq]
          exact ⟨map, rfl, represents⟩
      | vacant asked awaits =>
          subst asked
          obtain ⟨map, ran, represents⟩ := vacant.run_spec awaits
          simp only [EntryUse.run, EntryUse.runOn, ran, awaits.find?_eq]
          exact ⟨map, rfl, represents⟩

/-- An outcome on a hash map that a finite map has too. -/
def Simulates [Inhabited V] (finite : FiniteMap K V) (state : σ) (command : Command K V σ)
    (outcome : List (Answer K V) × σ × HashMap K V) : Prop :=
  ∃ last, Step finite state command (outcome.1, outcome.2.1, last) ∧ outcome.2.2.Represents last

theorem simulates_direct [Inhabited V] {memory : Memory} {demand : Nat} {state : σ}
    {command : Command K V σ} {outcome : Except TableError (List (Answer K V) × σ × HashMap K V)}
    {result : HashMap K V}
    (ran : outcome =
      .ok ((command.runOn finite state).1, (command.runOn finite state).2.1, result))
    (after : result.Represents (command.runOn finite state).2.2) :
    memory.Allows demand outcome (Simulates finite state command) :=
  Or.inl ⟨_, ran, _, .direct command, after⟩

theorem Command.run_allows [Inhabited V] (command : Command K V σ)
    (represents : map.Represents finite) (memory : Memory) (state : σ) :
    memory.Allows (finite.size + command.demand) (command.run memory map state)
      (Simulates finite state command) := by
  cases command with
  | insert key value =>
      refine (represents.insert_allows memory key value).bind ?_
      rintro ⟨_, result⟩ ⟨rfl, after⟩
      exact simulates_direct rfl after
  | insertIfNew key value change =>
      refine (represents.insertIfNew_allows memory key value).bind ?_
      rintro ⟨place, _⟩ ⟨⟨pair, shown⟩, rfl⟩
      obtain ⟨result, lent, after⟩ := shown.lend_spec change
      refine simulates_direct ?_ after
      simp only [lent, Command.runOn, shown.get?_eq]
      rfl
  | insertIfNewWith key make change =>
      refine (represents.insertIfNewWith_allows memory key make state).bind ?_
      rintro ⟨place, _, _⟩ ⟨⟨pair, shown⟩, rfl, rfl⟩
      obtain ⟨result, lent, after⟩ := shown.lend_spec change
      refine simulates_direct ?_ after
      simp only [lent, Command.runOn, shown.get?_eq]
      rfl
  | assign key value change =>
      refine (represents.assign_allows memory key value).bind ?_
      rintro ⟨place, _⟩ ⟨⟨pair, shown⟩, rfl⟩
      obtain ⟨result, lent, after⟩ := shown.lend_spec change
      refine simulates_direct ?_ after
      simp only [lent, Command.runOn, shown.get?_eq]
      rfl
  | getOrInsertDefault key change =>
      refine (represents.getOrInsertDefault_allows memory key).bind ?_
      rintro place ⟨pair, shown⟩
      obtain ⟨result, lent, after⟩ := shown.lend_spec change
      refine simulates_direct ?_ after
      simp only [lent, Command.runOn, shown.get?_eq]
      rfl
  | get key =>
      refine simulates_direct ?_ represents
      simp only [Command.run, represents.get?_eq]
      rfl
  | getEntry key =>
      refine simulates_direct ?_ represents
      simp only [Command.run, represents.getEntry?_eq]
      rfl
  | modify key change =>
      obtain ⟨result, done, after⟩ := represents.modify_spec key change
      refine simulates_direct ?_ after
      simp only [Command.run, done]
      rfl
  | lookup key =>
      refine simulates_direct ?_ represents
      simp only [Command.run, represents.lookup_eq, Command.runOn, FiniteMap.lookup]
      cases finite.get? key <;> rfl
  | lookupModify key change =>
      rcases represents.lookupModify_cases key change with
        ⟨value, result, found, done, after⟩ | ⟨missing, failed, after⟩
      · refine simulates_direct ?_ after
        simp only [Command.run, done, Command.runOn, found]
        rfl
      · refine simulates_direct ?_ after
        simp only [Command.run, failed, Command.runOn, missing]
        rfl
  | contains key =>
      refine simulates_direct ?_ represents
      simp only [Command.run, represents.contains_eq]
      rfl
  | remove key =>
      obtain ⟨result, taken, after⟩ := represents.remove_spec key
      refine simulates_direct ?_ after
      simp only [Command.run, taken]
      rfl
  | removeEntry key =>
      obtain ⟨result, taken, after⟩ := represents.removeEntry_spec key
      refine simulates_direct ?_ after
      simp only [Command.run, taken]
      rfl
  | erase key =>
      obtain ⟨result, taken, after⟩ := represents.erase_spec key
      refine simulates_direct ?_ after
      simp only [Command.run, taken]
      rfl
  | entry key use =>
      refine (represents.entry_allows memory key).bind ?_
      intro entry shown
      obtain ⟨result, used, after⟩ := use.run_spec state shown
      exact simulates_direct used after
  | retain offer =>
      obtain ⟨order, same, result, kept, after⟩ := represents.retain_spec offer state
      refine Or.inl ⟨([], ((finite.reorder order same).keep offer state).2, result), ?_, _,
        .retain offer order same, after⟩
      simp only [Command.run, kept]
      rfl
  | clear => exact simulates_direct rfl represents.clear
  | reserve additional =>
      refine (represents.reserve_allows memory additional).bind ?_
      intro result after
      exact simulates_direct rfl after
  | size =>
      refine simulates_direct ?_ represents
      simp only [Command.run, represents.size_eq]
      rfl

theorem runAll_allows [Inhabited V] (commands : List (Command K V σ))
    (represents : map.Represents finite) (memory : Memory) (state : σ) {total : Nat}
    (enough : finite.size + demand commands ≤ total) :
    memory.Allows total (runAll memory map state commands) fun outcome =>
      ∃ last, Runs finite state commands outcome.1 outcome.2.1 last ∧
        outcome.2.2.Represents last := by
  induction commands generalizing map finite state with
  | nil => exact Or.inl ⟨_, rfl, finite, .nil finite state, represents⟩
  | cons command rest ih =>
      rw [demand] at enough
      have first := (command.run_allows represents memory state).imp
        (show _ ≤ total by omega) fun _ done => done
      refine first.bind ?_
      rintro ⟨answers, later, result⟩ ⟨next, step, after⟩
      have grown := step.size_le
      refine (ih after later (by simp only at grown; omega)).bind ?_
      rintro ⟨others, final, result⟩ ⟨last, runs, reached⟩
      exact Or.inl ⟨_, rfl, last, .cons step runs, reached⟩

/-- Every run from an empty map answers as a finite map does, or is refused memory. -/
theorem runAll_refines [Inhabited V] {hash : K → UInt64}
    (respects : ∀ {first second : K}, (first == second) = true → hash first = hash second)
    (memory : Memory) (commands : List (Command K V σ)) (state : σ) :
    (∃ answers final map last,
        runAll memory (withHasher hash) state commands = .ok (answers, final, map) ∧
          Runs FiniteMap.empty state commands answers final last ∧ map.Represents last) ∨
      ∃ error, runAll memory (withHasher hash) state commands = .error error ∧
        memory.Refusal error ∧ ¬ memory.Provides (demand commands) := by
  rcases runAll_allows commands (withHasher_represents respects) memory state (Nat.le_refl _) with
    ⟨⟨answers, final, map⟩, done, last, runs, represents⟩ | ⟨error, failed, refusal, missing⟩
  · exact Or.inl ⟨answers, final, map, last, done, runs, represents⟩
  · refine Or.inr ⟨error, failed, refusal, ?_⟩
    simpa [FiniteMap.size, FiniteMap.empty] using missing

def collidingCalls : List (Command Nat Nat Unit) :=
  [.insert 1 10, .insertIfNew 1 20 id, .assign 2 30 (· + 1), .lookup 2, .erase 1, .lookup 1, .size]

theorem runAll_collidingCalls :
    ∃ answers final map last,
      runAll { slotBytes := 24, grants := fun _ => true } (withHasher fun _ => 0) ()
          collidingCalls = .ok (answers, final, map) ∧
        Runs FiniteMap.empty () collidingCalls answers final last ∧ map.Represents last := by
  have respects {first second : Nat} (_ : (first == second) = true) :
      (fun _ : Nat => (0 : UInt64)) first = (fun _ => 0) second := rfl
  rcases runAll_refines respects { slotBytes := 24, grants := fun _ => true } collidingCalls () with
    done | ⟨_, _, _, missing⟩
  · exact done
  · refine absurd ?_ missing
    intro slots bound
    have most : demand collidingCalls = 7 := rfl
    exact ⟨by omega, by simp only; omega, rfl⟩

end RobinHood.HashMap
