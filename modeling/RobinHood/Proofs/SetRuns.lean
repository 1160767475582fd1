import RobinHood.Proofs.Checking
import RobinHood.Proofs.Members
import RobinHood.Proofs.Walking

/-!
Whole runs of calls on a hash set, and the same runs on a finite set. The calls that take a closure
thread one state through the run.
-/

namespace RobinHood.HashSet

inductive Command (T σ : Type) where
  | insert (value : T)
  | replace (value : T)
  | get (value : T)
  | contains (value : T)
  | take (value : T)
  | remove (value : T)
  | erase (value : T)
  | retain (keep : σ → T → Bool × σ)
  | clear
  | reserve (additional : Nat)
  | extend (announced : Nat) (values : List T)
  | size
  | members (side : Table.Side)

inductive Answer (T : Type) where
  | done
  | flag (holds : Bool)
  | member (member : Option T)
  | members (members : List T)
  | count (number : Nat)

variable {T σ : Type}

def Command.demand : Command T σ → Nat
  | .insert _ => 1
  | .replace _ => 1
  | .reserve additional => additional
  | .extend announced values => announced + values.length
  | _ => 0

def demand : List (Command T σ) → Nat
  | [] => 0
  | command :: rest => command.demand + demand rest

theorem demand_le_of_isPrefix {front commands : List (Command T σ)} (first : front <+: commands) :
    demand front ≤ demand commands := by
  obtain ⟨back, rfl⟩ := first
  induction front with
  | nil => exact Nat.zero_le _
  | cons command rest ih =>
      rw [List.cons_append, demand, demand]
      exact Nat.add_le_add_left ih _

variable [BEq T]

def Command.run (memory : Memory) (set : HashSet T) (state : σ) :
    Command T σ → Except TableError (Answer T × σ × HashSet T)
  | insert value => do
      let (isNew, set) ← set.insert memory value
      return (.flag isNew, state, set)
  | replace value => do
      let (old, set) ← set.replace memory value
      return (.member old, state, set)
  | get value => return (.member (← set.get? value), state, set)
  | contains value => return (.flag (← set.contains value), state, set)
  | take value => do
      let (member, set) ← set.take value
      return (.member member, state, set)
  | remove value => do
      let (removed, set) ← set.remove value
      return (.flag removed, state, set)
  | erase value => do
      let (number, set) ← set.erase value
      return (.count number, state, set)
  | retain keep => do
      let (state, set) ← set.retain keep state
      return (.done, state, set)
  | clear => return (.done, state, set.clear)
  | reserve additional => return (.done, state, ← set.reserve memory additional)
  | extend announced values => return (.done, state, ← set.extend memory announced values)
  | size => return (.count set.size, state, set)
  | members side => return (.members (set.table.walk.rest side).1, state, set)

def runAll (memory : Memory) (set : HashSet T) (state : σ) :
    List (Command T σ) → Except TableError (List (Answer T) × σ × HashSet T)
  | [] => return ([], state, set)
  | command :: rest => do
      let (answer, state, set) ← command.run memory set state
      let (others, last) ← runAll memory set state rest
      return (answer :: others, last)

/-! The same on a finite set, where nothing can fail. -/

variable [EquivBEq T] {set : HashSet T} {finite : FiniteSet T}

def Command.runOn (set : FiniteSet T) (state : σ) : Command T σ → Answer T × σ × FiniteSet T
  | .insert value => (.flag (set.member? value).isNone, state, set.add value)
  | .replace value => (.member (set.member? value), state, set.exchange value)
  | .get value => (.member (set.member? value), state, set)
  | .contains value => (.flag (set.member? value).isSome, state, set)
  | .take value => (.member (set.member? value), state, set.without value)
  | .remove value => (.flag (set.member? value).isSome, state, set.without value)
  | .erase value =>
      (.count (if (set.member? value).isSome then 1 else 0), state, set.without value)
  | .retain keep =>
      let (kept, state) := set.keepMembers keep state
      (.done, state, kept)
  | .clear => (.done, state, FiniteMap.empty)
  | .reserve _ => (.done, state, set)
  | .extend _ values => (.done, state, set.addAll values)
  | .size => (.count set.size, state, set)
  | .members _ => (.members set.members, state, set)

/-- What a command does on a finite set. The order in which members are offered or listed is not
determined. -/
inductive Step (set : FiniteSet T) (state : σ) :
    Command T σ → Answer T × σ × FiniteSet T → Prop
  | direct (command : Command T σ) : Step set state command (command.runOn set state)
  | retain (keep : σ → T → Bool × σ) (order : List T) (same : order.Perm set.members) :
      Step set state (.retain keep)
        ((Command.retain keep).runOn (set.inOrder order same) state)
  | members (side : Table.Side) (order : List T) (same : order.Perm set.members) :
      Step set state (.members side) (.members order, state, set)

inductive Runs : FiniteSet T → σ → List (Command T σ) → List (Answer T) → σ → FiniteSet T → Prop
  | nil (set : FiniteSet T) (state : σ) : Runs set state [] [] state set
  | cons {set next last : FiniteSet T} {state later final : σ} {command : Command T σ}
      {rest : List (Command T σ)} {answer : Answer T} {others : List (Answer T)}
      (step : Step set state command (answer, later, next))
      (runs : Runs next later rest others final last) :
      Runs set state (command :: rest) (answer :: others) final last

theorem Command.size_runOn_le (command : Command T σ) (state : σ) (finite : FiniteSet T) :
    (command.runOn finite state).2.2.size ≤ finite.size + command.demand := by
  cases command with
  | insert value => exact finite.size_add_le value
  | replace value => exact finite.size_exchange_le value
  | take value => exact finite.size_without_le value
  | remove value => exact finite.size_without_le value
  | erase value => exact finite.size_without_le value
  | retain keep => exact finite.size_keep_le (FiniteSet.offerMember keep) state
  | clear => exact Nat.zero_le _
  | extend announced values =>
      have bound := finite.size_addAll_le values
      simp only [Command.runOn, Command.demand]
      omega
  | get | contains | reserve | size | members => exact Nat.le_add_right _ _

theorem Step.size_le {state : σ} {command : Command T σ} {outcome : Answer T × σ × FiniteSet T}
    (step : Step finite state command outcome) :
    outcome.2.2.size ≤ finite.size + command.demand := by
  cases step with
  | direct => exact command.size_runOn_le state finite
  | retain keep order same =>
      have bound := (Command.retain keep).size_runOn_le state (finite.inOrder order same)
      have size : (finite.inOrder order same).size = finite.size := by
        rw [← FiniteSet.length_members, FiniteSet.members_inOrder, same.length_eq,
          FiniteSet.length_members]
      rwa [size] at bound
  | members => exact Nat.le_refl _

def Simulates (finite : FiniteSet T) (state : σ) (command : Command T σ)
    (outcome : Answer T × σ × HashSet T) : Prop :=
  ∃ last, Step finite state command (outcome.1, outcome.2.1, last) ∧ outcome.2.2.Represents last

theorem simulates_direct {memory : Memory} {demand : Nat} {state : σ} {command : Command T σ}
    {outcome : Except TableError (Answer T × σ × HashSet T)} {result : HashSet T}
    (ran : outcome =
      .ok ((command.runOn finite state).1, (command.runOn finite state).2.1, result))
    (after : result.Represents (command.runOn finite state).2.2) :
    memory.Allows demand outcome (Simulates finite state command) :=
  Or.inl ⟨_, ran, _, .direct command, after⟩

theorem Command.run_allows (command : Command T σ) (represents : set.Represents finite)
    (memory : Memory) (state : σ) :
    memory.Allows (finite.size + command.demand) (command.run memory set state)
      (Simulates finite state command) := by
  cases command with
  | insert value =>
      refine ((represents.insert_allows memory value).imp (Nat.le_add_right _ _)
        fun _ done => done).bind ?_
      rintro ⟨_, result⟩ ⟨rfl, after⟩
      exact simulates_direct rfl after
  | replace value =>
      refine ((represents.replace_allows memory value).imp (Nat.le_add_right _ _)
        fun _ done => done).bind ?_
      rintro ⟨_, result⟩ ⟨rfl, after⟩
      exact simulates_direct rfl after
  | get value =>
      refine simulates_direct ?_ represents
      simp only [Command.run, represents.get?_eq]
      rfl
  | contains value =>
      refine simulates_direct ?_ represents
      simp only [Command.run, represents.contains_eq]
      rfl
  | take value =>
      obtain ⟨result, taken, after⟩ := represents.take_spec value
      refine simulates_direct ?_ after
      simp only [Command.run, taken]
      rfl
  | remove value =>
      obtain ⟨result, taken, after⟩ := represents.remove_spec value
      refine simulates_direct ?_ after
      simp only [Command.run, taken]
      rfl
  | erase value =>
      obtain ⟨result, taken, after⟩ := represents.erase_spec value
      refine simulates_direct ?_ after
      simp only [Command.run, taken]
      rfl
  | retain keep =>
      obtain ⟨order, same, result, kept, after⟩ := represents.retain_spec keep state
      refine Or.inl ⟨(.done, ((finite.inOrder order same).keepMembers keep state).2, result), ?_,
        _, .retain keep order same, after⟩
      simp only [Command.run, kept]
      rfl
  | clear => exact simulates_direct rfl represents.clear
  | reserve additional =>
      refine (represents.reserve_allows memory additional).bind ?_
      intro result after
      exact simulates_direct rfl after
  | extend announced values =>
      refine (represents.extend_allows memory announced values).bind ?_
      intro result after
      exact simulates_direct rfl after
  | size =>
      refine simulates_direct ?_ represents
      simp only [Command.run, represents.size_eq]
      rfl
  | members side =>
      have walked := represents.valid.walk_rest side
      have same : (side.order set.table.toList).Perm finite.members :=
        (side.order_perm _).trans represents.members
      refine Or.inl ⟨(.members (side.order set.table.toList), state, set), ?_, finite,
        .members side _ same, represents⟩
      simp only [Command.run, walked]
      rfl

theorem runAll_allows (commands : List (Command T σ)) (represents : set.Represents finite)
    (memory : Memory) (state : σ) {total : Nat}
    (enough : finite.size + demand commands ≤ total) :
    memory.Allows total (runAll memory set state commands) fun outcome =>
      ∃ last, Runs finite state commands outcome.1 outcome.2.1 last ∧
        outcome.2.2.Represents last := by
  -- The size and the demand that is left stay below the total, so each refusal is accounted for.
  induction commands generalizing set finite state with
  | nil => exact Or.inl ⟨_, rfl, finite, .nil finite state, represents⟩
  | cons command rest ih =>
      rw [demand] at enough
      have first := (command.run_allows represents memory state).imp
        (show _ ≤ total by omega) fun _ done => done
      refine first.bind ?_
      rintro ⟨answer, later, result⟩ ⟨next, step, after⟩
      have grown := step.size_le
      refine (ih after later (by simp only at grown; omega)).bind ?_
      rintro ⟨others, final, result⟩ ⟨last, runs, reached⟩
      exact Or.inl ⟨_, rfl, last, .cons step runs, reached⟩

/-- A set whose table is in order and finds every member. -/
structure Consistent (set : HashSet T) : Prop where
  checked : set.table.check = .ok ()
  findable : ∀ member ∈ set.toList, set.get? member = .ok (some member)

theorem Represents.consistent (represents : set.Represents finite) : set.Consistent := by
  refine ⟨Table.check_iff_valid.mpr represents.valid, ?_⟩
  intro member present
  rw [represents.get?_eq]
  exact congrArg Except.ok
    (FiniteSet.member?_eq_some_iff.mpr ⟨represents.members.subset present, BEq.rfl⟩)

/-- Every run from an empty set answers as a finite set does, or is refused memory, and the set is
consistent after each of its commands. -/
theorem runAll_follows {hash : T → UInt64}
    (respects : ∀ {first second : T}, (first == second) = true → hash first = hash second)
    (memory : Memory) (commands : List (Command T σ)) (state : σ) :
    (memory.Allows (demand commands) (runAll memory (withHasher hash) state commands)
        fun outcome => ∃ last, Runs FiniteMap.empty state commands outcome.1 outcome.2.1 last ∧
          outcome.2.2.Represents last) ∧
      ∀ front, front <+: commands →
        memory.Allows (demand commands) (runAll memory (withHasher hash) state front)
          fun outcome => outcome.2.2.Consistent := by
  have start : (withHasher hash).Represents FiniteMap.empty := withHasher_represents respects
  have none : FiniteMap.size (FiniteMap.empty : FiniteSet T) = 0 := rfl
  refine ⟨runAll_allows commands start memory state (by omega), ?_⟩
  intro front first
  have less := demand_le_of_isPrefix first
  refine (runAll_allows front start memory state (Nat.le_refl _)).imp (by omega) ?_
  rintro outcome ⟨last, _, represents⟩
  exact represents.consistent

theorem beq_caseless_iff {first second : Caseless} :
    (first == second) = true ↔ first.folded = second.folded := by
  change (first.folded == second.folded) = true ↔ _
  exact beq_iff_eq

instance : EquivBEq Caseless where
  rfl := beq_caseless_iff.mpr rfl
  symm same := beq_caseless_iff.mpr (beq_caseless_iff.mp same).symm
  trans first second :=
    beq_caseless_iff.mpr ((beq_caseless_iff.mp first).trans (beq_caseless_iff.mp second))

def spellings : List (Command Caseless Unit) :=
  [.insert ⟨"Ring"⟩, .insert ⟨"RING"⟩, .get ⟨"ring"⟩, .replace ⟨"RING"⟩, .extend 9 [⟨"ring"⟩],
    .members .back, .take ⟨"rinG"⟩, .insert ⟨"ring"⟩]

def spelledAnswers : List (Answer Caseless) :=
  [.flag true, .flag false, .member (some ⟨"Ring"⟩), .member (some ⟨"Ring"⟩), .done,
    .members [⟨"RING"⟩], .member (some ⟨"RING"⟩), .flag true]

theorem runAll_spellings :
    ∃ set last, runAll { slotBytes := 40, grants := fun _ => true } (withHasher fun _ => 0) ()
          spellings = .ok (spelledAnswers, (), set) ∧
        Runs FiniteMap.empty () spellings spelledAnswers () last ∧ set.Represents last ∧
          set.Consistent := by
  have respects {first second : Caseless} (_ : (first == second) = true) :
      (fun _ : Caseless => (0 : UInt64)) first = (fun _ => 0) second := rfl
  obtain ⟨whole, prefixes⟩ :=
    runAll_follows respects { slotBytes := 40, grants := fun _ => true } spellings ()
  obtain ⟨set, done⟩ : ∃ set, runAll { slotBytes := 40, grants := fun _ => true }
      (withHasher fun _ => 0) () spellings = .ok (spelledAnswers, (), set) := ⟨_, rfl⟩
  obtain ⟨last, runs, represents⟩ := whole.of_ok done
  exact ⟨set, last, done, runs, represents, (prefixes spellings List.prefix_rfl).of_ok done⟩

end RobinHood.HashSet
