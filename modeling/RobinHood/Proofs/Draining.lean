import RobinHood.Proofs.Bag
import RobinHood.Proofs.BothEnds
import RobinHood.Proofs.Determinacy
import RobinHood.Proofs.Origins

/-!
Draining a table as far as a caller likes. The slots are away while the drain is open; what it hands
back has their number and none of their values, and nothing else of the table was kept.
-/

namespace RobinHood

variable {α : Type}

namespace Guarded

noncomputable section

/-- Takes the slots out of a table; gives the table as it is from then on. -/
def Drain.takeOut (table : Table α) : Guarded (Table.Drain α × Table α) := do
  let left ← setGeometry #[] 0
  return ({ slots := table.slots, index := 0, remaining := table.population }, left)

/-- Frees the slots that a drain has not come to, and puts all slots back into their table. -/
def Drain.putBack (drain : Table.Drain α) (table : Table α) : Guarded (Table α) :=
  if drain.index ≤ drain.slots.size then
    setGeometry (drain.slots.mapIdx fun index slot => if drain.index ≤ index then none else slot)
      table.population
  else stop (.range drain.index drain.slots.size)

end

theorem Drain.takeOut_eq (table : Table α) : Drain.takeOut table = pure (table.drain, .empty) :=
  rfl

theorem Drain.putBack_empty (drain : Table.Drain α) :
    Drain.putBack drain .empty = Drain.close drain :=
  rfl

end Guarded

namespace Table

variable {table result : Table α}

theorem foldl_step_of_last (moves : List (Side × (α → α))) {walk : ChangingWalk α}
    (last : walk.cursor.remaining = 0) :
    moves.foldl (fun walk (side, change) => (walk.step side change).2) walk = walk := by
  induction moves with
  | nil => rfl
  | cons move rest ih =>
      rw [List.foldl_cons]
      simp only [ChangingWalk.step, Cursor.step_of_last walk.table.slots move.1 last]
      exact ih

theorem Operation.apply_empty {operation : Operation α}
    (applied : operation.apply empty = .ok result) : result = empty ∨ result.slotCount ≠ 0 := by
  cases operation with
  | reserve memory additional =>
      rcases of_unlessRefused applied with rfl | reserved
      · exact Or.inl rfl
      · unfold Table.reserve at reserved
        simp only at reserved
        split at reserved
        · simp at reserved
        · split at reserved
          · exact Or.inl (Except.ok.inj reserved).symm
          · obtain ⟨slots, _, moved⟩ := exists_of_bind reserved
            obtain ⟨larger, count⟩ := slotCount_of_resize moved
            exact Or.inr (by omega)
  | entry memory raw accept use =>
      rcases of_unlessRefused applied with rfl | entered
      · exact Or.inl rfl
      · obtain ⟨found, located, used⟩ := exists_of_bind entered
        have grew : (empty : Table α).grow memory = .ok found.table := growIfFull_of_entry located
        have sixteen : found.table.slotCount = 16 := (slotCount_of_grow grew).1
        exact Or.inr (by rw [EntryUse.slotCount_of_on used, sixteen]; decide)
  | findModify raw accept change | remove raw accept | retain offer state | clear =>
      exact Or.inl (Except.ok.inj applied).symm
  | changeInPlace moves =>
      refine Or.inl ((Except.ok.inj applied).symm.trans ?_)
      rw [foldl_step_of_last moves rfl]
      rfl
  | drain taken closed =>
      refine Or.inl ((Except.ok.inj applied).symm.trans ?_)
      cases closed with
      | true => exact ((drain_passed empty).take taken).close_eq
      | false => rfl

theorem Operation.eq_empty {operation : Operation α} (bare : table.slotCount = 0 → table = empty)
    (applied : operation.apply table = .ok result) (unallocated : result.slotCount = 0) :
    result = empty := by
  cases Operation.slotChange applied with
  | kept same =>
      rw [bare (same ▸ unallocated)] at applied
      rcases Operation.apply_empty applied with new | allocated
      · exact new
      · exact absurd unallocated allocated
  | first _ _ sixteen => omega
  | doubled allocated _ double _ => omega
  | reserved larger _ => omega
  | leaked none => exact (Except.ok.inj applied).symm

theorem Reachable.ofSlots_eq (reachable : Reachable table) :
    table = ofSlots table.slots table.population := by
  have bare : table.slotCount = 0 → table = empty :=
    reachable.induction (fun table => table.slotCount = 0 → table = empty) (fun _ => rfl)
      Operation.eq_empty
  by_cases unallocated : table.slotCount = 0
  · rw [bare unallocated]
    rfl
  · have shaped := (reachable.valid.sound unallocated).shaped
    obtain ⟨width, _, count⟩ := shaped.power
    have bits := shaped.shift_add_width count
    have mask := shaped.mask
    have trigger := shaped.trigger
    have size : table.slots.size = 2 ^ width := count
    rw [slotCount, size] at mask
    have shift : table.shift = 64 - width := by omega
    have allocated : ¬ table.slots.size = 0 := unallocated
    rw [ofSlots, if_neg allocated, size, Nat.log2_two_pow, ← mask, ← shift, ← trigger]

theorem ofSlots_sameShape {slots other : Array (Slot α)} (size : other.size = slots.size)
    (population otherPopulation : Nat) :
    SameShape (ofSlots slots population) (ofSlots other otherPopulation) := by
  refine ⟨?_, ?_, ?_, ?_⟩
  · rw [slotCount, slotCount, slots_ofSlots, slots_ofSlots, size]
  all_goals
    rw [ofSlots, ofSlots, size]
    split <;> rfl

structure Drain.Leaves (drain : Drain α) (values : List α) : Prop where
  ahead : valuesBetween drain.slots drain.index drain.slots.size = values
  remaining : drain.remaining = values.length

theorem Drain.Leaves.passed {drain : Drain α} {values : List α} {remaining : Nat}
    (ahead : valuesBetween drain.slots (drain.index + 1) drain.slots.size = values)
    (count : remaining = values.length) :
    Drain.Leaves
      { slots := drain.slots.setIfInBounds drain.index none, index := drain.index + 1, remaining }
      values := by
  refine ⟨?_, count⟩
  rw [Array.size_setIfInBounds, ← ahead]
  refine valuesBetween_congr ?_
  intro index lower _
  exact valueIn_setIfInBounds_of_ne (Nat.ne_of_lt lower) none

theorem Drain.Leaves.go {drain : Drain α} {values : List α} (leaves : drain.Leaves values)
    {fuel : Nat} (enough : fuel = drain.slots.size - drain.index) :
    (Drain.next.go fuel drain).1 = values.head? ∧
      (Drain.next.go fuel drain).2.Leaves values.tail := by
  induction fuel generalizing drain with
  | zero =>
      have nothing := leaves.ahead
      rw [valuesBetween_of_ge drain.slots (by omega)] at nothing
      subst nothing
      exact ⟨rfl, leaves⟩
  | succ fuel ih =>
      have inside : drain.index < drain.slots.size := by omega
      have ahead := leaves.ahead
      rw [valuesBetween_cons drain.slots inside] at ahead
      rw [Drain.next.go]
      by_cases last : drain.remaining = 0
      · obtain rfl := List.length_eq_zero_iff.mp (leaves.remaining.symm.trans last)
        rw [if_pos last]
        exact ⟨rfl, leaves⟩
      · rw [if_neg last]
        cases held : drain.slots.getD drain.index none with
        | none =>
            rw [valueIn, held] at ahead
            refine ih (Drain.Leaves.passed ahead leaves.remaining) ?_
            rw [Array.size_setIfInBounds]
            simp only
            omega
        | some cell =>
            rw [valueIn, held] at ahead
            subst ahead
            have remaining := leaves.remaining
            refine ⟨rfl, Drain.Leaves.passed rfl ?_⟩
            simp only [remaining]
            rfl

theorem Drain.Leaves.take {drain : Drain α} {values : List α} (leaves : drain.Leaves values)
    (taken : Nat) :
    (Drain.take taken drain).1 =
        (values.take taken).map some ++ List.replicate (taken - values.length) none ∧
      (Drain.take taken drain).2.Leaves (values.drop taken) := by
  induction taken generalizing drain values with
  | zero => exact ⟨by simp [Drain.take], leaves⟩
  | succ taken ih =>
      obtain ⟨answer, after⟩ := leaves.go rfl
      obtain ⟨answers, last⟩ := ih after
      cases values with
      | nil =>
          rw [List.tail_nil, List.drop_nil] at last
          exact ⟨congrArg₂ List.cons answer (by simpa using answers), last⟩
      | cons value rest =>
          refine ⟨(congrArg₂ List.cons answer answers).trans ?_, last⟩
          simp

theorem Valid.drain_leaves (valid : Valid table) : table.drain.Leaves table.toList :=
  ⟨valid.cursor_leaves.between, valid.cursor_leaves.remaining⟩

theorem Vacant.Awaits.find_inserted {place : Vacant α} {raw : UInt64} {accept : α → Bool}
    (awaits : place.Awaits raw accept) {value : α} (accepted : accept value = true) :
    ∃ placed, place.insert value = .ok placed ∧
      placed.table.find raw accept = .ok (some value) := by
  obtain ⟨placed, inserted, holds, _, cells⟩ := awaits.insert_spec value
  refine ⟨placed, inserted, ?_⟩
  rcases holds.valid.find_cases raw accept with ⟨cell, member, matched, found⟩ | ⟨absent, _⟩
  · rcases List.mem_cons.mp (cells.subset member) with rfl | old
    · exact found
    · rw [awaits.absent cell old] at matched
      simp at matched
  · have matched : Cell.matches (storedHash raw) accept { hash := storedHash raw, value } = true :=
      Cell.matches_iff.mpr ⟨rfl, accepted⟩
    exact absurd absent (not_absent_of_mem (cells.symm.subset List.mem_cons_self) matched)

def FindsNew (table : Table α) : Prop :=
  ∀ (memory : Memory) (raw : UInt64) (accept : α → Bool) (place : Vacant α),
    table.entry memory raw accept = .ok (.vacant place) → ∀ value, accept value = true →
      ∃ placed, place.insert value = .ok placed ∧ placed.table.find raw accept = .ok (some value)

theorem Valid.findsNew (valid : Valid table) : FindsNew table := by
  intro memory raw accept place entered value accepted
  rcases valid.entry_cases memory raw accept with
    ⟨other, cell, found, _⟩ | ⟨other, missed, _, awaits⟩ | ⟨error, failed, _⟩
  · simp [found] at entered
  · obtain rfl := Entry.vacant.inj (Except.ok.inj (missed.symm.trans entered))
    exact awaits.find_inserted accepted
  · simp [failed] at entered

theorem Valid.apply_all (operations : List (Operation α)) (valid : Valid table) :
    ∃ result, operations.foldlM Operation.apply table = .ok result ∧ Valid result ∧
      ∀ kind, Only kind table → (∀ operation ∈ operations, operation.Keeps kind) →
        Only kind result := by
  induction operations generalizing table with
  | nil => exact ⟨table, rfl, valid, fun _ only _ => only⟩
  | cons operation rest ih =>
      obtain ⟨middle, applied, middleValid, _⟩ := operation.apply_valid valid
      obtain ⟨result, later, resultValid, stays⟩ := ih middleValid
      refine ⟨result, ?_, resultValid, ?_⟩
      · rw [List.foldlM_cons, applied]
        exact later
      · intro kind only keeps
        rw [List.forall_mem_cons] at keeps
        exact stays kind (operation.apply_only valid only keeps.1 applied) keeps.2

/-- A table that has nothing and acts from then on as if it never had anything. -/
structure StartsOver (table : Table α) : Prop where
  population : table.population = 0
  values : table.toList = []
  checked : table.check = .ok ()
  missing (raw : UInt64) (accept : α → Bool) : table.find raw accept = .ok none
  later (operations : List (Operation α)) :
    ∃ result, operations.foldlM Operation.apply table = .ok result ∧ result.check = .ok () ∧
      ActsAsBag result ∧ FindsNew result ∧
      ∀ kind, (∀ operation ∈ operations, operation.Keeps kind) → Only kind result

theorem Valid.startsOver (valid : Valid table) (cells : table.cells = []) : StartsOver table := by
  constructor
  case population => rw [← valid.counted, cells, List.length_nil]
  case values => rw [toList, cells, List.map_nil]
  case checked => exact check_iff_valid.mpr valid
  case missing =>
    intro raw accept
    rcases valid.find_cases raw accept with ⟨cell, member, _⟩ | ⟨_, missed⟩
    · rw [cells] at member
      exact absurd member List.not_mem_nil
    · exact missed
  case later =>
    intro operations
    obtain ⟨result, ran, resultValid, stays⟩ := valid.apply_all operations
    exact ⟨result, ran, check_iff_valid.mpr resultValid, resultValid.actsAsBag,
      resultValid.findsNew, fun kind keeps => stays kind (.of_nil cells) keeps⟩

/-- So many calls of a drain, and what it leaves if it is closed then or if it never is. -/
structure Drains (table : Table α) (taken : Nat) : Prop where
  answers : (Drain.take taken table.drain).1 =
    (table.toList.take taken).map some ++ List.replicate (taken - table.toList.length) none
  hint : (Drain.take taken table.drain).2.sizeHint =
    (table.toList.length - taken, some (table.toList.length - taken))
  takenOut : Guarded.Drain.takeOut table = pure (table.drain, empty)
  stepwise : Guarded.Drain.take taken table.drain = pure (Drain.take taken table.drain)
  putBack : Guarded.Drain.putBack (Drain.take taken table.drain).2 empty =
    pure (Drain.take taken table.drain).2.close
  closed : (Drain.take taken table.drain).2.close =
    ofSlots (Array.replicate table.slotCount none) 0
  shape : SameShape table (Drain.take taken table.drain).2.close
  closedOver : StartsOver (Drain.take taken table.drain).2.close
  abandoned : (Drain.take taken table.drain).2.abandon = empty
  abandonedOver : StartsOver (Drain.take taken table.drain).2.abandon

theorem Reachable.drains (reachable : Reachable table) (taken : Nat) : table.Drains taken := by
  have valid := reachable.valid
  have safe := reachable.safe
  have passed := (drain_passed table).take taken
  have within : table.drain.Within table.slotCount := ⟨rfl, Nat.zero_le _⟩
  obtain ⟨answers, left⟩ := valid.drain_leaves.take taken
  constructor
  case answers => exact answers
  case hint => rw [Drain.sizeHint, left.remaining, List.length_drop]
  case takenOut => exact Guarded.Drain.takeOut_eq table
  case stepwise => exact within.take_eq safe.counted taken
  case putBack =>
    rw [Guarded.Drain.putBack_empty]
    exact safe.close_eq taken
  case closed => exact passed.close_eq
  case shape =>
    rw [passed.close_eq, reachable.ofSlots_eq]
    exact ofSlots_sameShape (by simp [slotCount, slots_ofSlots]) table.population 0
  case closedOver => exact (passed.close_valid valid).startsOver passed.cells_close
  case abandoned => rfl
  case abandonedOver => exact valid_empty.startsOver rfl

end Table

namespace HashMap

variable {K V : Type} [BEq K] [EquivBEq K] [Inhabited V] {map : HashMap K V}

/-- A map whose runs answer as those of an empty finite map, and as those of a new map. -/
structure StartsOver (map : HashMap K V) : Prop where
  size : map.size = 0
  checked : map.table.check = .ok ()
  runs {σ : Type} (memory : Memory) (state : σ) (commands : List (Command K V σ)) :
    memory.Allows (demand commands) (runAll memory map state commands) fun outcome =>
      ∃ last, Runs FiniteMap.empty state commands outcome.1 outcome.2.1 last ∧
        outcome.2.2.Represents last
  asNew {σ : Type} (hasher : Hasher K) (memory otherMemory : Memory) (state final otherFinal : σ)
    (commands : List (Command K V σ)) (answers otherAnswers : List (List (Answer K V)))
    (last otherLast : HashMap K V) :
    (∀ command ∈ commands, command.Orderless) →
    runAll memory map state commands = .ok (answers, final, last) →
    runAll otherMemory (withHasher hasher.hash) state commands =
      .ok (otherAnswers, otherFinal, otherLast) →
    answers = otherAnswers ∧ final = otherFinal ∧ last.toList.Perm otherLast.toList

theorem Represents.startsOver (represents : map.Represents FiniteMap.empty) : map.StartsOver := by
  constructor
  case size => exact represents.size_eq
  case checked => exact Table.check_iff_valid.mpr represents.valid
  case runs =>
    intro σ memory state commands
    exact runAll_allows commands represents memory state (Nat.zero_add _).le
  case asNew =>
    intro σ hasher memory otherMemory state final otherFinal commands answers otherAnswers last
      otherLast orderless ran otherRan
    exact represents.runAll_unique orderless (withHasher_represents hasher.respects)
      ⟨List.Perm.refl _⟩ ran otherRan

end HashMap

namespace HashSet

variable {T : Type} [BEq T] [EquivBEq T] {set : HashSet T}

structure StartsOver (set : HashSet T) : Prop where
  size : set.size = 0
  checked : set.table.check = .ok ()
  runs {σ : Type} (memory : Memory) (state : σ) (commands : List (Command T σ)) :
    memory.Allows (demand commands) (runAll memory set state commands) fun outcome =>
      ∃ last, Runs FiniteMap.empty state commands outcome.1 outcome.2.1 last ∧
        outcome.2.2.Represents last

theorem Represents.startsOver (represents : set.Represents FiniteMap.empty) : set.StartsOver := by
  constructor
  case size => exact represents.size_eq
  case checked => exact Table.check_iff_valid.mpr represents.valid
  case runs =>
    intro σ memory state commands
    exact runAll_allows commands represents memory state (Nat.zero_add _).le

end HashSet

/-- However far a drain gets, the table, the map or the set that it came from starts over. -/
theorem reachable_drains {K V T : Type} [BEq K] [EquivBEq K] [Inhabited V] [BEq T] [EquivBEq T]
    {table : Table α} {map : HashMap K V} {set : HashSet T} (reachable : table.Reachable)
    (mapReachable : (HashMap.interface K V).Reachable map)
    (setReachable : (HashSet.interface T).Reachable set) (taken : Nat) :
    table.Drains taken ∧
      (∀ closed, HashMap.StartsOver { map with table := map.table.drained taken closed }) ∧
      ∀ closed, HashSet.StartsOver { set with table := set.table.drained taken closed } := by
  obtain ⟨finite, represents⟩ := HashMap.interface_preserves.of_reachable mapReachable
  obtain ⟨members, setRepresents⟩ := HashSet.interface_preserves.of_reachable setReachable
  refine ⟨reachable.drains taken, ?_, ?_⟩
  · intro closed
    exact (represents.drained taken closed).startsOver
  · intro closed
    exact (setRepresents.drained taken closed).startsOver

theorem drains_overTheEnd :
    ∃ (table : Table Nat) (emptied copy : HashMap Nat Nat) (set : HashSet Nat),
      Table.runAll Table.overTheEnd [] = .ok [table] ∧ table.toList = [20, 30, 40, 10] ∧
        (Table.Drain.take 2 table.drain).1 = [some 20, some 30] ∧
          (Table.Drain.take 2 table.drain).2.close.slots = Array.replicate 16 none ∧
            table.Drains 2 ∧
      (HashMap.interface Nat Nat).performAll drainedCopy [] = .ok [emptied, copy] ∧
        copy.toList = [(1, 10), (2, 21)] ∧
          HashMap.StartsOver { copy with table := copy.table.drained 2 true } ∧
      (HashSet.interface Nat).performAll loadedSet [] = .ok [set] ∧ set.size = 2 ∧
        HashSet.StartsOver { set with table := set.table.drained 2 false } := by
  obtain ⟨table, made, values, slots⟩ : ∃ table : Table Nat,
      Table.runAll Table.overTheEnd [] = .ok [table] ∧ table.toList = [20, 30, 40, 10] ∧
        table.slotCount = 16 := ⟨_, rfl, by decide +kernel, rfl⟩
  obtain ⟨emptied, copy, mapMade, pairs⟩ :
      ∃ emptied copy, (HashMap.interface Nat Nat).performAll drainedCopy [] =
        .ok [emptied, copy] ∧ copy.toList = [(1, 10), (2, 21)] := ⟨_, _, rfl, rfl⟩
  obtain ⟨set, setMade, size⟩ :
      ∃ set, (HashSet.interface Nat).performAll loadedSet [] = .ok [set] ∧ set.size = 2 :=
    ⟨_, rfl, rfl⟩
  obtain ⟨drains, mapOver, setOver⟩ := reachable_drains
    ⟨Table.overTheEnd, _, made, List.mem_singleton_self _⟩
    ⟨drainedCopy, _, mapMade, List.mem_cons_of_mem _ (List.mem_singleton_self _)⟩
    ⟨loadedSet, _, setMade, List.mem_singleton_self _⟩ 2
  refine ⟨table, emptied, copy, set, made, values, ?_, ?_, drains, mapMade, pairs, mapOver true,
    setMade, size, setOver false⟩
  · rw [drains.answers, values]
    rfl
  · rw [drains.closed, Table.slots_ofSlots, slots]

end RobinHood
