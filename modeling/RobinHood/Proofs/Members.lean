import RobinHood.Proofs.FiniteSet
import RobinHood.Proofs.Kinds
import RobinHood.Proofs.Representation
import RobinHood.Proofs.Retaining

/-!
A hash set stands for a finite set. Each call answers and leaves what the same call on the finite
set does; the member that stands for a value is the one the table stores.
-/

namespace RobinHood.HashSet

variable {T σ : Type}

def offerValue (keep : σ → T → Bool × σ) (state : σ) (value : T) : Option T × σ :=
  let (kept, state) := keep state value
  (if kept then some value else none, state)

theorem offerAll_offerValue (keep : σ → T → Bool × σ) (state : σ) (cells : List (Cell T)) :
    (Table.offerAll (offerValue keep) state cells).1.Sublist cells ∧
      (Table.offerAll (offerValue keep) state cells).2 =
          (keepPairs (FiniteSet.offerMember keep) state
            (cells.map fun cell => (cell.value, ()))).2 ∧
        (Table.offerAll (offerValue keep) state cells).1.map Cell.value =
          (keepPairs (FiniteSet.offerMember keep) state
            (cells.map fun cell => (cell.value, ()))).1.map Prod.fst := by
  induction cells generalizing state with
  | nil => exact ⟨List.Sublist.refl _, rfl, rfl⟩
  | cons cell rest ih =>
      cases verdict : keep state cell.value with
      | mk kept later =>
          obtain ⟨sublist, states, values⟩ := ih later
          cases kept with
          | false =>
              simp only [Table.offerAll, List.map_cons, keepPairs, offerValue,
                FiniteSet.offerMember, verdict]
              exact ⟨sublist.cons _, states, values⟩
          | true =>
              simp only [Table.offerAll, List.map_cons, keepPairs, offerValue,
                FiniteSet.offerMember, verdict, if_true]
              exact ⟨sublist.cons_cons _, states, by rw [values]⟩

variable [BEq T] {set : HashSet T} {finite : FiniteSet T} {value : T}

structure Represents (set : HashSet T) (finite : FiniteSet T) : Prop where
  respects : ∀ {first second : T}, (first == second) = true → set.hash first = set.hash second
  valid : set.table.Valid
  keyed : ∀ cell ∈ set.table.cells, cell.hash = storedHash (set.hash cell.value)
  members : set.toList.Perm finite.members

theorem Represents.files (represents : set.Represents finite) :
    set.table.Files (fun value => value) set.hash finite.members :=
  ⟨represents.respects, represents.valid, represents.keyed, represents.members⟩

theorem represents_of_files
    (files : set.table.Files (fun value => value) set.hash finite.members) :
    set.Represents finite :=
  ⟨files.respects, files.valid, files.keyed, files.stored⟩

theorem withHasher_represents {hash : T → UInt64}
    (respects : ∀ {first second : T}, (first == second) = true → hash first = hash second) :
    (withHasher hash : HashSet T).Represents FiniteMap.empty :=
  represents_of_files (.of_empty respects)

namespace Represents

theorem size_eq (represents : set.Represents finite) : set.size = finite.size :=
  represents.files.population_eq.trans (FiniteSet.length_members finite)

theorem member?_of_absent (represents : set.Represents finite)
    (absent : set.table.Absent (storedHash (set.hash value)) (· == value)) :
    finite.member? value = none :=
  FiniteSet.member?_eq_none_iff.mpr (represents.files.none_filed absent)

theorem refilled (represents : set.Represents finite) {result : Table T} (valid : result.Valid)
    (cells : result.cells.Perm set.table.cells) :
    ({ set with table := result } : HashSet T).Represents finite :=
  represents_of_files (represents.files.refilled valid cells)

theorem emptied (represents : set.Represents finite) {result : Table T} (valid : result.Valid)
    (cells : result.cells = []) :
    ({ set with table := result } : HashSet T).Represents FiniteMap.empty :=
  represents_of_files (represents.files.emptied valid cells)

theorem clear (represents : set.Represents finite) : set.clear.Represents FiniteMap.empty :=
  represents.emptied represents.valid.clear.1 represents.valid.clear.2

theorem reserve_allows (represents : set.Represents finite) (memory : Memory)
    (additional : Nat) :
    memory.Allows (finite.size + additional) (set.reserve memory additional)
      fun result => result.Represents finite := by
  rw [← FiniteSet.length_members]
  exact (represents.files.reserve_allows memory additional).map
    fun _ files => represents_of_files files

end Represents

inductive EntryShows (set : HashSet T) (finite : FiniteSet T) (value : T) :
    Table.Entry T → Prop
  | occupied {place : Table.Occupied T} {cell : Cell T} (holds : place.Holds cell)
      (same : (cell.value == value) = true)
      (represents : ({ set with table := place.table } : HashSet T).Represents finite) :
      EntryShows set finite value (.occupied place)
  | vacant {place : Table.Vacant T} (awaits : place.Awaits (set.hash value) (· == value))
      (represents : ({ set with table := place.table } : HashSet T).Represents finite) :
      EntryShows set finite value (.vacant place)

theorem Represents.entry_allows (represents : set.Represents finite) (memory : Memory)
    (value : T) :
    memory.Allows finite.size (set.entry memory value) (EntryShows set finite value) := by
  rw [← represents.size_eq]
  rcases represents.valid.entry_cases memory (set.hash value) (· == value) with
    ⟨place, cell, found, grown, holds, matched⟩ | ⟨place, missed, grown, awaits⟩ | refused
  · exact Or.inl ⟨.occupied place, found, .occupied holds (Cell.matches_iff.mp matched).2
      (represents.refilled holds.valid grown.cells)⟩
  · exact Or.inl ⟨.vacant place, missed, .vacant awaits
      (represents.refilled (.allocated awaits.sound) grown.cells)⟩
  · exact Or.inr refused

section Equivalence

variable [EquivBEq T]

namespace Represents

theorem member?_of_cell (represents : set.Represents finite) {cell : Cell T}
    (held : cell ∈ set.table.cells) (same : (cell.value == value) = true) :
    finite.member? value = some cell.value :=
  FiniteSet.member?_eq_some_iff.mpr
    ⟨represents.members.subset (List.mem_map_of_mem held), same⟩

theorem added (represents : set.Represents finite) {result : Table T} (valid : result.Valid)
    (cells : result.cells.Perm
      ({ hash := storedHash (set.hash value), value } :: set.table.cells))
    (absent : finite.member? value = none) :
    ({ set with table := result } : HashSet T).Represents (FiniteSet.add finite value) := by
  refine represents_of_files ((represents.files.added value valid cells).of_perm ?_)
  rw [FiniteSet.members_add absent]

theorem exchanged (represents : set.Represents finite) {result : Table T} {cell : Cell T}
    (valid : result.Valid)
    (exchanged : Table.Exchanged set.table result cell { cell with value })
    (same : (cell.value == value) = true) :
    ({ set with table := result } : HashSet T).Represents (FiniteSet.exchange finite value) := by
  obtain ⟨rest, split, files⟩ :=
    represents.files.exchanged valid exchanged (represents.respects same)
  exact represents_of_files (files.of_perm (FiniteSet.members_exchange split same).symm)

theorem insert_allows (represents : set.Represents finite) (memory : Memory) (value : T) :
    memory.Allows finite.size (set.insert memory value) fun answer =>
      answer.1 = (finite.member? value).isNone ∧
        answer.2.Represents (FiniteSet.add finite value) := by
  unfold insert
  refine (represents.entry_allows memory value).bind ?_
  intro entry shown
  cases shown with
  | occupied holds same shown =>
      have present := shown.member?_of_cell (Table.mem_cells.mpr ⟨_, holds.held⟩) same
      rw [present, FiniteSet.add_of_present present]
      exact Or.inl ⟨_, rfl, rfl, shown⟩
  | vacant awaits shown =>
      have absent := shown.member?_of_absent awaits.absent
      obtain ⟨placed, done, holds, _, cells⟩ := awaits.insert_spec value
      rw [absent]
      simp only [done]
      exact Or.inl ⟨_, rfl, rfl, shown.added holds.valid cells absent⟩

theorem replace_allows (represents : set.Represents finite) (memory : Memory) (value : T) :
    memory.Allows finite.size (set.replace memory value) fun answer =>
      answer.1 = finite.member? value ∧
        answer.2.Represents (FiniteSet.exchange finite value) := by
  unfold replace
  refine (represents.entry_allows memory value).bind ?_
  intro entry shown
  cases shown with
  | occupied holds same shown =>
      have present := shown.member?_of_cell (Table.mem_cells.mpr ⟨_, holds.held⟩) same
      obtain ⟨changed, done, still, _, exchanged⟩ := holds.modify_spec fun _ => value
      rw [present]
      simp only [holds.replace_eq, done]
      exact Or.inl ⟨_, rfl, rfl, shown.exchanged still.valid exchanged same⟩
  | vacant awaits shown =>
      have absent := shown.member?_of_absent awaits.absent
      obtain ⟨placed, done, holds, _, cells⟩ := awaits.insert_spec value
      rw [absent, FiniteSet.exchange_of_absent absent]
      simp only [done]
      exact Or.inl ⟨_, rfl, rfl, shown.added holds.valid cells absent⟩

theorem get?_eq (represents : set.Represents finite) (value : T) :
    set.get? value = .ok (finite.member? value) := by
  rcases represents.files.find_cases value with ⟨member, present, same, found⟩ | ⟨absent, missed⟩
  · rw [FiniteSet.member?_eq_some_iff.mpr ⟨present, same⟩]
    exact found
  · rw [FiniteSet.member?_eq_none_iff.mpr absent]
    exact missed

theorem contains_eq (represents : set.Represents finite) (value : T) :
    set.contains value = .ok (finite.member? value).isSome := by
  rw [contains, represents.get?_eq]
  rfl

theorem take_spec (represents : set.Represents finite) (value : T) :
    ∃ result, set.take value = .ok (finite.member? value, result) ∧
      result.Represents (finite.without value) := by
  rcases represents.files.remove_cases value with
    ⟨member, rest, result, split, same, taken, files⟩ | ⟨absent, missed⟩
  · have held := FiniteSet.member?_eq_some_iff.mpr ⟨split.symm.subset List.mem_cons_self, same⟩
    have after := files.of_perm (FiniteSet.without_members split same).symm
    refine ⟨{ set with table := result }, ?_, represents_of_files after⟩
    rw [held]
    exact bind_of_ok taken rfl
  · have unknown := FiniteSet.member?_eq_none_iff.mpr absent
    refine ⟨set, ?_, ?_⟩
    · rw [unknown]
      exact bind_of_ok missed rfl
    · rw [FiniteMap.without_of_absent (FiniteSet.find?_of_member?_none unknown)]
      exact represents

theorem remove_spec (represents : set.Represents finite) (value : T) :
    ∃ result, set.remove value = .ok ((finite.member? value).isSome, result) ∧
      result.Represents (finite.without value) := by
  obtain ⟨result, taken, after⟩ := represents.take_spec value
  refine ⟨result, ?_, after⟩
  rw [remove, taken]
  rfl

theorem erase_spec (represents : set.Represents finite) (value : T) :
    ∃ result, set.erase value = .ok (if (finite.member? value).isSome then 1 else 0, result) ∧
      result.Represents (finite.without value) := by
  obtain ⟨result, taken, after⟩ := represents.remove_spec value
  refine ⟨result, ?_, after⟩
  rw [erase, taken]
  rfl

theorem retain_spec (represents : set.Represents finite) (keep : σ → T → Bool × σ) (state : σ) :
    ∃ (order : List T) (same : order.Perm finite.members) (result : HashSet T),
      set.retain keep state =
          .ok ((FiniteSet.keepMembers (FiniteSet.inOrder finite order same) keep state).2,
            result) ∧
        result.Represents
          (FiniteSet.keepMembers (FiniteSet.inOrder finite order same) keep state).1 := by
  obtain ⟨order, result, ring, done, valid, cells⟩ :=
    represents.valid.retain_spec (offerValue keep) state
  obtain ⟨sublist, states, values⟩ := offerAll_offerValue keep state order
  have pairs : (order.map Cell.value).map (fun value => (value, ())) =
      order.map fun cell => (cell.value, ()) := List.map_map
  refine ⟨order.map Cell.value, (ring.map Cell.value).trans represents.members,
    { set with table := result }, ?_, represents.respects, valid, ?_, ?_⟩
  · change (set.table.retain (offerValue keep) state).map _ = _
    rw [done, states, ← pairs]
    rfl
  · intro cell member
    exact represents.keyed cell (ring.subset (sublist.subset (cells.subset member)))
  · have kept := cells.map Cell.value
    rw [values, ← pairs] at kept
    exact kept

end Represents

def meaning : (kind (T := T)).Meaning (FiniteSet T) where
  Stands := Represents
  size := FiniteMap.size
  add := FiniteSet.add
  size_add_le := FiniteSet.size_add_le
  valid := Represents.valid
  reserve_allows := Represents.reserve_allows
  insert_allows represents memory value :=
    (represents.insert_allows memory value).imp (Nat.le_refl _) fun _ after => after.2

theorem Represents.insertAll_allows (represents : set.Represents finite) (memory : Memory)
    (values : List T) :
    memory.Allows (finite.size + values.length) (set.insertAll memory values)
      fun result => result.Represents (FiniteSet.addAll finite values) := by
  rw [insertAll_eq]
  exact meaning.insertAll_allows represents memory values

theorem Represents.extend_allows (represents : set.Represents finite) (memory : Memory)
    (announced : Nat) (values : List T) :
    memory.Allows (finite.size + (announced + values.length)) (set.extend memory announced values)
      fun result => result.Represents (FiniteSet.addAll finite values) := by
  rw [extend_eq]
  exact meaning.extend_allows represents memory announced values

end Equivalence

end RobinHood.HashSet
