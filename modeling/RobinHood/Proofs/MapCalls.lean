import RobinHood.Proofs.Kinds
import RobinHood.Proofs.Representation
import RobinHood.Proofs.Retaining

/-!
The calls on a hash map, each with what a finite map answers and becomes on the same call.
-/

namespace RobinHood.HashMap

variable {K V σ : Type}

def offerPair (offer : σ → K → V → Option V × σ) (state : σ) (pair : K × V) :
    Option (K × V) × σ :=
  let (kept, state) := offer state pair.1 pair.2
  (kept.map fun value => (pair.1, value), state)

theorem offerAll_offerPair (offer : σ → K → V → Option V × σ) (state : σ)
    (cells : List (Cell (K × V))) :
    (Table.offerAll (offerPair offer) state cells).2 =
        (keepPairs offer state (cells.map Cell.value)).2 ∧
      (Table.offerAll (offerPair offer) state cells).1.map Cell.value =
        (keepPairs offer state (cells.map Cell.value)).1 ∧
      ∀ kept ∈ (Table.offerAll (offerPair offer) state cells).1,
        ∃ cell ∈ cells, kept.hash = cell.hash ∧ kept.value.1 = cell.value.1 := by
  induction cells generalizing state with
  | nil => exact ⟨rfl, rfl, fun _ member => absurd member List.not_mem_nil⟩
  | cons cell rest ih =>
      obtain ⟨hash, key, value⟩ := cell
      cases offered : offer state key value with
      | mk answer later =>
          obtain ⟨states, pairs, sources⟩ := ih later
          cases answer with
          | none =>
              simp only [Table.offerAll, List.map_cons, keepPairs, offerPair, offered,
                Option.map_none]
              refine ⟨states, pairs, ?_⟩
              intro kept member
              obtain ⟨source, present, same⟩ := sources kept member
              exact ⟨source, List.mem_cons_of_mem _ present, same⟩
          | some value =>
              simp only [Table.offerAll, List.map_cons, keepPairs, offerPair, offered,
                Option.map_some]
              refine ⟨states, by rw [pairs], ?_⟩
              intro kept member
              rcases List.mem_cons.mp member with here | later
              · exact ⟨_, List.mem_cons_self, by rw [here], by rw [here]⟩
              · obtain ⟨source, present, same⟩ := sources kept later
                exact ⟨source, List.mem_cons_of_mem _ present, same⟩

variable [BEq K] {map : HashMap K V} {finite : FiniteMap K V}

theorem Represents.reserve_allows (represents : map.Represents finite) (memory : Memory)
    (additional : Nat) :
    memory.Allows (finite.size + additional) (map.reserve memory additional)
      fun result => result.Represents finite :=
  (represents.files.reserve_allows memory additional).map
    fun _ files => represents_of_files files

theorem Represents.clear (represents : map.Represents finite) :
    map.clear.Represents FiniteMap.empty :=
  represents.emptied represents.valid.clear.1 represents.valid.clear.2

theorem insertIfNew_eq (memory : Memory) (map : HashMap K V) (key : K) (value : V) :
    map.insertIfNew memory key value =
      (map.insertIfNewWith memory key (fun _ => (value, ())) ()).map fun answer =>
        (answer.1, answer.2.1) := by
  unfold insertIfNew
  cases map.insertIfNewWith memory key (fun _ => (value, ())) () <;> rfl

variable [EquivBEq K]

theorem Represents.getEntry?_eq (represents : map.Represents finite) (key : K) :
    map.getEntry? key = .ok (finite.find? key) := by
  rcases represents.files.find_cases key with ⟨pair, present, same, found⟩ | ⟨absent, missed⟩
  · rw [FiniteMap.find?_eq_some_iff.mpr ⟨present, same⟩]
    exact found
  · rw [FiniteMap.find?_eq_none_iff.mpr absent]
    exact missed

theorem Represents.get?_eq (represents : map.Represents finite) (key : K) :
    map.get? key = .ok (finite.get? key) := by
  rw [get?, represents.getEntry?_eq]
  rfl

theorem Represents.lookup_eq (represents : map.Represents finite) (key : K) :
    map.lookup key = finite.lookup key := by
  rw [lookup, represents.get?_eq, FiniteMap.lookup]
  cases finite.get? key <;> rfl

theorem Represents.contains_eq (represents : map.Represents finite) (key : K) :
    map.contains key = .ok (finite.find? key).isSome := by
  rw [contains, represents.getEntry?_eq]
  rfl

theorem Represents.modify_spec (represents : map.Represents finite) (key : K) (change : V → V) :
    ∃ result, map.modify key change = .ok ((finite.get? key).map change, result) ∧
      result.Represents (finite.changeAt key change) := by
  rcases represents.valid.findModify_cases (map.hash key) (fun pair => pair.1 == key)
      (changeValue change) with
    ⟨cell, result, matched, done, valid, _, exchanged⟩ | ⟨absent, missed⟩
  · have same := (Cell.matches_iff.mp matched).2
    have held := represents.find?_of_cell exchanged.mem same
    refine ⟨{ map with table := result }, ?_, represents.changed change valid exchanged same⟩
    rw [modify, done, FiniteMap.get?, held]
    rfl
  · have unknown := represents.find?_of_absent absent
    refine ⟨map, ?_, ?_⟩
    · rw [modify, missed, FiniteMap.get?, unknown]
      rfl
    · rw [FiniteMap.changeAt_of_absent change unknown]
      exact represents

theorem Represents.lookupModify_cases (represents : map.Represents finite) (key : K)
    (change : V → V) :
    (∃ value result, finite.lookup key = .ok value ∧
        map.lookupModify key change = .ok (change value, result) ∧
          result.Represents (finite.changeAt key change)) ∨
      finite.lookup key = .error .keyNotFound ∧
        map.lookupModify key change = .error .keyNotFound ∧
          map.Represents (finite.changeAt key change) := by
  obtain ⟨result, done, after⟩ := represents.modify_spec key change
  rw [lookupModify, done, FiniteMap.lookup]
  cases found : finite.get? key with
  | some value => exact Or.inl ⟨value, result, rfl, rfl, after⟩
  | none =>
      have absent : finite.find? key = none := by simpa [FiniteMap.get?] using found
      refine Or.inr ⟨rfl, rfl, ?_⟩
      rw [FiniteMap.changeAt_of_absent change absent]
      exact represents

theorem Represents.removeEntry_spec (represents : map.Represents finite) (key : K) :
    ∃ result, map.removeEntry key = .ok (finite.find? key, result) ∧
      result.Represents (finite.without key) := by
  rcases represents.files.remove_cases key with
    ⟨pair, rest, result, split, same, taken, files⟩ | ⟨absent, missed⟩
  · have held := FiniteMap.find?_eq_some_iff.mpr ⟨split.symm.subset List.mem_cons_self, same⟩
    have after := files.of_perm (FiniteMap.without_perm split same).symm
    refine ⟨{ map with table := result }, ?_, represents_of_files after⟩
    rw [held]
    exact bind_of_ok taken rfl
  · have unknown := FiniteMap.find?_eq_none_iff.mpr absent
    refine ⟨map, ?_, ?_⟩
    · rw [unknown]
      exact bind_of_ok missed rfl
    · rw [FiniteMap.without_of_absent unknown]
      exact represents

theorem Represents.remove_spec (represents : map.Represents finite) (key : K) :
    ∃ result, map.remove key = .ok (finite.get? key, result) ∧
      result.Represents (finite.without key) := by
  obtain ⟨result, taken, after⟩ := represents.removeEntry_spec key
  refine ⟨result, ?_, after⟩
  rw [remove, taken]
  rfl

theorem Represents.erase_spec (represents : map.Represents finite) (key : K) :
    ∃ result, map.erase key = .ok (if (finite.find? key).isSome then 1 else 0, result) ∧
      result.Represents (finite.without key) := by
  obtain ⟨result, taken, after⟩ := represents.removeEntry_spec key
  refine ⟨result, ?_, after⟩
  rw [erase, taken]
  rfl

theorem Represents.retain_spec (represents : map.Represents finite)
    (offer : σ → K → V → Option V × σ) (state : σ) :
    ∃ (order : List (K × V)) (same : order.Perm finite.entries) (result : HashMap K V),
      map.retain offer state =
          .ok (((finite.reorder order same).keep offer state).2, result) ∧
        result.Represents ((finite.reorder order same).keep offer state).1 := by
  obtain ⟨order, result, ring, done, valid, cells⟩ :=
    represents.valid.retain_spec (offerPair offer) state
  obtain ⟨states, pairs, sources⟩ := offerAll_offerPair offer state order
  refine ⟨order.map Cell.value, (ring.map Cell.value).trans represents.entries,
    { map with table := result }, ?_, represents.respects, valid, ?_, ?_⟩
  · change (map.table.retain (offerPair offer) state).map _ = _
    rw [done, states]
    rfl
  · intro cell member
    obtain ⟨source, present, hash, sameKey⟩ := sources cell (cells.subset member)
    rw [hash, sameKey]
    exact represents.keyed source (ring.subset present)
  · have kept := cells.map Cell.value
    rw [pairs] at kept
    exact kept

theorem Represents.insert_allows (represents : map.Represents finite) (memory : Memory) (key : K)
    (value : V) :
    memory.Allows finite.size (map.insert memory key value) fun answer =>
      answer.1 = finite.get? key ∧ answer.2.Represents (finite.assign key value) := by
  unfold insert
  refine (represents.entry_allows memory key).bind ?_
  intro entry shown
  cases shown with
  | occupied shown =>
      obtain ⟨changed, done, changedShown⟩ := shown.replace_spec value
      simp only [FiniteMap.assign, FiniteMap.get?, shown.find?_eq, done]
      exact Or.inl ⟨_, rfl, rfl, changedShown.represents⟩
  | vacant asked awaits =>
      subst asked
      obtain ⟨placed, done, placedShown⟩ := awaits.insert_spec value
      simp only [FiniteMap.assign, FiniteMap.get?, awaits.find?_eq, done]
      exact Or.inl ⟨_, rfl, rfl, placedShown.represents⟩

theorem Represents.insertIfNewWith_allows (represents : map.Represents finite) (memory : Memory)
    (key : K) (make : σ → V × σ) (state : σ) :
    memory.Allows finite.size (map.insertIfNewWith memory key make state) fun answer =>
      (∃ pair, answer.1.Shows (finite.insertIfNewWith key make state).1 key pair) ∧
        answer.2.1 = (finite.find? key).isNone ∧
          answer.2.2 = (finite.insertIfNewWith key make state).2 := by
  unfold insertIfNewWith
  refine (represents.entry_allows memory key).bind ?_
  intro entry shown
  cases shown with
  | occupied shown =>
      simp only [FiniteMap.insertIfNewWith, shown.find?_eq]
      exact Or.inl ⟨_, rfl, ⟨_, shown⟩, rfl, rfl⟩
  | @vacant place asked awaits =>
      subst asked
      obtain ⟨placed, done, placedShown⟩ := awaits.insert_spec (make state).1
      simp only [FiniteMap.insertIfNewWith, awaits.find?_eq, done]
      exact Or.inl ⟨_, rfl, ⟨_, placedShown⟩, rfl, rfl⟩

theorem Represents.insertIfNew_allows (represents : map.Represents finite) (memory : Memory)
    (key : K) (value : V) :
    memory.Allows finite.size (map.insertIfNew memory key value) fun answer =>
      (∃ pair, answer.1.Shows (finite.insertIfNew key value) key pair) ∧
        answer.2 = (finite.find? key).isNone := by
  rw [insertIfNew_eq]
  refine (represents.insertIfNewWith_allows memory key (fun _ => (value, ())) ()).map ?_
  rintro answer ⟨shown, isNew, _⟩
  rw [FiniteMap.insertIfNewWith_const] at shown
  exact ⟨shown, isNew⟩

theorem Represents.assign_allows (represents : map.Represents finite) (memory : Memory) (key : K)
    (value : V) :
    memory.Allows finite.size (map.assign memory key value) fun answer =>
      (∃ pair, answer.1.Shows (finite.assign key value) key pair) ∧
        answer.2 = (finite.find? key).isNone := by
  unfold assign
  refine (represents.entry_allows memory key).bind ?_
  intro entry shown
  cases shown with
  | occupied shown =>
      obtain ⟨changed, done, changedShown⟩ := shown.modify_spec fun _ => value
      simp only [FiniteMap.assign, shown.find?_eq, done]
      exact Or.inl ⟨_, rfl, ⟨_, changedShown⟩, rfl⟩
  | vacant asked awaits =>
      subst asked
      obtain ⟨placed, done, placedShown⟩ := awaits.insert_spec value
      simp only [FiniteMap.assign, awaits.find?_eq, done]
      exact Or.inl ⟨_, rfl, ⟨_, placedShown⟩, rfl⟩

theorem Represents.getOrInsertDefault_allows [Inhabited V] (represents : map.Represents finite)
    (memory : Memory) (key : K) :
    memory.Allows finite.size (map.getOrInsertDefault memory key) fun place =>
      ∃ pair, place.Shows (finite.insertIfNew key default) key pair := by
  unfold getOrInsertDefault
  refine (represents.insertIfNew_allows memory key default).bind ?_
  rintro ⟨place, isNew⟩ ⟨shown, _⟩
  exact Or.inl ⟨_, rfl, shown⟩

def meaning : (kind (K := K) (V := V)).Meaning (FiniteMap K V) where
  Stands := Represents
  size := FiniteMap.size
  add finite pair := finite.assign pair.1 pair.2
  size_add_le finite pair := finite.size_assign_le pair.1 pair.2
  valid := Represents.valid
  reserve_allows := Represents.reserve_allows
  insert_allows represents memory pair :=
    (represents.insert_allows memory pair.1 pair.2).imp (Nat.le_refl _) fun _ after => after.2

end RobinHood.HashMap
