import RobinHood.Proofs.Equality
import RobinHood.Proofs.Walking

/-!
Writing a map or a set out and loading it again. The new ring has slots, a hash function and an
order of insertion of its own, so the two are compared through the finite map both stand for.
-/

namespace RobinHood

variable {K V T : Type}

namespace FiniteMap

variable [BEq K] [EquivBEq K]

theorem foldl_new_perm {ι : Type} (finite : FiniteMap K V) (pair : ι → K × V)
    (step : FiniteMap K V → ι → FiniteMap K V)
    (adds : ∀ finite item, finite.find? (pair item).1 = none →
      step finite item = finite.insertIfNew (pair item).1 (pair item).2) (items : List ι)
    (distinct : items.Pairwise fun first second => ((pair first).1 == (pair second).1) = false)
    (new : ∀ item ∈ items, finite.find? (pair item).1 = none) :
    (items.foldl step finite).entries.Perm (items.map pair ++ finite.entries) := by
  induction items generalizing finite with
  | nil => exact List.Perm.refl _
  | cons item rest ih =>
      rw [List.pairwise_cons] at distinct
      have absent := new item List.mem_cons_self
      have entries : (step finite item).entries = pair item :: finite.entries := by
        rw [adds finite item absent, entries_insertIfNew absent]
      have still : ∀ other ∈ rest, (step finite item).find? (pair other).1 = none := by
        intro other member
        rw [find?_eq_none_iff, entries, List.forall_mem_cons]
        exact ⟨distinct.1 other member,
          find?_eq_none_iff.mp (new other (List.mem_cons_of_mem _ member))⟩
      have later := ih (step finite item) distinct.2 still
      rw [entries] at later
      rw [List.foldl_cons, List.map_cons]
      exact later.trans List.perm_middle

def assignAll (finite : FiniteMap K V) (pairs : List (K × V)) : FiniteMap K V :=
  pairs.foldl (fun finite pair => finite.assign pair.1 pair.2) finite

theorem entries_assignAll {pairs : List (K × V)}
    (distinct : pairs.Pairwise fun first second => (first.1 == second.1) = false) :
    (assignAll empty pairs).entries.Perm pairs := by
  have adds (finite : FiniteMap K V) (pair : K × V) (absent : finite.find? pair.1 = none) :
      finite.assign pair.1 pair.2 = finite.insertIfNew pair.1 pair.2 := by
    simp only [FiniteMap.assign, absent]
  have added := foldl_new_perm empty id (fun finite pair => finite.assign pair.1 pair.2) adds pairs
    distinct fun _ _ => rfl
  rw [List.map_id] at added
  exact added.trans (by rw [empty, List.append_nil])

end FiniteMap

namespace FiniteSet

variable [BEq T] {set other : FiniteSet T}

theorem same_of_members (members : set.members.Perm other.members) : set.Same other := by
  refine ⟨?_⟩
  rw [entries_eq, entries_eq]
  exact members.map _

variable [EquivBEq T]

theorem member?_congr (same : set.Same other) (value : T) :
    set.member? value = other.member? value := by
  rw [member?, member?, same.find?_eq]

theorem members_addAll {values : List T}
    (distinct : values.Pairwise fun first second => (first == second) = false) :
    (addAll FiniteMap.empty values).members.Perm values := by
  have added := FiniteMap.foldl_new_perm FiniteMap.empty (fun value : T => (value, ())) add
    (fun _ _ _ => rfl) values distinct fun _ _ => rfl
  have members := added.map Prod.fst
  rwa [FiniteMap.empty, List.append_nil, fst_withUnit] at members

end FiniteSet

namespace Table

variable {α : Type} {table : Table α}

theorem Valid.walk_front (valid : Valid table) : (table.walk.rest .front).1 = table.toList :=
  valid.walk_rest .front

theorem Valid.walk_slots (valid : Valid table) :
    (table.walk.rest .front).1 =
      (List.range table.slotCount).filterMap fun index => (table.slot index).map Cell.value := by
  rw [valid.walk_front, toList, cells_eq, List.map_filterMap]

end Table

namespace HashMap

def emitted (map : HashMap K V) : List (K × V) :=
  (map.table.walk.rest .front).1

section Keys

variable [BEq K] [EquivBEq K] {map other : HashMap K V} {finite otherFinite : FiniteMap K V}

theorem Represents.insertAll_allows (represents : map.Represents finite) (memory : Memory)
    (pairs : List (K × V)) :
    memory.Allows (finite.size + pairs.length) (map.insertAll memory pairs)
      fun result => result.Represents (finite.assignAll pairs) := by
  rw [insertAll_eq]
  exact meaning.insertAll_allows represents memory pairs

theorem Represents.equals_of_same [BEq V] [ReflBEq V] (represents : map.Represents finite)
    (otherRepresents : other.Represents otherFinite) (same : finite.Same otherFinite) :
    map.equals other = .ok true := by
  rw [represents.equals_eq otherRepresents, decide_eq_true same.size_eq, Bool.true_and,
    Except.ok.injEq, List.all_eq_true]
  intro pair member
  rw [← same.get?_eq, FiniteMap.get?_of_mem (represents.entries.subset member)]
  exact BEq.rfl

end Keys

/-- A loaded map that is equal to a map and stores its keys under the same spellings. -/
structure Restored [BEq K] [BEq V] (map loaded : HashMap K V) : Prop where
  equal : loaded.equals map = .ok true
  equalBack : map.equals loaded = .ok true
  spelled (key : K) : loaded.getEntry? key = map.getEntry? key
  pairs : loaded.toList.Perm map.toList
  checked : loaded.table.check = .ok ()

/-- Writing a map out gives each stored pair once, in the order of the slots; loading these pairs in
any order, under any hash function, restores the map, and only memory can be missing for that. -/
structure RoundTrips [Key K] [Shown V] [BEq V] (map : HashMap K V) : Prop where
  document : map.json =
    .object (map.emitted.map fun pair => (Key.fieldName pair.1, Shown.json pair.2))
  slots : map.emitted = (List.range map.table.slotCount).filterMap fun index =>
    (map.table.slot index).map Cell.value
  once : map.emitted.Pairwise fun first second => (first.1 == second.1) = false
  loads (hasher : Hasher K) (memory : Memory) (announced : Option Nat) (items : List (K × V)) :
    items.Perm map.emitted →
      (∀ loaded, HashMap.load memory hasher.hash { announced, items, fault := none } = .ok loaded →
        map.Restored loaded) ∧
      (memory.Provides (max (min (announced.getD 0) trustedItems) map.size) →
        ∃ loaded, HashMap.load memory hasher.hash { announced, items, fault := none } = .ok loaded)

theorem load_yields [BEq K] [EquivBEq K] (hasher : Hasher K) (memory : Memory)
    (source : Source (K × V)) (whole : source.fault = none) :
    memory.Yields (max source.initialCapacity source.items.length)
      (HashMap.load memory hasher.hash source)
      fun loaded => loaded.Represents (FiniteMap.assignAll FiniteMap.empty source.items) := by
  rw [load_eq_kind]
  exact meaning.load_yields (withHasher_represents hasher.respects) rfl memory whole

theorem Represents.restored [BEq K] [EquivBEq K] [BEq V] [ReflBEq V] {map loaded : HashMap K V}
    {finite loadedFinite : FiniteMap K V} (represents : map.Represents finite)
    (loadedRepresents : loaded.Represents loadedFinite) (same : loadedFinite.Same finite) :
    map.Restored loaded := by
  refine ⟨loadedRepresents.equals_of_same represents same,
    represents.equals_of_same loadedRepresents ⟨same.entries.symm⟩, ?_, ?_,
    Table.check_iff_valid.mpr loadedRepresents.valid⟩
  · intro key
    rw [loadedRepresents.getEntry?_eq, represents.getEntry?_eq, same.find?_eq]
  · exact (loadedRepresents.entries.trans same.entries).trans represents.entries.symm

theorem Represented.roundTrips [Key K] [EquivBEq K] [Shown V] [BEq V] [ReflBEq V]
    {map : HashMap K V} (represented : map.Represented) : map.RoundTrips := by
  obtain ⟨finite, represents⟩ := represented
  have emitted : map.emitted = map.toList := represents.valid.walk_front
  have distinct : map.toList.Pairwise fun first second => (first.1 == second.1) = false := by
    rw [toList, Table.toList, List.pairwise_map]
    exact represents.keys_apart
  constructor
  case document =>
    rw [emitted]
    rfl
  case slots => exact represents.valid.walk_slots
  case once =>
    rw [emitted]
    exact distinct
  case loads =>
    intro hasher memory announced items reordered
    rw [emitted] at reordered
    have length : map.size = items.length := by
      rw [reordered.length_eq, toList, Table.toList, List.length_map, represents.valid.counted]
      rfl
    have different : items.Pairwise fun first second => (first.1 == second.1) = false :=
      reordered.symm.pairwise distinct fun apart => by rwa [BEq.comm]
    have same : (FiniteMap.assignAll FiniteMap.empty items).Same finite :=
      ⟨((FiniteMap.entries_assignAll different).trans reordered).trans represents.entries⟩
    obtain ⟨partly, fully⟩ := load_yields hasher memory { announced, items, fault := none } rfl
    rw [length]
    exact ⟨fun loaded done => represents.restored (partly loaded done) same, fully⟩

end HashMap

namespace HashSet

def emitted (set : HashSet T) : List T :=
  (set.table.walk.rest .front).1

section Members

variable [BEq T] [EquivBEq T] {set other : HashSet T} {finite otherFinite : FiniteSet T}

theorem Represents.equals_of_perm (represents : set.Represents finite)
    (otherRepresents : other.Represents otherFinite)
    (same : finite.members.Perm otherFinite.members) : set.equals other = .ok true := by
  have size : finite.size = otherFinite.size := by
    rw [← FiniteSet.length_members, ← FiniteSet.length_members, same.length_eq]
  rw [represents.equals_eq otherRepresents, decide_eq_true size, Bool.true_and, Except.ok.injEq,
    List.all_eq_true]
  intro value member
  have held : otherFinite.member? value = some value :=
    FiniteSet.member?_eq_some_iff.mpr
      ⟨same.subset (represents.members.subset member), BEq.rfl⟩
  rw [held]
  rfl

theorem load_yields (hasher : Hasher T) (memory : Memory) (source : Source T)
    (whole : source.fault = none) :
    memory.Yields (max source.initialCapacity source.items.length)
      (HashSet.load memory hasher.hash source)
      fun loaded => loaded.Represents (FiniteSet.addAll FiniteMap.empty source.items) := by
  rw [load_eq_kind]
  exact meaning.load_yields (withHasher_represents hasher.respects) rfl memory whole

end Members

structure Restored [BEq T] (set loaded : HashSet T) : Prop where
  equal : loaded.equals set = .ok true
  equalBack : set.equals loaded = .ok true
  spelled (value : T) : loaded.get? value = set.get? value
  members : loaded.toList.Perm set.toList
  checked : loaded.table.check = .ok ()

structure RoundTrips [BEq T] [Shown T] (set : HashSet T) : Prop where
  document : set.json = .array (set.emitted.map Shown.json)
  slots : set.emitted = (List.range set.table.slotCount).filterMap fun index =>
    (set.table.slot index).map Cell.value
  once : set.emitted.Pairwise fun first second => (first == second) = false
  loads (hasher : Hasher T) (memory : Memory) (announced : Option Nat) (items : List T) :
    items.Perm set.emitted →
      (∀ loaded, HashSet.load memory hasher.hash { announced, items, fault := none } = .ok loaded →
        set.Restored loaded) ∧
      (memory.Provides (max (min (announced.getD 0) trustedItems) set.size) →
        ∃ loaded, HashSet.load memory hasher.hash { announced, items, fault := none } = .ok loaded)

theorem Represents.restored [BEq T] [EquivBEq T] {set loaded : HashSet T}
    {finite loadedFinite : FiniteSet T} (represents : set.Represents finite)
    (loadedRepresents : loaded.Represents loadedFinite)
    (same : loadedFinite.members.Perm finite.members) : set.Restored loaded := by
  refine ⟨loadedRepresents.equals_of_perm represents same,
    represents.equals_of_perm loadedRepresents same.symm, ?_, ?_,
    Table.check_iff_valid.mpr loadedRepresents.valid⟩
  · intro value
    rw [loadedRepresents.get?_eq, represents.get?_eq,
      FiniteSet.member?_congr (FiniteSet.same_of_members same)]
  · exact (loadedRepresents.members.trans same).trans represents.members.symm

theorem Represented.roundTrips [BEq T] [EquivBEq T] [Shown T] {set : HashSet T}
    (represented : set.Represented) : set.RoundTrips := by
  have listed := represented.listed
  obtain ⟨finite, represents⟩ := represented
  have emitted : set.emitted = set.toList := represents.valid.walk_front
  constructor
  case document =>
    rw [emitted]
    rfl
  case slots => exact represents.valid.walk_slots
  case once =>
    rw [emitted]
    exact listed.distinct
  case loads =>
    intro hasher memory announced items reordered
    rw [emitted] at reordered
    have length : set.size = items.length := by rw [reordered.length_eq, listed.size]
    have different : items.Pairwise fun first second => (first == second) = false :=
      reordered.symm.pairwise listed.distinct fun apart => by rwa [BEq.comm]
    have same : (FiniteSet.addAll FiniteMap.empty items).members.Perm finite.members :=
      ((FiniteSet.members_addAll different).trans reordered).trans represents.members
    obtain ⟨partly, fully⟩ := load_yields hasher memory { announced, items, fault := none } rfl
    rw [length]
    exact ⟨fun loaded done => represents.restored (partly loaded done) same, fully⟩

end HashSet

/-- Every map and every set that a caller can hold comes back from what is written of it. -/
theorem reachable_roundTrips [Key K] [EquivBEq K] [Inhabited V] [Shown V] [BEq V] [ReflBEq V]
    [BEq T] [EquivBEq T] [Shown T] {map : HashMap K V} {set : HashSet T}
    (mapReachable : (HashMap.interface K V).Reachable map)
    (setReachable : (HashSet.interface T).Reachable set) : map.RoundTrips ∧ set.RoundTrips :=
  ⟨(HashMap.interface_preserves.of_reachable mapReachable).roundTrips,
    (HashSet.interface_preserves.of_reachable setReachable).roundTrips⟩

def caselessHasher (hash : UInt64) : Hasher Caseless :=
  { hash := fun _ => hash, respects := fun _ => rfl }

def countedWords : List (Deed (HashMap.interface Caseless Int64)) :=
  [.start (HashMap.Start.withHasher (caselessHasher 7)),
    .call 0 (HashMap.Call.perform willing () (.insert ⟨"Ring"⟩ 1)),
    .call 0 (HashMap.Call.perform willing () (.insert ⟨"slot"⟩ 2)),
    .call 0 (HashMap.Call.perform willing () (.insert ⟨"RING"⟩ 3))]

def turnedWords : List (Caseless × Int64) :=
  [(⟨"slot"⟩, 2), (⟨"Ring"⟩, 3)]

def seenWords : List (Deed (HashSet.interface Caseless)) :=
  [.start (HashSet.Start.withCapacity (caselessHasher 7) willing 20),
    .call 0 (HashSet.Call.perform willing () (.insert ⟨"Ring"⟩)),
    .call 0 (HashSet.Call.perform willing () (.insert ⟨"RING"⟩))]

theorem willing_provides {demand : Nat} (small : demand < 2 ^ 32) : willing.Provides demand := by
  intro slots bound
  refine ⟨by omega, ?_, rfl⟩
  change slots * 24 < 2 ^ 63
  omega

theorem roundTrips_words :
    ∃ (map loaded : HashMap Caseless Int64) (set loadedSet : HashSet Caseless),
      (HashMap.interface Caseless Int64).performAll countedWords [] = .ok [map] ∧
        (HashSet.interface Caseless).performAll seenWords [] = .ok [set] ∧
          HashMap.load willing (caselessHasher 0).hash
              { announced := some 9, items := turnedWords, fault := none } =
            .ok loaded ∧ loaded.equals map = .ok true ∧
          HashSet.load willing (caselessHasher 0).hash
              { announced := none, items := [⟨"Ring"⟩], fault := none } = .ok loadedSet ∧
            loadedSet.equals set = .ok true := by
  obtain ⟨map, made, emitted, size⟩ :
      ∃ map, (HashMap.interface Caseless Int64).performAll countedWords [] = .ok [map] ∧
        map.emitted = [(⟨"Ring"⟩, 3), (⟨"slot"⟩, 2)] ∧ map.size = 2 := ⟨_, rfl, rfl, rfl⟩
  obtain ⟨set, setMade, setEmitted, setSize⟩ :
      ∃ set, (HashSet.interface Caseless).performAll seenWords [] = .ok [set] ∧
        set.emitted = [⟨"Ring"⟩] ∧ set.size = 1 := ⟨_, rfl, rfl, rfl⟩
  obtain ⟨trips, setTrips⟩ := reachable_roundTrips
    ⟨countedWords, _, made, List.mem_singleton_self _⟩
    ⟨seenWords, _, setMade, List.mem_singleton_self _⟩
  obtain ⟨restores, loads⟩ := trips.loads (caselessHasher 0) willing (some 9) turnedWords
    (by rw [emitted]; exact List.Perm.swap _ _ _)
  obtain ⟨setRestores, setLoads⟩ := setTrips.loads (caselessHasher 0) willing none [⟨"Ring"⟩]
    (by rw [setEmitted])
  obtain ⟨loaded, done⟩ := loads (willing_provides (by rw [size]; decide))
  obtain ⟨loadedSet, setDone⟩ := setLoads (willing_provides (by rw [setSize]; decide))
  exact ⟨map, loaded, set, loadedSet, made, setMade, done, (restores loaded done).equal, setDone,
    (setRestores loadedSet setDone).equal⟩

end RobinHood
