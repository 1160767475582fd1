import RobinHood.Proofs.RoundTrip

/-!
Filling a map or a set at once. What is announced decides how many slots there are and when there
are more, so runs are compared by what they stand for: the pairs in the order in which they came,
of which each key keeps the spelling of the first and has the value of the last.
-/

namespace RobinHood

variable {K V T : Type}

section Gathering

variable [BEq K]

/-- The first pair that has a key, with the value of the last one. -/
def gathered (pairs : List (K × V)) (key : K) : Option (K × V) :=
  (pairs.find? fun pair => pair.1 == key).map fun first =>
    (first.1, ((pairs.reverse.find? fun pair => pair.1 == key).getD first).2)

theorem map_fst_gathered (pairs : List (K × V)) (key : K) :
    (gathered pairs key).map Prod.fst = (pairs.map Prod.fst).find? (· == key) := by
  rw [gathered, Option.map_map, List.find?_map]
  rfl

theorem gathered_append (pairs : List (K × V)) (key : K) (value : V) (other : K) :
    gathered (pairs ++ [(key, value)]) other =
      if (key == other) = true then
        some (((gathered pairs other).map Prod.fst).getD key, value)
      else gathered pairs other := by
  simp only [gathered, List.find?_append, List.reverse_append, List.reverse_singleton,
    List.singleton_append, List.find?_cons, List.find?_nil]
  cases key == other with
  | true => cases pairs.find? fun pair => pair.1 == other <;> simp
  | false => simp

end Gathering

section Distinct

variable [BEq T] [EquivBEq T] {mine theirs rest : List T} {value : T}

theorem OnceEach.cons
    (once : OnceEach mine fun other => has rest other = true ∧ (other == value) = false) :
    OnceEach (value :: mine) fun other => has (value :: rest) other = true := by
  constructor
  · rw [List.pairwise_cons]
    refine ⟨?_, once.distinct⟩
    intro other member
    rw [BEq.comm]
    exact ((once.exact other).mp (has_of_mem member)).2
  · intro other
    have first (values : List T) : has (value :: values) other =
        ((other == value) || has values other) := by
      rw [BEq.comm]
      exact List.any_cons
    rw [first, first, Bool.or_eq_true, Bool.or_eq_true, once.exact]
    cases other == value <;> simp

theorem onceEach_eraseDups (values : List T) :
    OnceEach values.eraseDups fun value => has values value = true := by
  cases values with
  | nil => exact ⟨List.Pairwise.nil, fun _ => Iff.rfl⟩
  | cons value rest =>
      have later := onceEach_eraseDups (rest.filter fun other => !other == value)
      rw [List.eraseDups_cons]
      refine OnceEach.cons ⟨later.distinct, ?_⟩
      intro other
      rw [later.exact, has_filter fun same => by rw [BEq.congr_left same], Bool.and_eq_true,
        Bool.not_eq_true']
termination_by values.length
decreasing_by
  have bound := List.length_filter_le (fun other => !other == value) rest
  simp only [List.length_cons]
  omega

theorem OnceEach.length_eq {belongs : T → Prop} (once : OnceEach mine belongs)
    (other : OnceEach theirs belongs) : mine.length = theirs.length := by
  have half {mine theirs : List T} (once : OnceEach mine belongs)
      (other : OnceEach theirs belongs) : mine.length ≤ theirs.length := by
    refine length_le_of_has once.distinct ?_
    intro value member
    exact (other.exact value).mpr ((once.exact value).mp (has_of_mem member))
  exact Nat.le_antisymm (half once other) (half other once)

end Distinct

namespace FiniteMap

theorem find?_changeAt [BEq K] (finite : FiniteMap K V) (key : K) (change : V → V) (other : K) :
    (finite.changeAt key change).find? other =
      (finite.find? other).map fun pair =>
        if (pair.1 == key) = true then (pair.1, change pair.2) else pair := by
  have asked : (fun pair : K × V => pair.1 == other) ∘
      (fun pair => if (pair.1 == key) = true then (pair.1, change pair.2) else pair) =
        fun pair => pair.1 == other := by
    funext pair
    simp only [Function.comp_apply]
    split <;> rfl
  rw [find?, changeAt, List.find?_map, asked]
  rfl

structure Gathers [BEq K] (finite : FiniteMap K V) (pairs : List (K × V)) : Prop where
  find? (key : K) : finite.find? key = gathered pairs key

theorem Gathers.onceEach [BEq K] {finite : FiniteMap K V} {pairs : List (K × V)}
    (gathers : finite.Gathers pairs) :
    OnceEach finite.keys fun key => has (pairs.map Prod.fst) key = true := by
  refine ⟨finite.distinct, ?_⟩
  intro key
  rw [← isSome_get?, FiniteMap.get?, gathers.find?, Option.isSome_map, ← Option.isSome_map,
    map_fst_gathered, List.isSome_find?]
  exact Iff.rfl

variable [BEq K] [EquivBEq K] {finite : FiniteMap K V} {pairs : List (K × V)}

theorem find?_assign (finite : FiniteMap K V) (key : K) (value : V) (other : K) :
    (finite.assign key value).find? other =
      if (key == other) = true then some (((finite.find? other).map Prod.fst).getD key, value)
      else finite.find? other := by
  rw [assign]
  cases same : key == other with
  | true =>
      rw [if_pos rfl, ← finite.find?_eq_of_beq same]
      cases held : finite.find? key with
      | some pair =>
          have found := find?_eq_some_iff.mp held
          simp only [find?_changeAt, ← finite.find?_eq_of_beq same, held, Option.map_some,
            if_pos found.2, Option.getD_some]
      | none =>
          simp only [find?, entries_insertIfNew held, List.find?_cons, same, Option.map_none,
            Option.getD_none]
  | false =>
      simp only [Bool.false_eq_true, if_false]
      cases held : finite.find? key with
      | some pair =>
          simp only [find?_changeAt]
          cases found : finite.find? other with
          | none => rfl
          | some holder =>
              have apart : (holder.1 == key) = false := by
                rw [BEq.congr_left (find?_eq_some_iff.mp found).2, BEq.comm, same]
              rw [Option.map_some, apart, if_neg Bool.false_ne_true]
      | none => simp only [find?, entries_insertIfNew held, List.find?_cons, same]

namespace Gathers

theorem of_perm (same : pairs.Perm finite.entries) : finite.Gathers pairs := by
  constructor
  intro key
  have ordered : FiniteMap.Same (finite.reorder pairs same) finite := ⟨same⟩
  have turned : FiniteMap.Same (finite.reorder pairs.reverse (pairs.reverse_perm.trans same))
      finite := ⟨pairs.reverse_perm.trans same⟩
  have first : (pairs.find? fun pair => pair.1 == key) = finite.find? key := ordered.find?_eq key
  have last : (pairs.reverse.find? fun pair => pair.1 == key) = finite.find? key :=
    turned.find?_eq key
  rw [gathered, first, last]
  cases finite.find? key <;> rfl

theorem assign (gathers : finite.Gathers pairs) (key : K) (value : V) :
    (finite.assign key value).Gathers (pairs ++ [(key, value)]) := by
  constructor
  intro other
  rw [find?_assign, gathered_append, gathers.find?]

theorem assignAll (gathers : finite.Gathers pairs) (more : List (K × V)) :
    (finite.assignAll more).Gathers (pairs ++ more) := by
  induction more generalizing finite pairs with
  | nil => rwa [List.append_nil]
  | cons pair rest ih =>
      rw [List.append_cons]
      exact ih (gathers.assign pair.1 pair.2)

theorem size_eq (gathers : finite.Gathers pairs) :
    finite.size = (pairs.map Prod.fst).eraseDups.length := by
  rw [← length_keys]
  exact gathers.onceEach.length_eq (onceEach_eraseDups _)

end Gathers

end FiniteMap

namespace FiniteSet

theorem member?_of_gathers [BEq T] {set : FiniteSet T} {values : List T}
    (gathers : FiniteMap.Gathers set (values.map fun value => (value, ())))
    (value : T) : set.member? value = values.find? (· == value) := by
  rw [member?, gathers.find?, map_fst_gathered, fst_withUnit]

variable [BEq T] [EquivBEq T] {set : FiniteSet T} {values : List T}

theorem add_eq_assign (set : FiniteSet T) (value : T) : add set value = set.assign value () := by
  cases found : set.find? value with
  | none => simp only [add, FiniteMap.assign, found]
  | some pair =>
      have kept : set.changeAt value (fun _ => ()) = set := by
        apply FiniteMap.ext
        conv_rhs => rw [← List.map_id set.entries]
        apply List.map_congr_left
        intro pair member
        split <;> rfl
      rw [add, FiniteMap.insertIfNew_of_present found, FiniteMap.assign, found]
      exact kept.symm

theorem addAll_eq_assignAll (set : FiniteSet T) (values : List T) :
    addAll set values = set.assignAll (values.map fun value => (value, ())) := by
  rw [addAll, FiniteMap.assignAll, List.foldl_map]
  congr 1
  funext set value
  exact add_eq_assign set value

theorem gathers_addAll (same : values.Perm set.members) (more : List T) :
    FiniteMap.Gathers (addAll set more) ((values ++ more).map fun value => (value, ())) := by
  have before : FiniteMap.Gathers set (values.map fun value => (value, ())) := by
    refine FiniteMap.Gathers.of_perm ?_
    rw [entries_eq]
    exact same.map _
  rw [addAll_eq_assignAll, List.map_append]
  exact before.assignAll _

end FiniteSet

namespace HashMap

variable [BEq K]

/-- Two maps that store the same keys in the same spellings with the same values. -/
structure SamePairs (map other : HashMap K V) : Prop where
  finite : ∃ finite, map.Represents finite ∧ other.Represents finite
  entry (key : K) : map.getEntry? key = other.getEntry? key
  pairs : map.toList.Perm other.toList

/-- What inserting pairs one at a time makes of a map. -/
structure Gathered (map : HashMap K V) (pairs : List (K × V)) (result : HashMap K V) : Prop where
  oneByOne (memory : Memory) :
    memory.Yields (map.size + pairs.length) (map.insertAll memory pairs) result.SamePairs
  entry (key : K) : result.getEntry? key = .ok (gathered (map.toList ++ pairs) key)
  size : result.size = ((map.toList ++ pairs).map Prod.fst).eraseDups.length
  checked : result.table.check = .ok ()

/-- Whatever is announced, filling a map at once gives what inserting its pairs one by one does. -/
structure BulkLoads (map : HashMap K V) : Prop where
  extend (memory : Memory) (announced : Nat) (pairs : List (K × V)) :
    memory.Yields (map.size + (announced + pairs.length)) (map.extend memory announced pairs)
      (map.Gathered pairs)
  ofList (hasher : Hasher K) (memory : Memory) (announced : Nat) (pairs : List (K × V)) :
    memory.Yields (announced + pairs.length) (HashMap.ofList memory hasher.hash announced pairs)
      ((withHasher hasher.hash).Gathered pairs)
  load (hasher : Hasher K) (memory : Memory) (source : Source (K × V)) : source.fault = none →
    memory.Yields (max source.initialCapacity source.items.length)
      (HashMap.load memory hasher.hash source) ((withHasher hasher.hash).Gathered source.items)
  loadedWhole (hasher : Hasher K) (memory : Memory) (source : Source (K × V))
    (result : HashMap K V) :
    HashMap.load memory hasher.hash source = .ok result → source.fault = none

variable [EquivBEq K] {map result : HashMap K V} {finite : FiniteMap K V}

theorem Represents.gathered (represents : map.Represents finite) {pairs : List (K × V)}
    (after : result.Represents (finite.assignAll pairs)) : map.Gathered pairs result := by
  have gathers : (finite.assignAll pairs).Gathers (map.toList ++ pairs) :=
    (FiniteMap.Gathers.of_perm represents.entries).assignAll pairs
  constructor
  case oneByOne =>
    intro memory
    rw [represents.size_eq]
    refine (represents.insertAll_allows memory pairs).yields ?_
    intro single singleAfter
    refine ⟨⟨_, after, singleAfter⟩, ?_, after.entries.trans singleAfter.entries.symm⟩
    intro key
    rw [after.getEntry?_eq, singleAfter.getEntry?_eq]
  case entry =>
    intro key
    rw [after.getEntry?_eq, gathers.find?]
  case size => rw [after.size_eq, gathers.size_eq]
  case checked => exact Table.check_iff_valid.mpr after.valid

theorem Represents.extend_allows (represents : map.Represents finite) (memory : Memory)
    (announced : Nat) (pairs : List (K × V)) :
    memory.Allows (finite.size + (announced + pairs.length)) (map.extend memory announced pairs)
      fun result => result.Represents (finite.assignAll pairs) := by
  rw [extend_eq]
  exact meaning.extend_allows represents memory announced pairs

theorem Represents.bulkLoads (represents : map.Represents finite) : map.BulkLoads where
  extend memory announced pairs := by
    rw [represents.size_eq]
    exact (represents.extend_allows memory announced pairs).yields fun _ => represents.gathered
  ofList hasher memory announced pairs :=
    have nothing := withHasher_represents hasher.respects
    (meaning.extend_yields nothing rfl memory announced pairs).imp fun _ => nothing.gathered
  load hasher memory _ whole :=
    (load_yields hasher memory _ whole).imp
      fun _ => (withHasher_represents hasher.respects).gathered
  loadedWhole hasher memory source _ done := by
    rw [load_eq_kind] at done
    exact Kind.fault_of_load done

end HashMap

namespace HashSet

variable [BEq T]

structure SameMembers (set other : HashSet T) : Prop where
  finite : ∃ finite, set.Represents finite ∧ other.Represents finite
  member (value : T) : set.get? value = other.get? value
  members : set.toList.Perm other.toList

/-- What inserting values one at a time makes of a set: the first of equal values is the member. -/
structure Gathered (set : HashSet T) (values : List T) (result : HashSet T) : Prop where
  oneByOne (memory : Memory) :
    memory.Yields (set.size + values.length) (set.insertAll memory values) result.SameMembers
  member (value : T) : result.get? value = .ok ((set.toList ++ values).find? (· == value))
  size : result.size = (set.toList ++ values).eraseDups.length
  checked : result.table.check = .ok ()

structure BulkLoads (set : HashSet T) : Prop where
  extend (memory : Memory) (announced : Nat) (values : List T) :
    memory.Yields (set.size + (announced + values.length)) (set.extend memory announced values)
      (set.Gathered values)
  ofList (hasher : Hasher T) (memory : Memory) (announced : Nat) (values : List T) :
    memory.Yields (announced + values.length) (HashSet.ofList memory hasher.hash announced values)
      ((withHasher hasher.hash).Gathered values)
  load (hasher : Hasher T) (memory : Memory) (source : Source T) : source.fault = none →
    memory.Yields (max source.initialCapacity source.items.length)
      (HashSet.load memory hasher.hash source) ((withHasher hasher.hash).Gathered source.items)
  loadedWhole (hasher : Hasher T) (memory : Memory) (source : Source T) (result : HashSet T) :
    HashSet.load memory hasher.hash source = .ok result → source.fault = none

variable [EquivBEq T] {set result : HashSet T} {finite : FiniteSet T}

theorem Represents.gathered (represents : set.Represents finite) {values : List T}
    (after : result.Represents (FiniteSet.addAll finite values)) : set.Gathered values result := by
  have gathers := FiniteSet.gathers_addAll represents.members values
  constructor
  case oneByOne =>
    intro memory
    rw [represents.size_eq]
    refine (represents.insertAll_allows memory values).yields ?_
    intro single singleAfter
    refine ⟨⟨_, after, singleAfter⟩, ?_, after.members.trans singleAfter.members.symm⟩
    intro value
    rw [after.get?_eq, singleAfter.get?_eq]
  case member =>
    intro value
    rw [after.get?_eq, FiniteSet.member?_of_gathers gathers]
  case size => rw [after.size_eq, gathers.size_eq, FiniteSet.fst_withUnit]
  case checked => exact Table.check_iff_valid.mpr after.valid

theorem Represents.bulkLoads (represents : set.Represents finite) : set.BulkLoads where
  extend memory announced values := by
    rw [represents.size_eq]
    exact (represents.extend_allows memory announced values).yields fun _ => represents.gathered
  ofList hasher memory announced values :=
    have nothing := withHasher_represents hasher.respects
    (meaning.extend_yields nothing rfl memory announced values).imp fun _ => nothing.gathered
  load hasher memory _ whole :=
    (load_yields hasher memory _ whole).imp
      fun _ => (withHasher_represents hasher.respects).gathered
  loadedWhole hasher memory source _ done := by
    rw [load_eq_kind] at done
    exact Kind.fault_of_load done

end HashSet

/-- Every map and every set that a caller can hold is filled at once as one by one. -/
theorem reachable_bulkLoads [BEq K] [EquivBEq K] [Inhabited V] [BEq T] [EquivBEq T]
    {map : HashMap K V} {set : HashSet T} (mapReachable : (HashMap.interface K V).Reachable map)
    (setReachable : (HashSet.interface T).Reachable set) : map.BulkLoads ∧ set.BulkLoads := by
  obtain ⟨_, represents⟩ := HashMap.interface_preserves.of_reachable mapReachable
  obtain ⟨_, setRepresents⟩ := HashSet.interface_preserves.of_reachable setReachable
  exact ⟨represents.bulkLoads, setRepresents.bulkLoads⟩

def moreWords : List (Caseless × Int64) :=
  [(⟨"RING"⟩, 5), (⟨"hash"⟩, 1), (⟨"Hash"⟩, 4)]

theorem bulkLoads_words :
    ∃ (map result single loaded : HashMap Caseless Int64) (set filled : HashSet Caseless),
      (HashMap.interface Caseless Int64).performAll countedWords [] = .ok [map] ∧
        map.extend willing 99 moreWords = .ok result ∧ result.table.slotCount = 64 ∧
          map.insertAll willing moreWords = .ok single ∧ single.table.slotCount = 16 ∧
            result.SamePairs single ∧ result.getEntry? ⟨"ring"⟩ = .ok (some (⟨"Ring"⟩, 5)) ∧
      HashMap.load willing (caselessHasher 0).hash
          { announced := some 1, items := moreWords, fault := none } = .ok loaded ∧
        loaded.getEntry? ⟨"HASH"⟩ = .ok (some (⟨"hash"⟩, 4)) ∧ loaded.size = 2 ∧
      (HashSet.interface Caseless).performAll seenWords [] = .ok [set] ∧
        set.extend willing 0 [⟨"hash"⟩, ⟨"RING"⟩] = .ok filled ∧
          filled.get? ⟨"ring"⟩ = .ok (some ⟨"Ring"⟩) ∧ filled.size = 2 := by
  obtain ⟨map, result, single, loaded, made, extended, slots, inserted, fewer, read, pairs⟩ :
      ∃ map result single loaded : HashMap Caseless Int64,
        (HashMap.interface Caseless Int64).performAll countedWords [] = .ok [map] ∧
          map.extend willing 99 moreWords = .ok result ∧ result.table.slotCount = 64 ∧
            map.insertAll willing moreWords = .ok single ∧ single.table.slotCount = 16 ∧
              HashMap.load willing (caselessHasher 0).hash
                  { announced := some 1, items := moreWords, fault := none } = .ok loaded ∧
                map.toList = [(⟨"Ring"⟩, 3), (⟨"slot"⟩, 2)] :=
    ⟨_, _, _, _, rfl, rfl, rfl, rfl, rfl, rfl, rfl⟩
  obtain ⟨set, filled, setMade, setExtended, members⟩ :
      ∃ set filled : HashSet Caseless,
        (HashSet.interface Caseless).performAll seenWords [] = .ok [set] ∧
          set.extend willing 0 [⟨"hash"⟩, ⟨"RING"⟩] = .ok filled ∧ set.toList = [⟨"Ring"⟩] :=
    ⟨_, _, rfl, rfl, rfl⟩
  obtain ⟨loads, setLoads⟩ := reachable_bulkLoads
    ⟨countedWords, _, made, List.mem_singleton_self _⟩
    ⟨seenWords, _, setMade, List.mem_singleton_self _⟩
  have gathered := (loads.extend willing 99 moreWords).correct result extended
  have loadedGathered := (loads.load (caselessHasher 0) willing
    { announced := some 1, items := moreWords, fault := none } rfl).correct loaded read
  have setGathered := (setLoads.extend willing 0 [⟨"hash"⟩, ⟨"RING"⟩]).correct filled setExtended
  refine ⟨map, result, single, loaded, set, filled, made, extended, slots, inserted, fewer,
    (gathered.oneByOne willing).correct single inserted, ?_, read, loadedGathered.entry _,
    loadedGathered.size, setMade, setExtended, ?_, ?_⟩
  · rw [gathered.entry, pairs]
    rfl
  · rw [setGathered.member, members]
    rfl
  · rw [setGathered.size, members]
    rfl

end RobinHood
