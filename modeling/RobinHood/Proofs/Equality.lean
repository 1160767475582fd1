import RobinHood.Proofs.Determinacy
import RobinHood.Proofs.SetAlgebra

/-!
Two maps are compared by looking up the pairs of one in the other. As no key is twice in a map,
equal sizes make up for the walk over the other map: were one of its keys missed, it would be the
larger.
-/

namespace RobinHood

variable {K V T : Type}

instance equivBEq_option [BEq V] [EquivBEq V] : EquivBEq (Option V) where
  symm {first second} same := by
    cases first <;> cases second <;> simp_all [BEq.comm]
  trans {first second third} same next := by
    cases first <;> cases second <;> cases third <;> simp_all
    exact BEq.trans same next

theorem isSome_eq_of_beq [BEq V] {first second : Option V} (same : (first == second) = true) :
    first.isSome = second.isSome := by
  cases first <;> cases second <;> simp_all

theorem has_eq_of_length_le [BEq T] [EquivBEq T] {mine theirs : List T}
    (distinct : mine.Pairwise fun first second => (first == second) = false)
    (found : ∀ value ∈ mine, has theirs value = true) (fits : theirs.length ≤ mine.length)
    (value : T) : has mine value = has theirs value := by
  rw [Bool.eq_iff_iff]
  constructor
  · intro held
    obtain ⟨member, inside, same⟩ := has_iff.mp held
    rw [← has_congr same]
    exact found member inside
  · intro held
    obtain ⟨member, inside, same⟩ := has_iff.mp held
    rw [← has_congr same]
    -- A member that is not here could be put in front, and all would still be found there.
    by_contra missing
    have apart : ∀ other ∈ mine, (member == other) = false := by
      intro other present
      by_contra equal
      exact missing (has_iff.mpr ⟨other, present, BEq.symm (by simpa using equal)⟩)
    have longer : (member :: mine).length ≤ theirs.length :=
      length_le_of_has (List.pairwise_cons.mpr ⟨apart, distinct⟩)
        (List.forall_mem_cons.mpr ⟨has_of_mem inside, found⟩)
    rw [List.length_cons] at longer
    omega

namespace FiniteMap

section Keys

variable [BEq K]

def keys (map : FiniteMap K V) : List K :=
  map.entries.map Prod.fst

/-- Each key has equal values in both maps, or is in neither. -/
def Agrees [BEq V] (first second : FiniteMap K V) : Prop :=
  ∀ key, (first.get? key == second.get? key) = true

theorem length_keys (map : FiniteMap K V) : map.keys.length = map.size :=
  List.length_map _

theorem isSome_get? (map : FiniteMap K V) (key : K) : (map.get? key).isSome = has map.keys key := by
  rw [get?, Option.isSome_map, find?, List.isSome_find?, has, keys, List.any_map]
  rfl

namespace Agrees

variable [BEq V] [EquivBEq V] {first second third : FiniteMap K V}

theorem refl (map : FiniteMap K V) : map.Agrees map :=
  fun _ => BEq.rfl

theorem symm (agrees : first.Agrees second) : second.Agrees first :=
  fun key => BEq.symm (agrees key)

theorem trans (agrees : first.Agrees second) (next : second.Agrees third) : first.Agrees third :=
  fun key => BEq.trans (agrees key) (next key)

end Agrees

end Keys

variable [BEq K] [EquivBEq K] {first second : FiniteMap K V}

theorem find?_eq_of_beq (map : FiniteMap K V) {key other : K} (same : (key == other) = true) :
    map.find? key = map.find? other := by
  rw [find?, find?]
  congr 1
  funext pair
  exact BEq.congr_right same

theorem get?_eq_of_beq (map : FiniteMap K V) {key other : K} (same : (key == other) = true) :
    map.get? key = map.get? other := by
  rw [get?, get?, map.find?_eq_of_beq same]

theorem get?_of_mem {pair : K × V} (member : pair ∈ first.entries) :
    first.get? pair.1 = some pair.2 := by
  rw [get?, find?_eq_some_iff.mpr ⟨member, BEq.rfl⟩]
  rfl

variable [BEq V]

theorem Agrees.found (agrees : first.Agrees second) :
    ∀ key ∈ first.keys, has second.keys key = true := by
  intro key member
  rw [← isSome_get?, ← isSome_eq_of_beq (agrees key), isSome_get?]
  exact has_of_mem member

variable [EquivBEq V]

theorem Agrees.size_eq (agrees : first.Agrees second) : first.size = second.size := by
  rw [← length_keys, ← length_keys]
  exact Nat.le_antisymm (length_le_of_has first.distinct agrees.found)
    (length_le_of_has second.distinct agrees.symm.found)

theorem agrees_iff : first.Agrees second ↔
    first.size = second.size ∧
      ∀ pair ∈ first.entries, (second.get? pair.1 == some pair.2) = true := by
  constructor
  · intro agrees
    refine ⟨agrees.size_eq, ?_⟩
    intro pair member
    rw [← get?_of_mem member]
    exact agrees.symm pair.1
  · rintro ⟨size, found⟩ key
    have present : ∀ key ∈ first.keys, has second.keys key = true := by
      intro key member
      obtain ⟨pair, inside, rfl⟩ := List.mem_map.mp member
      rw [← isSome_get?, isSome_eq_of_beq (found pair inside)]
      rfl
    have fits : second.keys.length ≤ first.keys.length := by
      rw [length_keys, length_keys, size]
    have everywhere := has_eq_of_length_le first.distinct present fits key
    cases held : first.find? key with
    | some pair =>
        obtain ⟨member, same⟩ := find?_eq_some_iff.mp held
        rw [← first.get?_eq_of_beq same, ← second.get?_eq_of_beq same, get?_of_mem member]
        exact BEq.symm (found pair member)
    | none =>
        have missing : first.get? key = none := by rw [get?, held]; rfl
        have absent : has first.keys key = false := by rw [← isSome_get?, missing]; rfl
        have missingToo : second.get? key = none := by
          rw [← Option.isNone_iff_eq_none, ← Option.not_isSome, isSome_get?, ← everywhere]
          exact congrArg not absent
        rw [missing, missingToo]
        rfl

end FiniteMap

/-- Containers compare equal exactly if they stand for the same; so it does not matter which of the
two is walked. -/
structure ComparesMeaning {C F : Type} (held : C → Prop) (stands : C → F → Prop)
    (same : F → F → Prop) (equals : C → C → Except TableError Bool) : Prop where
  meaning (container : C) : held container → ∃ finite, stands container finite
  exact (first second : C) : held first → held second →
    ∃ answer, equals first second = .ok answer ∧ equals second first = .ok answer ∧
      ∀ firstFinite secondFinite, stands first firstFinite → stands second secondFinite →
        (answer = true ↔ same firstFinite secondFinite)
  equivalence : Equivalence fun first second : { container : C // held container } =>
    equals first second = .ok true

theorem comparesMeaning_of_decides {C F : Type} {held : C → Prop} {stands : C → F → Prop}
    {same : F → F → Prop} {equals : C → C → Except TableError Bool}
    (meaning : ∀ container, held container → ∃ finite, stands container finite)
    (equivalence : Equivalence same)
    (decides : ∀ {first second firstFinite secondFinite}, stands first firstFinite →
      stands second secondFinite → ∃ answer, equals first second = .ok answer ∧
        (answer = true ↔ same firstFinite secondFinite)) :
    ComparesMeaning held stands same equals := by
  have equal_iff {first second : C} {firstFinite secondFinite : F}
      (represents : stands first firstFinite) (otherRepresents : stands second secondFinite) :
      equals first second = .ok true ↔ same firstFinite secondFinite := by
    obtain ⟨answer, answered, correct⟩ := decides represents otherRepresents
    rw [answered, ← correct, Except.ok.injEq]
  constructor
  case meaning => exact meaning
  case exact =>
    intro first second firstHeld secondHeld
    obtain ⟨firstFinite, represents⟩ := meaning first firstHeld
    obtain ⟨secondFinite, otherRepresents⟩ := meaning second secondHeld
    obtain ⟨answer, answered, correct⟩ := decides represents otherRepresents
    obtain ⟨back, backAnswered, backCorrect⟩ := decides otherRepresents represents
    have symmetric : back = answer := by
      rw [Bool.eq_iff_iff, backCorrect, correct]
      exact ⟨equivalence.symm, equivalence.symm⟩
    refine ⟨answer, answered, symmetric ▸ backAnswered, ?_⟩
    intro firstFinite secondFinite represents otherRepresents
    rw [← equal_iff represents otherRepresents, answered, Except.ok.injEq]
  case equivalence =>
    constructor
    · rintro ⟨container, isHeld⟩
      obtain ⟨finite, represents⟩ := meaning container isHeld
      exact (equal_iff represents represents).mpr (equivalence.refl finite)
    · rintro ⟨first, firstHeld⟩ ⟨second, secondHeld⟩ equal
      obtain ⟨firstFinite, represents⟩ := meaning first firstHeld
      obtain ⟨secondFinite, otherRepresents⟩ := meaning second secondHeld
      exact (equal_iff otherRepresents represents).mpr
        (equivalence.symm ((equal_iff represents otherRepresents).mp equal))
    · rintro ⟨first, firstHeld⟩ ⟨second, secondHeld⟩ ⟨third, thirdHeld⟩ equal next
      obtain ⟨firstFinite, represents⟩ := meaning first firstHeld
      obtain ⟨secondFinite, between⟩ := meaning second secondHeld
      obtain ⟨thirdFinite, otherRepresents⟩ := meaning third thirdHeld
      exact (equal_iff represents otherRepresents).mpr (equivalence.trans
        ((equal_iff represents between).mp equal) ((equal_iff between otherRepresents).mp next))

theorem HashMap.Represents.equals_eq [BEq K] [EquivBEq K] [BEq V] {map other : HashMap K V}
    {finite otherFinite : FiniteMap K V} (represents : map.Represents finite)
    (otherRepresents : other.Represents otherFinite) :
    map.equals other = .ok (decide (finite.size = otherFinite.size) &&
      map.toList.all fun pair => otherFinite.get? pair.1 == some pair.2) := by
  have each (pair : K × V) : (do return (← other.get? pair.1) == some pair.2 :
      Except TableError Bool) = .ok (otherFinite.get? pair.1 == some pair.2) := by
    rw [otherRepresents.get?_eq]
    rfl
  rw [equals, represents.size_eq, otherRepresents.size_eq]
  split
  next differs => rw [decide_eq_false differs, Bool.false_and]
  next equal =>
    rw [decide_eq_true (not_not.mp equal), Bool.true_and]
    exact allM_of_ok each map.toList

theorem HashMap.Represents.equals_decides [BEq K] [EquivBEq K] [BEq V] [EquivBEq V]
    {map other : HashMap K V} {finite otherFinite : FiniteMap K V}
    (represents : map.Represents finite) (otherRepresents : other.Represents otherFinite) :
    ∃ answer, map.equals other = .ok answer ∧ (answer = true ↔ finite.Agrees otherFinite) := by
  refine ⟨_, represents.equals_eq otherRepresents, ?_⟩
  rw [Bool.and_eq_true, decide_eq_true_eq, List.all_eq_true, FiniteMap.agrees_iff]
  refine and_congr_right fun _ => ⟨?_, ?_⟩
  · intro found pair member
    exact found pair (represents.entries.symm.subset member)
  · intro found pair member
    exact found pair (represents.entries.subset member)

theorem HashSet.Represents.equals_eq [BEq T] [EquivBEq T] {set other : HashSet T}
    {finite otherFinite : FiniteSet T} (represents : set.Represents finite)
    (otherRepresents : other.Represents otherFinite) :
    set.equals other = .ok (decide (finite.size = otherFinite.size) &&
      set.toList.all fun value => (otherFinite.member? value).isSome) := by
  rw [equals, represents.size_eq, otherRepresents.size_eq]
  split
  next differs => rw [decide_eq_false differs, Bool.false_and]
  next equal =>
    rw [decide_eq_true (not_not.mp equal), Bool.true_and]
    exact allM_of_ok otherRepresents.contains_eq set.toList

namespace FiniteSet

variable [BEq T] {first second : FiniteSet T}

/-- Each value is in both sets, maybe in different spellings, or in neither. -/
def SameValues (first second : FiniteSet T) : Prop :=
  ∀ value, has first.members value = has second.members value

theorem sameValues_iff : first.SameValues second ↔ first.Agrees second := by
  refine forall_congr' fun value => ?_
  change has first.keys value = has second.keys value ↔ _
  rw [← FiniteMap.isSome_get?, ← FiniteMap.isSome_get?]
  cases first.get? value <;> cases second.get? value <;> simp

theorem get?_beq_unit (value : T) :
    (first.get? value == some ()) = (first.member? value).isSome := by
  rw [FiniteMap.get?, member?]
  cases first.find? value <;> rfl

theorem sameValues_equivalence : Equivalence (SameValues (T := T)) where
  refl _ _ := rfl
  symm same value := (same value).symm
  trans same next value := (same value).trans (next value)

end FiniteSet

theorem HashSet.Represents.equals_decides [BEq T] [EquivBEq T] {set other : HashSet T}
    {finite otherFinite : FiniteSet T} (represents : set.Represents finite)
    (otherRepresents : other.Represents otherFinite) :
    ∃ answer, set.equals other = .ok answer ∧ (answer = true ↔ finite.SameValues otherFinite) := by
  refine ⟨_, represents.equals_eq otherRepresents, ?_⟩
  rw [Bool.and_eq_true, decide_eq_true_eq, List.all_eq_true, FiniteSet.sameValues_iff,
    FiniteMap.agrees_iff, FiniteSet.entries_eq, List.forall_mem_map]
  simp only [FiniteSet.get?_beq_unit]
  refine and_congr_right fun _ => ⟨?_, ?_⟩
  · intro found value member
    exact found value (represents.members.symm.subset member)
  · intro found value member
    exact found value (represents.members.subset member)

/-- Any two maps, and any two sets, that callers can hold are compared by what they stand for. -/
theorem reachable_comparesMeaning [BEq K] [EquivBEq K] [BEq V] [EquivBEq V] [Inhabited V] [BEq T]
    [EquivBEq T] :
    ComparesMeaning (HashMap.interface K V).Reachable HashMap.Represents FiniteMap.Agrees
        HashMap.equals ∧
      ComparesMeaning (HashSet.interface T).Reachable HashSet.Represents FiniteSet.SameValues
        HashSet.equals := by
  constructor
  · refine comparesMeaning_of_decides ?_ ⟨FiniteMap.Agrees.refl, FiniteMap.Agrees.symm,
      FiniteMap.Agrees.trans⟩ HashMap.Represents.equals_decides
    intro map reachable
    exact HashMap.interface_preserves.of_reachable reachable
  · refine comparesMeaning_of_decides ?_ FiniteSet.sameValues_equivalence
      HashSet.Represents.equals_decides
    intro set reachable
    exact HashSet.interface_preserves.of_reachable reachable

def threeGlossaries : List (Deed (HashMap.interface Caseless Caseless)) :=
  [.start (HashMap.Start.ofList HashSet.byLength willing 2
      [(⟨"Ring"⟩, ⟨"band"⟩), (⟨"hash"⟩, ⟨"digest"⟩)]),
    .start (HashMap.Start.withCapacity HashSet.alwaysThree willing 20),
    .call 1 (HashMap.Call.perform willing () (.insert ⟨"HASH"⟩ ⟨"dish"⟩)),
    .call 1 (HashMap.Call.perform willing () (.insert ⟨"ring"⟩ ⟨"Band"⟩)),
    .call 1 (HashMap.Call.perform willing () (.insert ⟨"Hash"⟩ ⟨"DIGEST"⟩)),
    .start (HashMap.Start.ofList HashSet.byLength willing 0
      [(⟨"hash"⟩, ⟨"dish"⟩), (⟨"ring"⟩, ⟨"band"⟩)])]

def twoRings : List (Deed (HashSet.interface Caseless)) :=
  [.start (HashSet.Start.withCapacity HashSet.byLength willing 20),
    .call 0 (HashSet.Call.perform willing () (.insert ⟨"Ring"⟩)),
    .start (HashSet.Start.ofList HashSet.alwaysThree willing 1 [⟨"RING"⟩])]

theorem comparesMeaning_spellings :
    ∃ (first second third : HashMap Caseless Caseless) (set other : HashSet Caseless),
      (HashMap.interface Caseless Caseless).performAll threeGlossaries [] =
          .ok [first, second, third] ∧
        first.table.slotCount = 16 ∧ second.table.slotCount = 32 ∧
          first.equals second = .ok true ∧ second.equals first = .ok true ∧
            first.equals third = .ok false ∧ third.equals first = .ok false ∧
      (HashSet.interface Caseless).performAll twoRings [] = .ok [set, other] ∧
        set.equals other = .ok true ∧ other.equals set = .ok true := by
  obtain ⟨first, second, third, made, slots, otherSlots, equal, differs⟩ :
      ∃ first second third : HashMap Caseless Caseless,
        (HashMap.interface Caseless Caseless).performAll threeGlossaries [] =
            .ok [first, second, third] ∧
          first.table.slotCount = 16 ∧ second.table.slotCount = 32 ∧
            first.equals second = .ok true ∧ first.equals third = .ok false :=
    ⟨_, _, _, rfl, rfl, rfl, rfl, rfl⟩
  obtain ⟨set, other, setsMade, setsEqual⟩ :
      ∃ set other : HashSet Caseless,
        (HashSet.interface Caseless).performAll twoRings [] = .ok [set, other] ∧
          set.equals other = .ok true := ⟨_, _, rfl, rfl⟩
  obtain ⟨maps, sets⟩ := reachable_comparesMeaning (K := Caseless) (V := Caseless) (T := Caseless)
  have firstHeld : (HashMap.interface Caseless Caseless).Reachable first :=
    ⟨threeGlossaries, _, made, by simp⟩
  have secondHeld : (HashMap.interface Caseless Caseless).Reachable second :=
    ⟨threeGlossaries, _, made, by simp⟩
  have thirdHeld : (HashMap.interface Caseless Caseless).Reachable third :=
    ⟨threeGlossaries, _, made, by simp⟩
  have setHeld : (HashSet.interface Caseless).Reachable set := ⟨twoRings, _, setsMade, by simp⟩
  have otherHeld : (HashSet.interface Caseless).Reachable other := ⟨twoRings, _, setsMade, by simp⟩
  obtain ⟨answer, answered, back, _⟩ := maps.exact first third firstHeld thirdHeld
  rw [differs] at answered
  obtain rfl := Except.ok.inj answered
  exact ⟨first, second, third, set, other, made, slots, otherSlots, equal,
    maps.equivalence.symm (x := ⟨first, firstHeld⟩) (y := ⟨second, secondHeld⟩) equal, differs,
    back, setsMade, setsEqual,
    sets.equivalence.symm (x := ⟨set, setHeld⟩) (y := ⟨other, otherHeld⟩) setsEqual⟩

end RobinHood
