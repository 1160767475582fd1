import RobinHood.HashSet.Algebra
import RobinHood.Proofs.Keyed

/-!
The combinations of two sets, each made and walked on its own, as operations on the lists of their
members. No two members of a set are equal, so the common members of two sets are as many in one
spelling as in the other.
-/

namespace RobinHood

section Choosing

variable {T : Type}

theorem filterM_of_ok {test : T → Except TableError Bool} {passes : T → Bool}
    (same : ∀ value, test value = .ok (passes value)) (values : List T) :
    values.filterM test = .ok (values.filter passes) := by
  have walked (rest kept : List T) :
      rest.filterAuxM test kept = .ok ((rest.filter passes).reverse ++ kept) := by
    induction rest generalizing kept with
    | nil => rfl
    | cons value rest ih =>
        rw [List.filterAuxM, same]
        cases passed : passes value with
        | true =>
            rw [List.filter_cons_of_pos passed, List.reverse_cons, List.append_assoc]
            exact ih (value :: kept)
        | false =>
            rw [List.filter_cons_of_neg (by simp [passed])]
            exact ih kept
  rw [List.filterM, walked values []]
  change Except.ok ((values.filter passes).reverse ++ []).reverse = _
  rw [List.append_nil, List.reverse_reverse]

theorem allM_of_ok {test : T → Except TableError Bool} {passes : T → Bool}
    (same : ∀ value, test value = .ok (passes value)) (values : List T) :
    values.allM test = .ok (values.all passes) := by
  rw [show test = fun value => pure (passes value) from funext same]
  exact List.allM_pure

end Choosing

/-- Whether a list has a value, in any spelling. -/
def has {T : Type} [BEq T] (values : List T) (value : T) : Bool :=
  values.any (· == value)

/-- A list without two equal values that has a value exactly if it belongs. -/
structure OnceEach {T : Type} [BEq T] (values : List T) (belongs : T → Prop) : Prop where
  distinct : values.Pairwise fun first second => (first == second) = false
  exact (value : T) : has values value = true ↔ belongs value

section Lists

variable {T : Type} [BEq T] {mine theirs : List T} {value : T}

theorem has_iff : has mine value = true ↔ ∃ member ∈ mine, (member == value) = true :=
  List.any_eq_true

theorem has_append : has (mine ++ theirs) value = (has mine value || has theirs value) :=
  List.any_append

theorem has_filter {test : T → Bool}
    (respects : ∀ {first second : T}, (first == second) = true → test first = test second) :
    has (mine.filter test) value = (has mine value && test value) := by
  rw [Bool.eq_iff_iff, Bool.and_eq_true, has_iff, has_iff]
  constructor
  · rintro ⟨member, present, equal⟩
    obtain ⟨inside, passed⟩ := List.mem_filter.mp present
    exact ⟨⟨member, inside, equal⟩, respects equal ▸ passed⟩
  · rintro ⟨⟨member, inside, equal⟩, passed⟩
    exact ⟨member, List.mem_filter.mpr ⟨inside, respects equal ▸ passed⟩, equal⟩

variable [EquivBEq T]

theorem has_of_mem (member : value ∈ mine) : has mine value = true :=
  has_iff.mpr ⟨value, member, BEq.rfl⟩

theorem has_congr {other : T} (same : (value == other) = true) :
    has mine value = has mine other := by
  rw [Bool.eq_iff_iff, has_iff, has_iff]
  constructor
  · rintro ⟨member, present, equal⟩
    exact ⟨member, present, BEq.trans equal same⟩
  · rintro ⟨member, present, equal⟩
    exact ⟨member, present, BEq.trans equal (BEq.symm same)⟩

theorem length_le_of_has (distinct : mine.Pairwise fun first second => (first == second) = false)
    (found : ∀ value ∈ mine, has theirs value = true) : mine.length ≤ theirs.length := by
  -- Each value takes away the one it is found as; no other value is found as that one.
  induction mine generalizing theirs with
  | nil => exact Nat.zero_le _
  | cons value rest ih =>
      rw [List.pairwise_cons] at distinct
      obtain ⟨member, present, equal⟩ := has_iff.mp (found value List.mem_cons_self)
      obtain ⟨front, back, rfl⟩ := List.append_of_mem present
      have others : ∀ other ∈ rest, has (front ++ back) other = true := by
        intro other inside
        obtain ⟨match_, held, same⟩ := has_iff.mp (found other (List.mem_cons_of_mem _ inside))
        refine has_iff.mpr ⟨match_, ?_, same⟩
        rcases List.mem_append.mp held with before | after
        · exact List.mem_append_left _ before
        · rcases List.mem_cons.mp after with rfl | behind
          · have apart := distinct.1 other inside
            rw [BEq.trans (BEq.symm equal) same] at apart
            simp at apart
          · exact List.mem_append_right _ behind
      have shorter := ih distinct.2 others
      simp only [List.length_append, List.length_cons] at shorter ⊢
      omega

theorem length_common (distinct : mine.Pairwise fun first second => (first == second) = false)
    (theirDistinct : theirs.Pairwise fun first second => (first == second) = false) :
    (mine.filter (has theirs)).length = (theirs.filter (has mine)).length := by
  have half {mine theirs : List T}
      (distinct : mine.Pairwise fun first second => (first == second) = false) :
      (mine.filter (has theirs)).length ≤ (theirs.filter (has mine)).length := by
    refine length_le_of_has (distinct.filter _) ?_
    intro value member
    obtain ⟨inside, found⟩ := List.mem_filter.mp member
    rw [has_filter has_congr, found, has_of_mem inside]
    rfl
  exact Nat.le_antisymm (half distinct) (half theirDistinct)

theorem all_not_has_comm : (mine.all fun value => !has theirs value) =
    theirs.all fun value => !has mine value := by
  have half {mine theirs : List T} (apart : ∀ value ∈ mine, has theirs value = false) :
      ∀ value ∈ theirs, has mine value = false := by
    intro value inside
    by_contra found
    obtain ⟨member, present, equal⟩ := has_iff.mp (by simpa using found)
    have missing := apart member present
    rw [has_iff.mpr ⟨value, inside, BEq.symm equal⟩] at missing
    simp at missing
  rw [Bool.eq_iff_iff, List.all_eq_true, List.all_eq_true]
  simp only [Bool.not_eq_true']
  exact ⟨half, half⟩

theorem OnceEach.common (distinct : mine.Pairwise fun first second => (first == second) = false)
    (theirs : List T) :
    OnceEach (mine.filter (has theirs)) fun value =>
      has mine value = true ∧ has theirs value = true := by
  refine ⟨distinct.filter _, ?_⟩
  intro value
  rw [has_filter has_congr, Bool.and_eq_true]

theorem OnceEach.without (distinct : mine.Pairwise fun first second => (first == second) = false)
    (theirs : List T) :
    OnceEach (mine.filter fun value => !has theirs value) fun value =>
      has mine value = true ∧ has theirs value = false := by
  refine ⟨distinct.filter _, ?_⟩
  intro value
  rw [has_filter fun same => by rw [has_congr same], Bool.and_eq_true, Bool.not_eq_true']

theorem OnceEach.append {belongs belongsToo : T → Prop} (first : OnceEach mine belongs)
    (second : OnceEach theirs belongsToo) (apart : ∀ value, belongs value → ¬ belongsToo value) :
    OnceEach (mine ++ theirs) fun value => belongs value ∨ belongsToo value := by
  constructor
  · rw [List.pairwise_append]
    refine ⟨first.distinct, second.distinct, ?_⟩
    intro value member other present
    by_contra equal
    have both : has mine other = true := has_iff.mpr ⟨value, member, by simpa using equal⟩
    exact apart other ((first.exact other).mp both) ((second.exact other).mp (has_of_mem present))
  · intro value
    rw [has_append, Bool.or_eq_true, first.exact, second.exact]

end Lists

namespace HashSet

variable {T : Type} [BEq T] {set other : HashSet T}

structure Listed (set : HashSet T) : Prop where
  contains (value : T) : set.contains value = .ok (has set.toList value)
  distinct : set.toList.Pairwise fun first second => (first == second) = false
  size : set.size = set.toList.length

theorem Represented.listed [EquivBEq T] (represented : set.Represented) : set.Listed := by
  obtain ⟨finite, represents⟩ := represented
  refine ⟨?_, ?_, ?_⟩
  · intro value
    rw [represents.contains_eq, FiniteSet.isSome_member?, has, represents.members.any_eq]
  · exact represents.members.symm.pairwise finite.distinct_members
      fun different => by rwa [BEq.comm]
  · rw [represents.size_eq, represents.members.length_eq, FiniteSet.length_members]

namespace Listed

theorem difference_eq (otherListed : other.Listed) :
    set.difference other = .ok (set.toList.filter fun value => !has other.toList value) := by
  refine filterM_of_ok ?_ set.toList
  intro value
  rw [otherListed.contains]
  rfl

theorem intersection_eq (listed : set.Listed) (otherListed : other.Listed) :
    set.intersection other = .ok (if set.size ≤ other.size then
        set.toList.filter (has other.toList)
      else other.toList.filter (has set.toList)) := by
  unfold intersection
  split
  · exact filterM_of_ok otherListed.contains set.toList
  · exact filterM_of_ok listed.contains other.toList

theorem union_eq (listed : set.Listed) :
    set.union other =
      .ok (set.toList ++ other.toList.filter fun value => !has set.toList value) := by
  rw [union, listed.difference_eq]
  rfl

theorem symmetricDifference_eq (listed : set.Listed) (otherListed : other.Listed) :
    set.symmetricDifference other =
      .ok ((set.toList.filter fun value => !has other.toList value) ++
        other.toList.filter fun value => !has set.toList value) := by
  rw [symmetricDifference, otherListed.difference_eq, listed.difference_eq]
  rfl

theorem isSubset_eq (otherListed : other.Listed) :
    set.isSubset other =
      .ok (decide (set.size ≤ other.size) && set.toList.all (has other.toList)) := by
  unfold isSubset
  split
  next fits => rw [allM_of_ok otherListed.contains, decide_eq_true fits, Bool.true_and]
  next large => rw [decide_eq_false large, Bool.false_and]

variable [EquivBEq T]

theorem isDisjoint_eq (listed : set.Listed) (otherListed : other.Listed) :
    set.isDisjoint other = .ok (set.toList.all fun value => !has other.toList value) := by
  unfold isDisjoint
  split
  · refine allM_of_ok ?_ set.toList
    intro value
    rw [otherListed.contains]
    rfl
  · rw [all_not_has_comm]
    refine allM_of_ok ?_ other.toList
    intro value
    rw [listed.contains]
    rfl

end Listed

/-- What the combinations of two sets give: the lists, which values they have, and how the answers
hang together. -/
structure ExactAlgebra (set other : HashSet T) : Prop where
  walked : set.toList = (set.table.walk.rest .front).1 ∧
    other.toList = (other.table.walk.rest .front).1
  union : ∃ values, set.union other = .ok values ∧
    values = set.toList ++ other.toList.filter (fun value => !has set.toList value) ∧
      OnceEach values fun value => has set.toList value = true ∨ has other.toList value = true
  intersection : ∃ values, set.intersection other = .ok values ∧
    values = (if set.size ≤ other.size then set.toList.filter (has other.toList)
      else other.toList.filter (has set.toList)) ∧
      OnceEach values fun value => has set.toList value = true ∧ has other.toList value = true
  difference : ∃ values, set.difference other = .ok values ∧
    values = set.toList.filter (fun value => !has other.toList value) ∧
      OnceEach values fun value => has set.toList value = true ∧ has other.toList value = false
  symmetricDifference : ∃ mine theirs, set.difference other = .ok mine ∧
    other.difference set = .ok theirs ∧ set.symmetricDifference other = .ok (mine ++ theirs) ∧
      OnceEach (mine ++ theirs) fun value => has set.toList value ≠ has other.toList value
  isDisjoint : ∃ answer, set.isDisjoint other = .ok answer ∧ other.isDisjoint set = .ok answer ∧
    (answer = true ↔ set.intersection other = .ok [])
  isSubset : ∃ answer, set.isSubset other = .ok answer ∧ other.isSuperset set = .ok answer ∧
    (answer = true ↔ set.difference other = .ok [])
  isSuperset : ∃ answer, set.isSuperset other = .ok answer ∧ other.isSubset set = .ok answer ∧
    (answer = true ↔ other.difference set = .ok [])
  lengths : ∃ both common, set.union other = .ok both ∧ set.intersection other = .ok common ∧
    both.length + common.length = set.size + other.size

section Exactness

variable [EquivBEq T]

namespace Listed

theorem union_exact (listed : set.Listed) (otherListed : other.Listed) :
    OnceEach (set.toList ++ other.toList.filter fun value => !has set.toList value) fun value =>
      has set.toList value = true ∨ has other.toList value = true := by
  have mine : OnceEach set.toList fun value => has set.toList value = true :=
    ⟨listed.distinct, fun _ => Iff.rfl⟩
  have joined := mine.append (OnceEach.without otherListed.distinct set.toList) (by
    rintro value found ⟨_, missing⟩
    rw [found] at missing
    simp at missing)
  refine ⟨joined.distinct, ?_⟩
  intro value
  rw [joined.exact]
  cases has set.toList value <;> simp

theorem symmetricDifference_exact (listed : set.Listed) (otherListed : other.Listed) :
    OnceEach ((set.toList.filter fun value => !has other.toList value) ++
        other.toList.filter fun value => !has set.toList value) fun value =>
      has set.toList value ≠ has other.toList value := by
  have joined := (OnceEach.without listed.distinct other.toList).append
    (OnceEach.without otherListed.distinct set.toList) (by
      rintro value ⟨found, _⟩ ⟨_, missing⟩
      rw [found] at missing
      simp at missing)
  refine ⟨joined.distinct, ?_⟩
  intro value
  rw [joined.exact]
  cases has set.toList value <;> cases has other.toList value <;> simp

theorem intersection_exact (listed : set.Listed) (otherListed : other.Listed) :
    OnceEach (if set.size ≤ other.size then set.toList.filter (has other.toList)
        else other.toList.filter (has set.toList)) fun value =>
      has set.toList value = true ∧ has other.toList value = true := by
  split
  · exact OnceEach.common listed.distinct other.toList
  · have common := OnceEach.common otherListed.distinct set.toList
    refine ⟨common.distinct, ?_⟩
    intro value
    rw [common.exact, and_comm]

theorem length_intersection (listed : set.Listed) (otherListed : other.Listed) :
    (if set.size ≤ other.size then set.toList.filter (has other.toList)
      else other.toList.filter (has set.toList)).length =
        (other.toList.filter (has set.toList)).length := by
  split
  · exact length_common listed.distinct otherListed.distinct
  · rfl

theorem isDisjoint_iff (listed : set.Listed) (otherListed : other.Listed) :
    (set.toList.all fun value => !has other.toList value) = true ↔
      set.intersection other = .ok [] := by
  have common := length_intersection listed otherListed
  rw [listed.intersection_eq otherListed, Except.ok.injEq, ← List.length_eq_zero_iff, common,
    all_not_has_comm, List.length_eq_zero_iff, List.filter_eq_nil_iff, List.all_eq_true]
  simp only [Bool.not_eq_true', Bool.not_eq_true]

theorem isSubset_iff (listed : set.Listed) (otherListed : other.Listed) :
    (decide (set.size ≤ other.size) && set.toList.all (has other.toList)) = true ↔
      set.difference other = .ok [] := by
  have inside : set.toList.all (has other.toList) = true ↔ set.difference other = .ok [] := by
    rw [otherListed.difference_eq, Except.ok.injEq, List.filter_eq_nil_iff, List.all_eq_true]
    simp only [Bool.not_eq_true', Bool.not_eq_false]
  rw [Bool.and_eq_true, inside, decide_eq_true_eq, and_iff_right_iff_imp]
  intro nothing
  rw [listed.size, otherListed.size]
  exact length_le_of_has listed.distinct (List.all_eq_true.mp (inside.mpr nothing))

theorem exactAlgebra (listed : set.Listed) (otherListed : other.Listed)
    (walked : set.toList = (set.table.walk.rest .front).1)
    (otherWalked : other.toList = (other.table.walk.rest .front).1) :
    ExactAlgebra set other := by
  constructor
  case walked => exact ⟨walked, otherWalked⟩
  case union => exact ⟨_, listed.union_eq, rfl, listed.union_exact otherListed⟩
  case intersection =>
    exact ⟨_, listed.intersection_eq otherListed, rfl, listed.intersection_exact otherListed⟩
  case difference =>
    exact ⟨_, otherListed.difference_eq, rfl, OnceEach.without listed.distinct other.toList⟩
  case symmetricDifference =>
    exact ⟨_, _, otherListed.difference_eq, listed.difference_eq,
      listed.symmetricDifference_eq otherListed, listed.symmetricDifference_exact otherListed⟩
  case isDisjoint =>
    refine ⟨_, listed.isDisjoint_eq otherListed, ?_, listed.isDisjoint_iff otherListed⟩
    rw [otherListed.isDisjoint_eq listed, all_not_has_comm]
  case isSubset =>
    exact ⟨_, otherListed.isSubset_eq, otherListed.isSubset_eq, listed.isSubset_iff otherListed⟩
  case isSuperset =>
    exact ⟨_, listed.isSubset_eq, listed.isSubset_eq, otherListed.isSubset_iff listed⟩
  case lengths =>
    refine ⟨_, _, listed.union_eq, listed.intersection_eq otherListed, ?_⟩
    have common := listed.length_intersection otherListed
    have parts := List.length_eq_length_filter_add (l := other.toList) (has set.toList)
    rw [List.length_append, common, listed.size, otherListed.size]
    omega

end Listed

/-- The combinations of any two sets that callers can hold are exact. -/
theorem reachable_exactAlgebra (reachable : (interface T).Reachable set)
    (otherReachable : (interface T).Reachable other) : ExactAlgebra set other := by
  have represented : set.Represented := interface_preserves.of_reachable reachable
  have otherRepresented : other.Represented := interface_preserves.of_reachable otherReachable
  refine represented.listed.exactAlgebra otherRepresented.listed ?_ ?_
  · obtain ⟨finite, represents⟩ := represented
    exact (represents.valid.walk_rest .front).symm
  · obtain ⟨finite, represents⟩ := otherRepresented
    exact (represents.valid.walk_rest .front).symm

end Exactness

def byLength : Hasher Caseless :=
  { hash := fun key => key.folded.length.toUInt64
    respects := fun same => by rw [beq_caseless_iff.mp same] }

def alwaysThree : Hasher Caseless :=
  { hash := fun _ => 3, respects := fun _ => rfl }

def twoSpelled : List (Deed (interface Caseless)) :=
  [.start (Start.ofList byLength willing 2 [⟨"Ring"⟩, ⟨"hash"⟩]),
    .start (Start.withCapacity alwaysThree willing 20),
    .call 1 (Call.perform willing () (.insert ⟨"RING"⟩)),
    .call 1 (Call.perform willing () (.insert ⟨"Slot"⟩))]

theorem exactAlgebra_twoSpelled :
    ∃ set other, (interface Caseless).performAll twoSpelled [] = .ok [set, other] ∧
      set.toList = [⟨"Ring"⟩, ⟨"hash"⟩] ∧ other.toList = [⟨"RING"⟩, ⟨"Slot"⟩] ∧
        ExactAlgebra set other := by
  obtain ⟨set, other, made, members, others⟩ :
      ∃ set other, (interface Caseless).performAll twoSpelled [] = .ok [set, other] ∧
        set.toList = [⟨"Ring"⟩, ⟨"hash"⟩] ∧ other.toList = [⟨"RING"⟩, ⟨"Slot"⟩] :=
    ⟨_, _, rfl, rfl, rfl⟩
  exact ⟨set, other, made, members, others,
    reachable_exactAlgebra ⟨twoSpelled, _, made, by simp⟩ ⟨twoSpelled, _, made, by simp⟩⟩

end HashSet

end RobinHood
