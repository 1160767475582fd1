import RobinHood.Proofs.FiniteMap

/-!
Finite sets as finite maps without values. Values are compared by their own equality, so a member
also tells which of the equal values stands for them all.
-/

namespace RobinHood

abbrev FiniteSet (T : Type) [BEq T] := FiniteMap T Unit

namespace FiniteSet

theorem fst_withUnit {T : Type} (values : List T) :
    (values.map fun value => (value, ())).map Prod.fst = values := by
  rw [List.map_map]
  exact List.map_id values

variable {T σ : Type} [BEq T] {set : FiniteSet T} {value : T}

def members (set : FiniteSet T) : List T :=
  set.entries.map Prod.fst

/-- The member that stands for a value. -/
def member? (set : FiniteSet T) (value : T) : Option T :=
  (set.find? value).map Prod.fst

def offerMember (keep : σ → T → Bool × σ) (state : σ) (value : T) (_ : Unit) : Option Unit × σ :=
  let (kept, state) := keep state value
  (if kept then some () else none, state)

def keepMembers (set : FiniteSet T) (keep : σ → T → Bool × σ) (state : σ) : FiniteSet T × σ :=
  set.keep (offerMember keep) state

theorem entries_eq (set : FiniteSet T) :
    set.entries = set.members.map fun value => (value, ()) := by
  rw [members, List.map_map]
  exact (List.map_id set.entries).symm

theorem length_members (set : FiniteSet T) : set.members.length = set.size :=
  List.length_map _

theorem distinct_members (set : FiniteSet T) :
    set.members.Pairwise fun first second => (first == second) = false :=
  set.distinct

theorem member?_eq_none_iff :
    set.member? value = none ↔ ∀ member ∈ set.members, (member == value) = false := by
  rw [member?, Option.map_eq_none_iff, FiniteMap.find?_eq_none_iff]
  simp only [members, List.forall_mem_map]

theorem isSome_member? (set : FiniteSet T) (value : T) :
    (set.member? value).isSome = set.members.any (· == value) := by
  rw [member?, Option.isSome_map, FiniteMap.find?, List.isSome_find?, members, List.any_map]
  rfl

theorem find?_of_member?_none (absent : set.member? value = none) : set.find? value = none :=
  Option.map_eq_none_iff.mp absent

theorem member?_without (set : FiniteSet T) (value : T) :
    member? (set.without value) value = none := by
  rw [member?_eq_none_iff]
  intro member present
  obtain ⟨pair, kept, rfl⟩ := List.mem_map.mp present
  have different := (List.mem_filter.mp kept).2
  simpa using different

section Equivalence

variable [EquivBEq T]

def add (set : FiniteSet T) (value : T) : FiniteSet T :=
  set.insertIfNew value ()

def addAll (set : FiniteSet T) (values : List T) : FiniteSet T :=
  values.foldl add set

/-- A value takes the place of the member that stood for it. -/
def exchange (set : FiniteSet T) (value : T) : FiniteSet T :=
  add (set.without value) value

def inOrder (set : FiniteSet T) (order : List T) (same : order.Perm set.members) : FiniteSet T :=
  set.reorder (order.map fun value => (value, ())) (by
    rw [entries_eq]
    exact same.map _)

@[simp] theorem members_inOrder (set : FiniteSet T) (order : List T)
    (same : order.Perm set.members) : (set.inOrder order same).members = order :=
  fst_withUnit order

theorem member?_eq_some_iff {member : T} :
    set.member? value = some member ↔ member ∈ set.members ∧ (member == value) = true := by
  simp only [member?, Option.map_eq_some_iff, FiniteMap.find?_eq_some_iff, members, List.mem_map]
  constructor
  · rintro ⟨pair, ⟨present, same⟩, rfl⟩
    exact ⟨⟨pair, present, rfl⟩, same⟩
  · rintro ⟨⟨pair, present, rfl⟩, same⟩
    exact ⟨pair, ⟨present, same⟩, rfl⟩

theorem members_add (absent : set.member? value = none) :
    (add set value).members = value :: set.members := by
  rw [members, add, FiniteMap.entries_insertIfNew (find?_of_member?_none absent), List.map_cons,
    members]

theorem add_of_present {member : T} (present : set.member? value = some member) :
    add set value = set := by
  obtain ⟨pair, found, _⟩ := Option.map_eq_some_iff.mp present
  exact FiniteMap.insertIfNew_of_present found

theorem without_members {member : T} {rest : List T} (split : set.members.Perm (member :: rest))
    (same : (member == value) = true) : (members (set.without value)).Perm rest := by
  have entries : set.entries.Perm ((member, ()) :: rest.map fun value => (value, ())) := by
    rw [entries_eq]
    exact split.map _
  have taken := (FiniteMap.without_perm entries same).map Prod.fst
  rwa [fst_withUnit] at taken

theorem members_exchange {member : T} {rest : List T}
    (split : set.members.Perm (member :: rest)) (same : (member == value) = true) :
    (exchange set value).members.Perm (value :: rest) := by
  rw [exchange, members_add (member?_without set value)]
  exact (without_members split same).cons value

theorem exchange_of_absent (absent : set.member? value = none) :
    exchange set value = add set value := by
  rw [exchange, FiniteMap.without_of_absent (find?_of_member?_none absent)]

theorem size_add_le (set : FiniteSet T) (value : T) : (add set value).size ≤ set.size + 1 :=
  set.size_insertIfNew_le value ()

theorem size_addAll_le (set : FiniteSet T) (values : List T) :
    (addAll set values).size ≤ set.size + values.length := by
  induction values generalizing set with
  | nil => exact Nat.le_refl _
  | cons value rest ih =>
      have first := size_add_le set value
      have later := ih (add set value)
      rw [List.length_cons]
      exact later.trans (by omega)

theorem size_exchange_le (set : FiniteSet T) (value : T) :
    (exchange set value).size ≤ set.size + 1 := by
  have less := set.size_without_le value
  have more := size_add_le (set.without value) value
  rw [exchange]
  omega

end Equivalence

end FiniteSet

end RobinHood
