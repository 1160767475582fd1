import Mathlib
import RobinHood.TableError

/-!
Finite maps as lists of pairs with different keys. Keys are compared by their own equality, so a
pair also tells under which spelling its key was stored. The order of the pairs means nothing.
-/

namespace RobinHood

structure FiniteMap (K V : Type) [BEq K] where
  entries : List (K × V)
  distinct : (entries.map Prod.fst).Pairwise fun first second => (first == second) = false

def keepPairs {K V σ : Type} (offer : σ → K → V → Option V × σ) (state : σ) :
    List (K × V) → List (K × V) × σ
  | [] => ([], state)
  | (key, value) :: rest =>
      match offer state key value with
      | (some value, state) =>
          let (kept, state) := keepPairs offer state rest
          ((key, value) :: kept, state)
      | (none, state) => keepPairs offer state rest

theorem keys_keepPairs_sublist {K V σ : Type} (offer : σ → K → V → Option V × σ) (state : σ)
    (pairs : List (K × V)) :
    ((keepPairs offer state pairs).1.map Prod.fst).Sublist (pairs.map Prod.fst) := by
  induction pairs generalizing state with
  | nil => exact List.Sublist.refl _
  | cons pair rest ih =>
      rw [keepPairs]
      split
      · exact (ih _).cons_cons _
      · exact (ih _).cons _

namespace FiniteMap

variable {K V σ : Type} [BEq K] {map : FiniteMap K V} {key : K}

@[ext] theorem ext {other : FiniteMap K V} (entries : map.entries = other.entries) :
    map = other := by
  cases map
  cases other
  cases entries
  rfl

def empty : FiniteMap K V :=
  { entries := [], distinct := List.Pairwise.nil }

def size (map : FiniteMap K V) : Nat :=
  map.entries.length

def find? (map : FiniteMap K V) (key : K) : Option (K × V) :=
  map.entries.find? fun pair => pair.1 == key

def get? (map : FiniteMap K V) (key : K) : Option V :=
  (map.find? key).map Prod.snd

def lookup (map : FiniteMap K V) (key : K) : Except TableError V :=
  match map.get? key with
  | some value => .ok value
  | none => .error .keyNotFound

def changeAt (map : FiniteMap K V) (key : K) (change : V → V) : FiniteMap K V where
  entries := map.entries.map fun pair => if pair.1 == key then (pair.1, change pair.2) else pair
  distinct := by
    have keys : (fun pair : K × V => (if pair.1 == key then (pair.1, change pair.2) else pair).1) =
        Prod.fst := by
      funext pair
      split <;> rfl
    rw [List.map_map]
    simp only [Function.comp_def, keys]
    exact map.distinct

def without (map : FiniteMap K V) (key : K) : FiniteMap K V where
  entries := map.entries.filter fun pair => !(pair.1 == key)
  distinct := map.distinct.sublist (List.filter_sublist.map Prod.fst)

def keep (map : FiniteMap K V) (offer : σ → K → V → Option V × σ) (state : σ) :
    FiniteMap K V × σ :=
  ({ entries := (keepPairs offer state map.entries).1
     distinct := map.distinct.sublist (keys_keepPairs_sublist offer state map.entries) },
    (keepPairs offer state map.entries).2)

@[simp] theorem size_changeAt (map : FiniteMap K V) (key : K) (change : V → V) :
    (map.changeAt key change).size = map.size := by
  simp [size, changeAt]

theorem size_without_le (map : FiniteMap K V) (key : K) : (map.without key).size ≤ map.size :=
  List.length_filter_le _ _

theorem size_keep_le (map : FiniteMap K V) (offer : σ → K → V → Option V × σ) (state : σ) :
    (map.keep offer state).1.size ≤ map.size := by
  have kept := (keys_keepPairs_sublist offer state map.entries).length_le
  rwa [List.length_map, List.length_map] at kept

theorem find?_eq_none_iff :
    map.find? key = none ↔ ∀ pair ∈ map.entries, (pair.1 == key) = false := by
  simp [find?, List.find?_eq_none]

theorem changeAt_of_absent (change : V → V) (absent : map.find? key = none) :
    map.changeAt key change = map := by
  apply ext
  conv_rhs => rw [← List.map_id map.entries]
  apply List.map_congr_left
  intro pair member
  simp [find?_eq_none_iff.mp absent pair member]

theorem without_of_absent (absent : map.find? key = none) : map.without key = map := by
  apply ext
  rw [without, List.filter_eq_self]
  intro pair member
  simp [find?_eq_none_iff.mp absent pair member]

section Equivalence

variable [EquivBEq K]

def insertIfNew (map : FiniteMap K V) (key : K) (value : V) : FiniteMap K V :=
  if absent : map.find? key = none then
    { entries := (key, value) :: map.entries
      distinct := by
        rw [List.map_cons, List.pairwise_cons]
        refine ⟨?_, map.distinct⟩
        intro other member
        obtain ⟨pair, present, rfl⟩ := List.mem_map.mp member
        rw [BEq.comm]
        exact find?_eq_none_iff.mp absent pair present }
  else map

/-- Gives a key a value; a key that is stored keeps its spelling. -/
def assign (map : FiniteMap K V) (key : K) (value : V) : FiniteMap K V :=
  match map.find? key with
  | some _ => map.changeAt key fun _ => value
  | none => map.insertIfNew key value

/-- Makes the value only if the key is not there; `make` may use and change a state. -/
def insertIfNewWith (map : FiniteMap K V) (key : K) (make : σ → V × σ) (state : σ) :
    FiniteMap K V × σ :=
  match map.find? key with
  | some _ => (map, state)
  | none =>
      let (value, state) := make state
      (map.insertIfNew key value, state)

def reorder (map : FiniteMap K V) (order : List (K × V)) (same : order.Perm map.entries) :
    FiniteMap K V where
  entries := order
  distinct := by
    refine (same.map Prod.fst).symm.pairwise map.distinct ?_
    intro first second different
    rw [BEq.comm]
    exact different

theorem others_differ {pair : K × V} {rest : List (K × V)}
    (split : map.entries.Perm (pair :: rest)) (same : (pair.1 == key) = true) :
    ∀ other ∈ rest, (other.1 == key) = false := by
  have apart := (map.reorder (pair :: rest) split.symm).distinct
  simp only [reorder, List.map_cons, List.pairwise_cons] at apart
  intro other member
  have different := apart.1 other.1 (List.mem_map_of_mem member)
  by_contra equal
  have reached : (pair.1 == other.1) = true :=
    BEq.trans same (BEq.symm (by simpa using equal))
  rw [different] at reached
  simp at reached

theorem find?_eq_some_iff {pair : K × V} :
    map.find? key = some pair ↔ pair ∈ map.entries ∧ (pair.1 == key) = true := by
  constructor
  · intro found
    exact ⟨List.mem_of_find?_eq_some found, by simpa using List.find?_some found⟩
  · rintro ⟨member, same⟩
    cases found : map.find? key with
    | none =>
        rw [find?_eq_none_iff.mp found pair member] at same
        simp at same
    | some other =>
        have matched : (other.1 == key) = true := by simpa using List.find?_some found
        obtain ⟨front, back, split⟩ := List.append_of_mem (List.mem_of_find?_eq_some found)
        have others : map.entries.Perm (other :: (front ++ back)) := by
          rw [split]
          exact List.perm_middle
        rcases List.mem_cons.mp (others.subset member) with here | elsewhere
        · rw [here]
        · rw [others_differ others matched pair elsewhere] at same
          simp at same

theorem changeAt_perm {pair : K × V} {rest : List (K × V)} (change : V → V)
    (split : map.entries.Perm (pair :: rest)) (same : (pair.1 == key) = true) :
    (map.changeAt key change).entries.Perm ((pair.1, change pair.2) :: rest) := by
  have changed := split.map fun pair => if pair.1 == key then (pair.1, change pair.2) else pair
  have kept : rest.map (fun pair => if pair.1 == key then (pair.1, change pair.2) else pair) =
      rest := by
    conv_rhs => rw [← List.map_id rest]
    apply List.map_congr_left
    intro other member
    simp [others_differ split same other member]
  rw [List.map_cons, kept, if_pos same] at changed
  exact changed

theorem without_perm {pair : K × V} {rest : List (K × V)}
    (split : map.entries.Perm (pair :: rest)) (same : (pair.1 == key) = true) :
    (map.without key).entries.Perm rest := by
  have taken := split.filter fun pair => !(pair.1 == key)
  have kept : rest.filter (fun pair => !(pair.1 == key)) = rest := by
    rw [List.filter_eq_self]
    intro other member
    simp [others_differ split same other member]
  rw [List.filter_cons_of_neg (by simp [same]), kept] at taken
  exact taken

theorem entries_insertIfNew {value : V} (absent : map.find? key = none) :
    (map.insertIfNew key value).entries = (key, value) :: map.entries := by
  rw [insertIfNew, dif_pos absent]

theorem insertIfNew_of_present {value : V} {pair : K × V} (present : map.find? key = some pair) :
    map.insertIfNew key value = map := by
  rw [insertIfNew, dif_neg (by simp [present])]

theorem size_insertIfNew_le (map : FiniteMap K V) (key : K) (value : V) :
    (map.insertIfNew key value).size ≤ map.size + 1 := by
  cases found : map.find? key with
  | some pair =>
      rw [insertIfNew_of_present found]
      omega
  | none =>
      rw [size, entries_insertIfNew found, List.length_cons]
      exact Nat.le_refl _

theorem size_insertIfNewWith_le (map : FiniteMap K V) (key : K) (make : σ → V × σ) (state : σ) :
    (map.insertIfNewWith key make state).1.size ≤ map.size + 1 := by
  rw [insertIfNewWith]
  split
  · exact Nat.le_succ _
  · exact map.size_insertIfNew_le key _

theorem size_assign_le (map : FiniteMap K V) (key : K) (value : V) :
    (map.assign key value).size ≤ map.size + 1 := by
  rw [assign]
  split
  · rw [size_changeAt]
    omega
  · exact map.size_insertIfNew_le key value

theorem insertIfNewWith_const (map : FiniteMap K V) (key : K) (value : V) :
    (map.insertIfNewWith key (fun _ => (value, ())) ()).1 = map.insertIfNew key value := by
  cases found : map.find? key with
  | some pair => simp only [insertIfNewWith, found, insertIfNew_of_present found]
  | none => simp only [insertIfNewWith, found]

end Equivalence

end FiniteMap

end RobinHood
