import RobinHood.Proofs.Atomicity
import RobinHood.Proofs.Histories
import RobinHood.Proofs.Refinement

/-!
Every map and set that a caller can hold stands for a finite map or set. So each slot has the hash
of its own key, and no key is there twice.
-/

namespace RobinHood

open InPlace

variable {β γ σ : Type}

/-- A call in place can at most be refused memory, and leaves what has a property in any case. -/
def Keeps (memory : Memory) (property : σ → Prop) :
    EStateM.Result TableError (Live σ) β → Prop
  | .ok _ after => property after.held
  | .error error after => memory.Refusal error ∧ property after.held

section Keeping

variable {memory : Memory} {property : σ → Prop}

theorem Memory.Permits.effect {change : Except TableError σ}
    (permitted : memory.Permits change property) :
    memory.Permits (effect change) fun answer => property answer.2 :=
  permitted.map fun _ after => after

theorem Atomic.keeps {before : Live σ} {effect : Except TableError (β × σ)}
    {result : EStateM.Result TableError (Live σ) β} (atomic : Atomic before effect result)
    (permitted : memory.Permits effect fun answer => property answer.2)
    (holds : property before.held) : Keeps memory property result := by
  have agrees := atomic.agrees
  cases result with
  | ok answer after =>
      rcases permitted with ⟨other, done, good⟩ | ⟨error, failed, _⟩
      · obtain rfl : (answer, after.held) = other := Except.ok.inj (agrees.trans done)
        exact good
      · rw [failed] at agrees
        simp [outcome] at agrees
  | error error after =>
      rcases permitted with ⟨other, done, _⟩ | ⟨other, failed, refusal⟩
      · rw [done] at agrees
        simp [outcome] at agrees
      · obtain rfl : error = other := Except.error.inj (agrees.trans failed)
        refine ⟨refusal, ?_⟩
        rw [atomic.unchanged error after rfl]
        exact holds

theorem Keeps.bind {call : InPlace σ β} {next : β → InPlace σ γ} {live : Live σ}
    (first : Keeps memory property (call.run live))
    (rest : ∀ answer live, property live.held → Keeps memory property ((next answer).run live)) :
    Keeps memory property ((call >>= next).run live) := by
  rw [EStateM.run_bind]
  cases ran : call.run live with
  | ok answer middle =>
      rw [ran] at first
      exact rest answer middle first
  | error error middle =>
      rw [ran] at first
      exact first

theorem Keeps.discard {call : InPlace σ β} {live : Live σ}
    (keeps : Keeps memory property (call.run live)) :
    Keeps memory property ((discard call).run live) := by
  change Keeps memory property ((Function.const β PUnit.unit <$> call).run live)
  rw [EStateM.run_map]
  cases ran : call.run live with
  | ok answer middle =>
      rw [ran] at keeps
      exact keeps
  | error error middle =>
      rw [ran] at keeps
      exact keeps

theorem Keeps.forM {ι : Type} {call : ι → InPlace σ Unit} (items : List ι) {live : Live σ}
    (each : ∀ item live, property live.held → Keeps memory property ((call item).run live))
    (holds : property live.held) : Keeps memory property ((items.forM call).run live) := by
  induction items generalizing live with
  | nil => exact holds
  | cons item rest ih => exact (each item live holds).bind fun _ later reached => ih reached

theorem Keeps.remains {result : EStateM.Result TableError (Live σ) Unit}
    (keeps : Keeps memory property result) :
    ∃ after, InPlace.remains result = .ok after ∧ property after := by
  cases result with
  | ok answer after => exact ⟨after.held, rfl, keeps⟩
  | error error after => exact ⟨after.held, Table.unlessRefused_of_refusal _ keeps.1, keeps.2⟩

theorem Memory.Allows.applied {α : Type} {container : σ} {demand : Nat}
    {outcome : Except TableError (α × β × σ)} {good : α × β × σ → Prop}
    (allowed : memory.Allows demand outcome good)
    (leads : ∀ result, good result → property result.2.2) (holds : property container) :
    ∃ after, Table.unlessRefused container (outcome.map fun result => result.2.2) = .ok after ∧
      property after := by
  rcases allowed with ⟨result, rfl, ended⟩ | ⟨error, rfl, refusal, _⟩
  · exact ⟨result.2.2, rfl, leads result ended⟩
  · exact ⟨container, Table.unlessRefused_of_refusal container refusal, holds⟩

theorem Memory.Permits.made {made : Except TableError σ}
    (permitted : memory.Permits made property) :
    ∃ result, Table.unlessRefused none (made.map some) = .ok result ∧
      ∀ container ∈ result, property container := by
  rcases permitted with ⟨container, rfl, holds⟩ | ⟨error, rfl, refusal⟩
  · refine ⟨some container, rfl, ?_⟩
    intro other same
    exact Option.mem_some_iff.mp same ▸ holds
  · refine ⟨none, Table.unlessRefused_of_refusal none refusal, ?_⟩
    simp

theorem ok_of_mem_toOption {ε : Type} {outcome : Except ε σ} {result : σ}
    (member : result ∈ outcome.toOption) : outcome = .ok result := by
  cases outcome with
  | error error => simp [Except.toOption] at member
  | ok other => rw [Option.mem_some_iff.mp member]

end Keeping

namespace InPlaceKind

variable {C ι : Type} {kind : InPlaceKind C ι} {property : C → Prop} {held : C}

theorem reserveInPlace_keeps (lasts : kind.Lasts property) (holds : property held)
    (memory : Memory) (additional : Nat) (requests : List Nat) :
    Keeps memory property ((kind.reserveInPlace memory additional).run ⟨held, requests⟩) := by
  have reserves := (lasts.valid holds).reserveWithin_reserves kind.part memory additional requests
  have atomic := reserves.atomic (kind.reserveInPlace_agrees memory additional)
  exact atomic.keeps (lasts.reserve holds memory additional).effect holds

theorem insertInPlace_keeps (enters : kind.Enters) (lasts : kind.Lasts property)
    (holds : property held) (memory : Memory) (item : ι) (requests : List Nat) :
    Keeps memory property ((kind.insertInPlace memory item).run ⟨held, requests⟩) := by
  have atomic := (enters (lasts.valid holds) memory item requests).atomic (kind.agrees memory item)
  exact atomic.keeps (lasts.insert holds memory item) holds

theorem extendInPlace_keeps (enters : kind.Enters) (lasts : kind.Lasts property)
    (holds : property held) (memory : Memory) (announced : Nat) (items : List ι)
    (requests : List Nat) :
    Keeps memory property ((kind.extendInPlace memory announced items).run ⟨held, requests⟩) := by
  rw [extendInPlace, EStateM.run_bind, run_held]
  refine (reserveInPlace_keeps lasts holds memory _ requests).bind ?_
  intro _ live roomy
  exact Keeps.forM items (fun item live held =>
    (insertInPlace_keeps enters lasts held memory item live.requests).discard) roomy

end InPlaceKind

namespace Table

variable {α : Type} {table : Table α}

theorem related_of_slots {related : Cell α → Cell α → Prop}
    (pairwise : table.cells.Pairwise related)
    (symmetric : ∀ {first second}, related first second → related second first)
    {first second : Nat} {cell other : Cell α} (apart : first ≠ second)
    (held : table.slot first = some cell) (present : table.slot second = some other) :
    related cell other := by
  rw [cells_eq, List.pairwise_filterMap] at pairwise
  have inOrder {low high : Nat} {cell other : Cell α} (below : low < high)
      (held : table.slot low = some cell) (present : table.slot high = some other) :
      related cell other := by
    have bound := lt_of_slot present
    have pair := List.pairwise_iff_getElem.mp pairwise low high (by simp; omega)
      (by simpa using bound) below
    simp only [List.getElem_range] at pair
    exact pair cell held other present
  rcases Nat.lt_or_gt_of_ne apart with below | above
  · exact inOrder below held present
  · exact symmetric (inOrder above present held)

end Table

namespace HashMap

variable {K V : Type} [BEq K] {map : HashMap K V}

/-- Each slot has the hash of its own key, and no key is there twice. -/
structure Keyed (map : HashMap K V) : Prop where
  hashes : ∀ index cell, map.table.slot index = some cell →
    cell.hash = mix (map.hash cell.value.1) ||| 1
  apart : ∀ first second cell other, first ≠ second → map.table.slot first = some cell →
    map.table.slot second = some other → (cell.value.1 == other.value.1) = false

def Represented (map : HashMap K V) : Prop :=
  ∃ finite, map.Represents finite

theorem Represents.drained {finite : FiniteMap K V} (represents : map.Represents finite)
    (taken : Nat) (closed : Bool) :
    Represents { map with table := map.table.drained taken closed } FiniteMap.empty := by
  obtain ⟨valid, nothing⟩ := represents.valid.drained taken closed
  exact represents.emptied valid nothing

theorem Represented.drain (represented : map.Represented) (taken : Nat) (closed : Bool) :
    Represented { map with table := map.table.drained taken closed } := by
  obtain ⟨finite, represents⟩ := represented
  exact ⟨FiniteMap.empty, represents.drained taken closed⟩

theorem Hasher.represented (hasher : Hasher K) :
    (withHasher hasher.hash : HashMap K V).Represented :=
  ⟨FiniteMap.empty, withHasher_represents hasher.respects⟩

variable [EquivBEq K]

theorem represented_lasts : (kind (K := K) (V := V)).Lasts Represented :=
  meaning.lasts

theorem Represents.keys_apart {finite : FiniteMap K V} (represents : map.Represents finite) :
    map.table.cells.Pairwise fun first second => (first.value.1 == second.value.1) = false := by
  have keys := (represents.entries.map Prod.fst).symm.pairwise finite.distinct
    fun different => by rwa [BEq.comm]
  rwa [List.map_map, List.pairwise_map] at keys

theorem Represented.keyed (represented : map.Represented) : map.Keyed := by
  obtain ⟨finite, represents⟩ := represented
  constructor
  · intro index cell held
    exact represents.keyed cell (Table.mem_cells.mpr ⟨index, held⟩)
  · intro first second cell other apart held present
    exact Table.related_of_slots represents.keys_apart
      (fun different => by rwa [BEq.comm]) apart held present

theorem Represented.modifyAt (represented : map.Represented) (index : Nat) (change : V → V) :
    ({ map with table := map.table.modifyAt index (changeValue change) } :
      HashMap K V).Represented := by
  obtain ⟨finite, represents⟩ := represented
  cases held : map.table.slot index with
  | none =>
      rw [Table.modifyAt_of_free _ held]
      exact ⟨finite, represents⟩
  | some cell =>
      exact ⟨finite.changeAt cell.value.1 change, represents.changed change
        (represents.valid.modifyAt _ _) (Table.exchanged_modifyAt _ held) BEq.rfl⟩

theorem Represented.changeInPlace (moves : List (Table.Side × (V → V)))
    {walk : Table.ChangingWalk (K × V)} {hash : K → UInt64}
    (represented : Represented { table := walk.table, hash }) :
    Represented { table := (moves.foldl (fun walk (side, change) =>
      (walk.step side (changeValue change)).2) walk).table, hash } := by
  induction moves generalizing walk with
  | nil => exact represented
  | cons move rest ih =>
      refine ih ?_
      change Represented
        { table := (walk.step move.1 (changeValue move.2)).2.table, hash }
      rw [Table.ChangingWalk.step]
      split
      · exact represented
      · exact represented.modifyAt _ move.2

theorem interface_preserves [Inhabited V] :
    (interface K V).Preserves (Represented (K := K) (V := V)) := by
  constructor
  case start =>
    intro how
    cases how with
    | withHasher hasher =>
        exact ⟨_, rfl, fun map made => Option.mem_some_iff.mp made ▸ Hasher.represented hasher⟩
    | withCapacity hasher memory capacity =>
        exact (represented_lasts.reserve (Hasher.represented hasher) memory capacity).made
    | ofList hasher memory announced pairs =>
        exact (represented_lasts.extend (Hasher.represented hasher) memory announced pairs).made
    | load hasher memory source =>
        exact ⟨_, rfl, fun map member =>
          represented_lasts.load (Hasher.represented hasher) (ok_of_mem_toOption member)⟩
  case call =>
    intro map call represented
    cases call with
    | perform memory state command =>
        obtain ⟨finite, represents⟩ := represented
        exact (command.run_allows represents memory state).applied
          (fun _ ⟨last, _, after⟩ => ⟨last, after⟩) ⟨finite, represents⟩
    | extend memory announced pairs =>
        exact (inPlace.extendInPlace_keeps inPlace_enters represented_lasts represented memory
          announced pairs []).remains
    | changeInPlace moves => exact ⟨_, rfl, Represented.changeInPlace moves represented⟩
    | drain taken closed => exact ⟨_, rfl, represented.drain taken closed⟩

theorem reachable_check [Inhabited V] (reachable : (interface K V).Reachable map) :
    map.table.check = .ok () :=
  Table.check_iff_valid.mpr (represented_lasts.valid (interface_preserves.of_reachable reachable))

end HashMap

namespace HashSet

variable {T : Type} [BEq T] {set : HashSet T}

structure Keyed (set : HashSet T) : Prop where
  hashes : ∀ index cell, set.table.slot index = some cell →
    cell.hash = mix (set.hash cell.value) ||| 1
  apart : ∀ first second cell other, first ≠ second → set.table.slot first = some cell →
    set.table.slot second = some other → (cell.value == other.value) = false

def Represented (set : HashSet T) : Prop :=
  ∃ finite, set.Represents finite

theorem Represents.drained {finite : FiniteSet T} (represents : set.Represents finite) (taken : Nat)
    (closed : Bool) :
    Represents { set with table := set.table.drained taken closed } FiniteMap.empty := by
  obtain ⟨valid, nothing⟩ := represents.valid.drained taken closed
  exact represents.emptied valid nothing

theorem Represented.drain (represented : set.Represented) (taken : Nat) (closed : Bool) :
    Represented { set with table := set.table.drained taken closed } := by
  obtain ⟨finite, represents⟩ := represented
  exact ⟨FiniteMap.empty, represents.drained taken closed⟩

theorem Hasher.represented (hasher : Hasher T) : (withHasher hasher.hash).Represented :=
  ⟨FiniteMap.empty, withHasher_represents hasher.respects⟩

variable [EquivBEq T]

theorem represented_lasts : (kind (T := T)).Lasts Represented :=
  meaning.lasts

theorem Represented.keyed (represented : set.Represented) : set.Keyed := by
  obtain ⟨finite, represents⟩ := represented
  constructor
  · intro index cell held
    exact represents.keyed cell (Table.mem_cells.mpr ⟨index, held⟩)
  · intro first second cell other apart held present
    have values := represents.members.symm.pairwise finite.distinct_members
      fun different => by rwa [BEq.comm]
    rw [toList, Table.toList, List.pairwise_map] at values
    exact Table.related_of_slots values (fun different => by rwa [BEq.comm]) apart held present

theorem interface_preserves : (interface T).Preserves Represented := by
  constructor
  case start =>
    intro how
    cases how with
    | withHasher hasher =>
        exact ⟨_, rfl, fun set made => Option.mem_some_iff.mp made ▸ Hasher.represented hasher⟩
    | withCapacity hasher memory capacity =>
        exact (represented_lasts.reserve (Hasher.represented hasher) memory capacity).made
    | ofList hasher memory announced values =>
        exact (represented_lasts.extend (Hasher.represented hasher) memory announced values).made
    | load hasher memory source =>
        exact ⟨_, rfl, fun set member =>
          represented_lasts.load (Hasher.represented hasher) (ok_of_mem_toOption member)⟩
  case call =>
    intro set call represented
    cases call with
    | perform memory state command =>
        obtain ⟨finite, represents⟩ := represented
        exact (command.run_allows represents memory state).applied
          (fun _ ⟨last, _, after⟩ => ⟨last, after⟩) ⟨finite, represents⟩
    | extend memory announced values =>
        exact (inPlace.extendInPlace_keeps inPlace_enters represented_lasts represented memory
          announced values []).remains
    | drain taken closed => exact ⟨_, rfl, represented.drain taken closed⟩

theorem reachable_check (reachable : (interface T).Reachable set) : set.table.check = .ok () :=
  Table.check_iff_valid.mpr (represented_lasts.valid (interface_preserves.of_reachable reachable))

end HashSet

/-- No history of maps or of sets meets a broken promise, and in every map and set that it leaves
the slots and the keys belong together. -/
theorem performAll_keyed {K V T : Type} [BEq K] [EquivBEq K] [Inhabited V] [BEq T] [EquivBEq T]
    (mapDeeds : List (Deed (HashMap.interface K V))) (setDeeds : List (Deed (HashSet.interface T))) :
    (∃ maps, (HashMap.interface K V).performAll mapDeeds [] = .ok maps ∧
        ∀ map ∈ maps, map.Keyed) ∧
      ∃ sets, (HashSet.interface T).performAll setDeeds [] = .ok sets ∧
        ∀ set ∈ sets, set.Keyed := by
  obtain ⟨maps, mapsMade, mapsGood⟩ := HashMap.interface_preserves.performAll_nil mapDeeds
  obtain ⟨sets, setsMade, setsGood⟩ := HashSet.interface_preserves.performAll_nil setDeeds
  exact ⟨⟨maps, mapsMade, fun map member => (mapsGood map member).keyed⟩,
    ⟨sets, setsMade, fun set member => (setsGood set member).keyed⟩⟩

def oneHash : Hasher Nat :=
  { hash := fun _ => 7, respects := fun _ => rfl }

def drainedCopy : List (Deed (HashMap.interface Nat Nat)) :=
  [.start (HashMap.Start.withHasher oneHash),
    .call 0 (HashMap.Call.perform willing () (.insert 1 10)),
    .call 0 (HashMap.Call.perform willing () (.insert 2 20)), .clone 0,
    .call 1 (HashMap.Call.changeInPlace [(.back, (· + 1))]),
    .call 0 (HashMap.Call.drain 1 true)]

def loadedSet : List (Deed (HashSet.interface Nat)) :=
  [.start (HashSet.Start.load oneHash willing
      { announced := some 9, items := [3, 4, 3], fault := none }),
    .call 0 (HashSet.Call.perform willing () (.replace 4))]

theorem performAll_drainedCopy :
    ∃ emptied copy set, (HashMap.interface Nat Nat).performAll drainedCopy [] =
          .ok [emptied, copy] ∧ emptied.toList = [] ∧ copy.toList = [(1, 10), (2, 21)] ∧
        (HashSet.interface Nat).performAll loadedSet [] = .ok [set] ∧ set.size = 2 ∧
          emptied.Keyed ∧ copy.Keyed ∧ set.Keyed := by
  obtain ⟨⟨maps, mapsMade, mapsKeyed⟩, ⟨sets, setsMade, setsKeyed⟩⟩ :=
    performAll_keyed drainedCopy loadedSet
  obtain ⟨emptied, copy, mapsDone, nothing, both⟩ :
      ∃ emptied copy, (HashMap.interface Nat Nat).performAll drainedCopy [] =
        .ok [emptied, copy] ∧ emptied.toList = [] ∧ copy.toList = [(1, 10), (2, 21)] :=
    ⟨_, _, rfl, rfl, rfl⟩
  obtain ⟨set, setsDone, two⟩ :
      ∃ set, (HashSet.interface Nat).performAll loadedSet [] = .ok [set] ∧ set.size = 2 :=
    ⟨_, rfl, rfl⟩
  obtain rfl : [emptied, copy] = maps := Except.ok.inj (mapsDone.symm.trans mapsMade)
  obtain rfl : [set] = sets := Except.ok.inj (setsDone.symm.trans setsMade)
  exact ⟨emptied, copy, set, mapsDone, nothing, both, setsDone, two, mapsKeyed _ (by simp),
    mapsKeyed _ (by simp), setsKeyed _ (by simp)⟩

end RobinHood
