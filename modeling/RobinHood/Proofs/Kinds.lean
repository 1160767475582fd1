import RobinHood.Load.Collect
import RobinHood.Proofs.Outcomes

/-!
What maps and sets have in common: each has a table as a part, and takes in one item after the
other, pairs or values, when room is made for as many as are announced. What follows from a single
insertion is said here of both at once.
-/

namespace RobinHood

/-- A part of something larger, which can be read and exchanged. -/
structure Part (τ σ : Type) where
  get : τ → σ
  put : τ → σ → τ
  get_put : ∀ whole part, get (put whole part) = part
  put_get : ∀ whole, put whole (get whole) = whole

def Part.all : Part σ σ where
  get := id
  put := fun _ part => part
  get_put := fun _ _ => rfl
  put_get := fun _ => rfl

theorem Source.finish_eq_ok {α β : Type} {source : Source α} {filled result : β}
    (done : source.finish filled = .ok result) : source.fault = none ∧ filled = result := by
  unfold finish at done
  split at done
  next whole => exact ⟨whole, Except.ok.inj done⟩
  next => simp at done

/-- Containers that have a table of items and take in items. -/
structure Kind (C ι : Type) where
  part : Part C (Table ι)
  Answer : Type
  insert : Memory → C → ι → Except TableError (Answer × C)

namespace Kind

variable {C ι F : Type}

def reserve (kind : Kind C ι) (memory : Memory) (held : C) (additional : Nat) :
    Except TableError C :=
  ((kind.part.get held).reserve memory additional).map (kind.part.put held)

def insertAll (kind : Kind C ι) (memory : Memory) (held : C) (items : List ι) :
    Except TableError C :=
  items.foldlM (fun held item => (kind.insert memory held item).map Prod.snd) held

def announcedRoom (kind : Kind C ι) (held : C) (announced : Nat) : Nat :=
  if (kind.part.get held).isEmpty then announced else (announced + 1) / 2

def extend (kind : Kind C ι) (memory : Memory) (held : C) (announced : Nat) (items : List ι) :
    Except TableError C := do
  kind.insertAll memory (← kind.reserve memory held (kind.announcedRoom held announced)) items

def load (kind : Kind C ι) (memory : Memory) (start : C) (source : Source ι) :
    Except LoadFault C := do
  let held ← (kind.reserve memory start source.initialCapacity).mapError .table
  let held ← (kind.insertAll memory held source.items).mapError .table
  source.finish held

theorem load_eq (kind : Kind C ι) (memory : Memory) (start : C) (source : Source ι) :
    kind.load memory start source =
      (kind.reserve memory start source.initialCapacity >>= fun held =>
        kind.insertAll memory held source.items).mapError .table >>= source.finish := by
  rw [load]
  cases kind.reserve memory start source.initialCapacity <;> rfl

variable {kind : Kind C ι} {held : C} {meant : F}

theorem announcedRoom_le (kind : Kind C ι) (held : C) (announced : Nat) :
    kind.announcedRoom held announced ≤ announced := by
  unfold announcedRoom
  split <;> omega

/-- What containers stand for, how large that is, and what one more item makes of it. -/
structure Meaning (kind : Kind C ι) (F : Type) where
  Stands : C → F → Prop
  size : F → Nat
  add : F → ι → F
  size_add_le (meant : F) (item : ι) : size (add meant item) ≤ size meant + 1
  valid {held : C} {meant : F} : Stands held meant → (kind.part.get held).Valid
  reserve_allows {held : C} {meant : F} (stands : Stands held meant) (memory : Memory)
    (additional : Nat) :
    memory.Allows (size meant + additional) (kind.reserve memory held additional)
      fun result => Stands result meant
  insert_allows {held : C} {meant : F} (stands : Stands held meant) (memory : Memory) (item : ι) :
    memory.Allows (size meant) (kind.insert memory held item)
      fun answer => Stands answer.2 (add meant item)

theorem Meaning.insertAll_allows (meaning : kind.Meaning F) (stands : meaning.Stands held meant)
    (memory : Memory) (items : List ι) :
    memory.Allows (meaning.size meant + items.length) (kind.insertAll memory held items)
      fun result => meaning.Stands result (items.foldl meaning.add meant) := by
  induction items generalizing held meant with
  | nil => exact Or.inl ⟨held, rfl, stands⟩
  | cons item rest ih =>
      have first : memory.Allows (meaning.size meant)
          ((kind.insert memory held item).map Prod.snd)
          fun result => meaning.Stands result (meaning.add meant item) :=
        (meaning.insert_allows stands memory item).map fun _ after => after
      have size := meaning.size_add_le meant item
      rw [List.length_cons]
      refine (first.imp (by omega) fun _ done => done).bind ?_
      intro result after
      exact (ih after).imp (by omega) fun _ done => done

theorem Meaning.extend_allows (meaning : kind.Meaning F) (stands : meaning.Stands held meant)
    (memory : Memory) (announced : Nat) (items : List ι) :
    memory.Allows (meaning.size meant + (announced + items.length))
      (kind.extend memory held announced items)
      fun result => meaning.Stands result (items.foldl meaning.add meant) := by
  have room := kind.announcedRoom_le held announced
  refine ((meaning.reserve_allows stands memory _).imp (by omega) fun _ done => done).bind ?_
  intro result after
  exact (meaning.insertAll_allows after memory items).imp (by omega) fun _ done => done

theorem Meaning.extend_yields (meaning : kind.Meaning F) (stands : meaning.Stands held meant)
    (nothing : meaning.size meant = 0) (memory : Memory) (announced : Nat) (items : List ι) :
    memory.Yields (announced + items.length) (kind.extend memory held announced items)
      fun result => meaning.Stands result (items.foldl meaning.add meant) := by
  have filled := meaning.extend_allows stands memory announced items
  rw [nothing, Nat.zero_add] at filled
  exact filled.yields fun _ done => done

theorem Meaning.load_yields (meaning : kind.Meaning F) (stands : meaning.Stands held meant)
    (nothing : meaning.size meant = 0) (memory : Memory) {source : Source ι}
    (whole : source.fault = none) :
    memory.Yields (max source.initialCapacity source.items.length) (kind.load memory held source)
      fun loaded => meaning.Stands loaded (source.items.foldl meaning.add meant) := by
  have reserved := (meaning.reserve_allows stands memory source.initialCapacity).imp
    (show _ ≤ max source.initialCapacity source.items.length by omega) fun _ done => done
  have filled := reserved.bind fun room roomy =>
    (meaning.insertAll_allows roomy memory source.items).imp (by omega) fun _ done => done
  have finish : (source.finish : C → Except LoadFault C) = .ok := by
    funext result
    rw [Source.finish, whole]
  rw [load_eq, finish]
  change memory.Yields _ (_ >>= pure) _
  rw [bind_pure]
  exact (filled.yields fun _ done => done).mapError

/-- A property that lasts while room is made and items are put in, whatever memory is refused. -/
structure Lasts (kind : Kind C ι) (property : C → Prop) : Prop where
  valid {held : C} : property held → (kind.part.get held).Valid
  reserve {held : C} (holds : property held) (memory : Memory) (additional : Nat) :
    memory.Permits (kind.reserve memory held additional) property
  insert {held : C} (holds : property held) (memory : Memory) (item : ι) :
    memory.Permits (kind.insert memory held item) fun answer => property answer.2

theorem Meaning.lasts (meaning : kind.Meaning F) :
    kind.Lasts fun held => ∃ meant, meaning.Stands held meant := by
  constructor
  case valid =>
    rintro held ⟨meant, stands⟩
    exact meaning.valid stands
  case reserve =>
    rintro held ⟨meant, stands⟩ memory additional
    exact (meaning.reserve_allows stands memory additional).permits fun _ after => ⟨meant, after⟩
  case insert =>
    rintro held ⟨meant, stands⟩ memory item
    exact (meaning.insert_allows stands memory item).permits fun _ after => ⟨_, after⟩

variable {property : C → Prop}

theorem Lasts.insertAll (lasts : kind.Lasts property) (holds : property held) (memory : Memory)
    (items : List ι) : memory.Permits (kind.insertAll memory held items) property := by
  induction items generalizing held with
  | nil => exact Or.inl ⟨held, rfl, holds⟩
  | cons item rest ih =>
      have first : memory.Permits ((kind.insert memory held item).map Prod.snd) property :=
        (lasts.insert holds memory item).map fun _ after => after
      exact first.bind fun result after => ih after

theorem Lasts.extend (lasts : kind.Lasts property) (holds : property held) (memory : Memory)
    (announced : Nat) (items : List ι) :
    memory.Permits (kind.extend memory held announced items) property :=
  (lasts.reserve holds memory _).bind fun _ after => lasts.insertAll after memory items

theorem fault_of_load {memory : Memory} {source : Source ι} {loaded : C}
    (made : kind.load memory held source = .ok loaded) : source.fault = none := by
  rw [load_eq] at made
  obtain ⟨_, _, finished⟩ := exists_of_bind made
  exact (Source.finish_eq_ok finished).1

theorem Lasts.load (lasts : kind.Lasts property) (holds : property held) {memory : Memory}
    {source : Source ι} {loaded : C} (made : kind.load memory held source = .ok loaded) :
    property loaded := by
  rw [load_eq] at made
  obtain ⟨filled, inserted, finished⟩ := exists_of_bind made
  obtain ⟨_, rfl⟩ := Source.finish_eq_ok finished
  have filling := (lasts.reserve holds memory source.initialCapacity).bind fun _ roomy =>
    lasts.insertAll roomy memory source.items
  exact filling.of_ok (mapError_eq_ok.mp inserted)

end Kind

namespace HashMap

variable {K V : Type}

def tablePart : Part (HashMap K V) (Table (K × V)) where
  get := HashMap.table
  put map table := { map with table }
  get_put := fun _ _ => rfl
  put_get := fun _ => rfl

@[simp] theorem get_tablePart (map : HashMap K V) : tablePart.get map = map.table := rfl

def kind [BEq K] : Kind (HashMap K V) (K × V) where
  part := tablePart
  Answer := Option V
  insert memory map pair := map.insert memory pair.1 pair.2

variable [BEq K]

theorem insertAll_eq (memory : Memory) (map : HashMap K V) (pairs : List (K × V)) :
    map.insertAll memory pairs = kind.insertAll memory map pairs := rfl

theorem extend_eq (memory : Memory) (map : HashMap K V) (announced : Nat) (pairs : List (K × V)) :
    map.extend memory announced pairs = kind.extend memory map announced pairs := rfl

theorem load_eq_kind (memory : Memory) (hash : K → UInt64) (source : Source (K × V)) :
    load memory hash source = kind.load memory (withHasher hash) source := rfl

end HashMap

namespace HashSet

variable {T : Type}

def tablePart : Part (HashSet T) (Table T) where
  get := HashSet.table
  put set table := { set with table }
  get_put := fun _ _ => rfl
  put_get := fun _ => rfl

@[simp] theorem get_tablePart (set : HashSet T) : tablePart.get set = set.table := rfl

def kind [BEq T] : Kind (HashSet T) T where
  part := tablePart
  Answer := Bool
  insert memory set value := set.insert memory value

variable [BEq T]

theorem insertAll_eq (memory : Memory) (set : HashSet T) (values : List T) :
    set.insertAll memory values = kind.insertAll memory set values := rfl

theorem extend_eq (memory : Memory) (set : HashSet T) (announced : Nat) (values : List T) :
    set.extend memory announced values = kind.extend memory set announced values := rfl

theorem load_eq_kind (memory : Memory) (hash : T → UInt64) (source : Source T) :
    load memory hash source = kind.load memory (withHasher hash) source := rfl

end HashSet

end RobinHood
