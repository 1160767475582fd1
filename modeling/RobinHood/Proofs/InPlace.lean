import RobinHood.Proofs.Kinds

/-!
The calls that may ask for memory, as they change a table in place, step by step: what was written
before a failure stays written, and every slot count asked of the memory is noted. Each call answers
and leaves what its counterpart on values gives.
-/

namespace RobinHood

variable {α β γ ι σ τ : Type}

/-- What a call works on, and the slot counts asked of the memory so far. -/
structure Live (σ : Type) where
  held : σ
  requests : List Nat

def Live.asked (live : Live σ) (slots : Nat) : Live σ :=
  { live with requests := live.requests ++ [slots] }

abbrev InPlace (σ β : Type) := EStateM TableError (Live σ) β

namespace InPlace

def held : InPlace σ σ := do
  return (← get).held

def hold (next : σ) : InPlace σ Unit :=
  modify fun live => { live with held := next }

def update (change : σ → Except TableError σ) : InPlace σ Unit := do
  hold (← ofExcept (change (← held)))

def conclude (result : Except TableError (β × σ)) : InPlace σ β := do
  let (answer, next) ← ofExcept result
  hold next
  return answer

def allocate (memory : Memory) (slots : Nat) : InPlace σ (Array (Slot α)) := do
  if UInt64.size / 2 ≤ slots * memory.slotBytes then throw .capacityOverflow
  else
    modify fun live => live.asked slots
    ofExcept (memory.allocate slots)

def within (part : Part τ σ) (call : InPlace σ β) : InPlace τ β := fun live =>
  match call { live with held := part.get live.held } with
  | .ok answer after => .ok answer { after with held := part.put live.held after.held }
  | .error error after => .error error { after with held := part.put live.held after.held }

end InPlace

namespace Table

open InPlace

/-- The array and the geometry are exchanged first; then the cells are placed one by one. -/
def resizeInPlace (memory : Memory) (slots : Nat) : InPlace (Table α) Unit := do
  let table ← held
  if ¬ isPowerOfTwo slots ∨ slots ≤ table.slotCount then throw (.broken (.slotCount slots))
  else
    let fresh ← allocate memory slots
    hold (ofSlots fresh table.population)
    table.cells.forM fun cell => update fun table => table.place cell

def growInPlace (memory : Memory) : InPlace (Table α) Unit := do
  let table ← held
  if table.slotCount = 0 then resizeInPlace memory leastSlots
  else if UInt64.size ≤ 2 * table.slotCount then throw .capacityOverflow
  else resizeInPlace memory (2 * table.slotCount)

def growIfFullInPlace (memory : Memory) : InPlace (Table α) Unit := do
  let table ← held
  if table.population = table.trigger then growInPlace memory else pure ()

def reserveInPlace (memory : Memory) (additional : Nat) : InPlace (Table α) Unit := do
  let table ← held
  let required := table.population + additional
  if UInt64.size ≤ required then throw .capacityOverflow
  else if required = 0 ∨ required ≤ table.trigger then pure ()
  else resizeInPlace memory (← ofExcept (slotsFor required))

def locate (table : Table α) (raw : UInt64) (accept : α → Bool) : Except TableError (Entry α) := do
  match ← table.probe (storedHash raw) accept with
  | .found index _ => return .occupied { table, index }
  | .vacant index _ => return .vacant { table, hash := storedHash raw, index }

def entryInPlace (memory : Memory) (raw : UInt64) (accept : α → Bool) :
    InPlace (Table α) (Entry α) := do
  growIfFullInPlace memory
  ofExcept ((← held).locate raw accept)

end Table

namespace HashMap

open InPlace

variable {K V : Type}

def reserveInPlace (memory : Memory) (additional : Nat) : InPlace (HashMap K V) Unit :=
  within tablePart (Table.reserveInPlace memory additional)

def ofTableEntry (map : HashMap K V) (key : K) : Table.Entry (K × V) → Entry K V
  | .vacant place => .vacant { place, key, hash := map.hash }
  | .occupied place => .occupied { place, hash := map.hash }

def Entry.insertValue (value : V) : Entry K V → Except TableError (Option V × HashMap K V)
  | .occupied place => do
      let (old, place) ← place.replace value
      return (some old, place.toMap)
  | .vacant place => return (none, (← place.insert value).toMap)

def Entry.assignValue (value : V) : Entry K V → Except TableError (Occupied K V × Bool)
  | .occupied place => return (← place.modify fun _ => value, false)
  | .vacant place => return (← place.insert value, true)

variable [BEq K]

def entryInPlace (memory : Memory) (key : K) : InPlace (HashMap K V) (Entry K V) := do
  let map ← held
  let entry ← within tablePart (Table.entryInPlace memory (map.hash key) fun pair => pair.1 == key)
  return map.ofTableEntry key entry

def insertInPlace (memory : Memory) (key : K) (value : V) : InPlace (HashMap K V) (Option V) := do
  let entry ← entryInPlace memory key
  conclude (entry.insertValue value)

def assignInPlace (memory : Memory) (key : K) (value : V) :
    InPlace (HashMap K V) (Occupied K V × Bool) := do
  let entry ← entryInPlace memory key
  conclude ((entry.assignValue value).map fun answer => (answer, answer.1.toMap))

def insertAllInPlace (memory : Memory) (pairs : List (K × V)) : InPlace (HashMap K V) Unit :=
  pairs.forM fun pair => discard (insertInPlace memory pair.1 pair.2)

def announcedRoom (map : HashMap K V) (announced : Nat) : Nat :=
  if map.isEmpty then announced else (announced + 1) / 2

def extendInPlace (memory : Memory) (announced : Nat) (pairs : List (K × V)) :
    InPlace (HashMap K V) Unit := do
  let map ← held
  reserveInPlace memory (map.announcedRoom announced)
  insertAllInPlace memory pairs

end HashMap

namespace HashSet

open InPlace

variable {T : Type}

def reserveInPlace (memory : Memory) (additional : Nat) : InPlace (HashSet T) Unit :=
  within tablePart (Table.reserveInPlace memory additional)

def insertAt (set : HashSet T) (value : T) : Table.Entry T → Except TableError (Bool × HashSet T)
  | .occupied place => return (false, { set with table := place.table })
  | .vacant place => do
      let place ← place.insert value
      return (true, { set with table := place.table })

variable [BEq T]

def insertInPlace (memory : Memory) (value : T) : InPlace (HashSet T) Bool := do
  let set ← held
  let entry ← within tablePart (Table.entryInPlace memory (set.hash value) (· == value))
  conclude (set.insertAt value entry)

def insertAllInPlace (memory : Memory) (values : List T) : InPlace (HashSet T) Unit :=
  values.forM fun value => discard (insertInPlace memory value)

def announcedRoom (set : HashSet T) (announced : Nat) : Nat :=
  if set.isEmpty then announced else (announced + 1) / 2

def extendInPlace (memory : Memory) (announced : Nat) (values : List T) :
    InPlace (HashSet T) Unit := do
  let set ← held
  reserveInPlace memory (set.announcedRoom announced)
  insertAllInPlace memory values

end HashSet

/-! What is left of a call if the notes and the remains of a failure are forgotten. -/

namespace InPlace

@[simp] theorem run_held (live : Live σ) : held.run live = .ok live.held live := rfl

@[simp] theorem run_hold (next : σ) (live : Live σ) :
    (hold next).run live = .ok () { live with held := next } := rfl

@[simp] theorem run_ofExcept_ok (answer : β) (live : Live σ) :
    (ofExcept (.ok answer) : InPlace σ β).run live = .ok answer live := rfl

@[simp] theorem run_ofExcept_error (error : TableError) (live : Live σ) :
    (ofExcept (.error error) : InPlace σ β).run live = .error error live := rfl

theorem run_update {change : σ → Except TableError σ} {held next : σ}
    (changed : change held = .ok next) (requests : List Nat) :
    (update change).run ⟨held, requests⟩ = .ok () ⟨next, requests⟩ := by
  simp only [update, EStateM.run_bind, run_held, changed]
  rfl

theorem run_within_ok {part : Part τ σ} {call : InPlace σ β} {live : Live τ} {answer : β}
    {after : Live σ}
    (ended : call.run { live with held := part.get live.held } = .ok answer after) :
    (within part call).run live =
      .ok answer { after with held := part.put live.held after.held } := by
  rw [EStateM.run] at ended
  rw [EStateM.run, within, ended]

theorem run_within_error {part : Part τ σ} {call : InPlace σ β} {live : Live τ}
    {error : TableError} {after : Live σ}
    (ended : call.run { live with held := part.get live.held } = .error error after) :
    (within part call).run live =
      .error error { after with held := part.put live.held after.held } := by
  rw [EStateM.run] at ended
  rw [EStateM.run, within, ended]

def outcome : EStateM.Result TableError (Live σ) β → Except TableError (β × σ)
  | .ok answer after => .ok (answer, after.held)
  | .error error _ => .error error

/-- A call answers and leaves what an effect on values gives. -/
def Agrees (call : InPlace σ β) (effect : σ → Except TableError (β × σ)) : Prop :=
  ∀ live : Live σ, outcome (call.run live) = effect live.held

def effect (change : Except TableError σ) : Except TableError (Unit × σ) :=
  change.map fun held => ((), held)

theorem effect_bind (first : Except TableError σ) (rest : σ → Except TableError σ) :
    effect (first >>= rest) = effect first >>= fun answer => effect (rest answer.2) := by
  cases first <;> rfl

theorem Agrees.bind {call : InPlace σ β} {next : β → InPlace σ γ}
    {first : σ → Except TableError (β × σ)} {rest : β → σ → Except TableError (γ × σ)}
    (agrees : Agrees call first) (later : ∀ answer, Agrees (next answer) (rest answer)) :
    Agrees (call >>= next) fun held => first held >>= fun answer => rest answer.1 answer.2 := by
  intro live
  simp only [EStateM.run_bind, ← agrees live]
  cases call.run live with
  | ok answer middle => exact later answer middle
  | error error middle => rfl

theorem agrees_held : Agrees (σ := σ) held fun held => .ok (held, held) :=
  fun _ => rfl

theorem agrees_hold (next : σ) : Agrees (hold next) fun _ => .ok ((), next) :=
  fun _ => rfl

theorem agrees_ofExcept (given : Except TableError β) :
    Agrees (σ := σ) (ofExcept given) fun held => given.map fun answer => (answer, held) := by
  intro live
  cases given <;> rfl

theorem agrees_update (change : σ → Except TableError σ) :
    Agrees (update change) fun held => effect (change held) := by
  intro live
  simp only [update, EStateM.run_bind, run_held]
  cases change live.held <;> rfl

theorem agrees_conclude (result : Except TableError (β × σ)) :
    Agrees (conclude result) fun _ => result := by
  intro live
  cases result <;> rfl

theorem agrees_allocate (memory : Memory) (slots : Nat) :
    Agrees (σ := σ) (allocate (α := α) memory slots) fun held =>
      (memory.allocate slots).map fun fresh => (fresh, held) := by
  intro live
  by_cases large : UInt64.size / 2 ≤ slots * memory.slotBytes
  · simp only [allocate, Memory.allocate, large, if_true]
    rfl
  · simp only [allocate, Memory.allocate, large, if_false]
    cases memory.grants slots <;> rfl

theorem Agrees.forM {call : ι → InPlace σ Unit} {change : σ → ι → Except TableError σ}
    (each : ∀ item, Agrees (call item) fun held => effect (change held item)) (items : List ι) :
    Agrees (items.forM call) fun held => effect (items.foldlM change held) := by
  induction items with
  | nil => exact fun _ => rfl
  | cons item rest ih =>
      intro live
      refine ((each item).bind (fun _ => ih) live).trans ?_
      simp only [List.foldlM_cons]
      cases change live.held item <;> rfl

theorem Agrees.within (part : Part τ σ) {call : InPlace σ β}
    {whole : σ → Except TableError (β × σ)} (agrees : Agrees call whole) :
    Agrees (within part call) fun held =>
      (whole (part.get held)).map fun answer => (answer.1, part.put held answer.2) := by
  intro live
  have here := agrees { live with held := part.get live.held }
  cases ended : call.run { live with held := part.get live.held } with
  | ok answer after =>
      rw [ended] at here
      simp only [run_within_ok ended, ← here]
      rfl
  | error error after =>
      rw [ended] at here
      simp only [run_within_error ended, ← here]
      rfl

theorem Agrees.discard {call : InPlace σ β} {whole : σ → Except TableError (β × σ)}
    (agrees : Agrees call whole) :
    Agrees (discard call) fun held => effect ((whole held).map Prod.snd) := by
  intro live
  simp only [← agrees live]
  change outcome ((Function.const β PUnit.unit <$> call).run live) = _
  rw [EStateM.run_map]
  cases call.run live <;> rfl

end InPlace

namespace Table

open InPlace

theorem resizeInPlace_agrees (memory : Memory) (slots : Nat) :
    Agrees (resizeInPlace memory slots) fun table : Table α =>
      effect (table.resize memory slots) := by
  intro live
  simp only [resizeInPlace, resize, EStateM.run_bind, run_held]
  split
  · rfl
  · have steps := (agrees_allocate memory slots).bind fun fresh =>
      (agrees_hold (ofSlots fresh live.held.population)).bind fun _ =>
        Agrees.forM (fun cell : Cell α => agrees_update (·.place cell)) live.held.cells
    refine (steps live).trans ?_
    cases memory.allocate (α := α) slots <;> rfl

theorem growInPlace_agrees (memory : Memory) :
    Agrees (growInPlace memory) fun table : Table α => effect (table.grow memory) := by
  intro live
  simp only [growInPlace, grow, EStateM.run_bind, run_held]
  split
  · exact resizeInPlace_agrees memory leastSlots live
  · split
    · rfl
    · exact resizeInPlace_agrees memory _ live

theorem growIfFullInPlace_agrees (memory : Memory) :
    Agrees (growIfFullInPlace memory) fun table : Table α => effect (table.growIfFull memory) := by
  intro live
  simp only [growIfFullInPlace, growIfFull, EStateM.run_bind, run_held]
  split
  · exact growInPlace_agrees memory live
  · rfl

theorem reserveInPlace_agrees (memory : Memory) (additional : Nat) :
    Agrees (reserveInPlace memory additional) fun table : Table α =>
      effect (table.reserve memory additional) := by
  intro live
  simp only [reserveInPlace, reserve, EStateM.run_bind, run_held]
  split
  · rfl
  · split
    · rfl
    · have steps := (agrees_ofExcept (slotsFor (live.held.population + additional))).bind
        (resizeInPlace_agrees (α := α) memory)
      refine (steps live).trans ?_
      cases slotsFor (live.held.population + additional) <;> rfl

theorem reserveWithin_agrees (part : Part τ (Table α)) (memory : Memory) (additional : Nat) :
    Agrees (within part (reserveInPlace memory additional)) fun held =>
      effect (((part.get held).reserve memory additional).map (part.put held)) := by
  intro live
  refine ((reserveInPlace_agrees memory additional).within part live).trans ?_
  dsimp only
  cases (part.get live.held).reserve memory additional <;> rfl

theorem entry_eq_locate (memory : Memory) (table : Table α) (raw : UInt64) (accept : α → Bool) :
    table.entry memory raw accept = table.growIfFull memory >>= fun ready =>
      ready.locate raw accept := rfl

theorem table_of_locate {table : Table α} {raw : UInt64} {accept : α → Bool} {entry : Entry α}
    (located : table.locate raw accept = .ok entry) : entry.table = table := by
  unfold locate at located
  cases probed : table.probe (storedHash raw) accept with
  | error error => simp [probed, bind, Except.bind] at located
  | ok probe =>
      rw [probed] at located
      cases probe with
      | found index distance =>
          obtain rfl : _ = entry := Except.ok.inj located
          rfl
      | vacant index distance =>
          obtain rfl : _ = entry := Except.ok.inj located
          rfl

theorem entryInPlace_agrees (memory : Memory) (raw : UInt64) (accept : α → Bool) :
    Agrees (entryInPlace memory raw accept) fun table : Table α =>
      (table.entry memory raw accept).map fun entry => (entry, entry.table) := by
  have steps := (growIfFullInPlace_agrees (α := α) memory).bind fun _ =>
    agrees_held.bind fun table => agrees_ofExcept (table.locate raw accept)
  intro live
  refine (steps live).trans ?_
  simp only [entry_eq_locate]
  cases live.held.growIfFull memory with
  | error error => rfl
  | ok ready =>
      change (ready.locate raw accept).map _ = (ready.locate raw accept).map _
      cases located : ready.locate raw accept with
      | error error => rfl
      | ok entry => rw [Except.map, Except.map, table_of_locate located]

end Table

/-- Containers of a kind, changed in place step by step. -/
structure InPlaceKind (C ι : Type) extends Kind C ι where
  insertInPlace : Memory → ι → InPlace C Answer
  agrees (memory : Memory) (item : ι) :
    InPlace.Agrees (insertInPlace memory item) fun held => insert memory held item

namespace InPlaceKind

open InPlace

variable {C : Type}

def reserveInPlace (kind : InPlaceKind C ι) (memory : Memory) (additional : Nat) :
    InPlace C Unit :=
  within kind.part (Table.reserveInPlace memory additional)

def insertAllInPlace (kind : InPlaceKind C ι) (memory : Memory) (items : List ι) :
    InPlace C Unit :=
  items.forM fun item => discard (kind.insertInPlace memory item)

def extendInPlace (kind : InPlaceKind C ι) (memory : Memory) (announced : Nat) (items : List ι) :
    InPlace C Unit := do
  let held ← held
  kind.reserveInPlace memory (kind.announcedRoom held announced)
  kind.insertAllInPlace memory items

theorem reserveInPlace_agrees (kind : InPlaceKind C ι) (memory : Memory) (additional : Nat) :
    Agrees (kind.reserveInPlace memory additional) fun held =>
      effect (kind.reserve memory held additional) :=
  Table.reserveWithin_agrees kind.part memory additional

theorem insertAllInPlace_agrees (kind : InPlaceKind C ι) (memory : Memory) (items : List ι) :
    Agrees (kind.insertAllInPlace memory items) fun held =>
      effect (kind.insertAll memory held items) :=
  Agrees.forM (fun item => (kind.agrees memory item).discard) items

theorem extendInPlace_agrees (kind : InPlaceKind C ι) (memory : Memory) (announced : Nat)
    (items : List ι) :
    Agrees (kind.extendInPlace memory announced items) fun held =>
      effect (kind.extend memory held announced items) := by
  intro live
  let room := kind.announcedRoom live.held announced
  have steps := (kind.reserveInPlace_agrees memory room).bind fun _ =>
    kind.insertAllInPlace_agrees memory items
  have split := effect_bind (kind.reserve memory live.held room) fun held =>
    kind.insertAll memory held items
  exact (steps live).trans split.symm

end InPlaceKind

namespace HashMap

open InPlace

variable {K V : Type}

theorem toMap_ofTableEntry (map : HashMap K V) (key : K) (entry : Table.Entry (K × V)) :
    (map.ofTableEntry key entry).toMap = { map with table := entry.table } := by
  cases entry <;> rfl

variable [BEq K]

theorem entry_eq (memory : Memory) (map : HashMap K V) (key : K) :
    map.entry memory key =
      (map.table.entry memory (map.hash key) fun pair => pair.1 == key).map
        (map.ofTableEntry key) := by
  unfold entry
  cases map.table.entry memory (map.hash key) fun pair => pair.1 == key with
  | error error => rfl
  | ok entry => cases entry <;> rfl

theorem insert_eq (memory : Memory) (map : HashMap K V) (key : K) (value : V) :
    map.insert memory key value = map.entry memory key >>= Entry.insertValue value := by
  unfold insert
  congr 1

theorem assign_eq (memory : Memory) (map : HashMap K V) (key : K) (value : V) :
    map.assign memory key value = map.entry memory key >>= Entry.assignValue value := by
  unfold assign
  congr 1

theorem entryInPlace_agrees (memory : Memory) (key : K) :
    Agrees (entryInPlace memory key) fun map : HashMap K V =>
      (map.entry memory key).map fun entry => (entry, entry.toMap) := by
  intro live
  have steps := ((Table.entryInPlace_agrees memory (live.held.hash key)
    fun pair : K × V => pair.1 == key).within tablePart).bind fun entry =>
      agrees_ofExcept (.ok (live.held.ofTableEntry key entry))
  refine (steps live).trans ?_
  simp only [entry_eq, get_tablePart]
  cases live.held.table.entry memory (live.held.hash key) fun pair => pair.1 == key with
  | error error => rfl
  | ok entry =>
      simp only [Except.map, toMap_ofTableEntry]
      rfl

theorem insertInPlace_agrees (memory : Memory) (key : K) (value : V) :
    Agrees (insertInPlace memory key value) fun map => map.insert memory key value := by
  have steps := (entryInPlace_agrees memory key).bind fun entry =>
    agrees_conclude (entry.insertValue value)
  intro live
  refine (steps live).trans ?_
  simp only [insert_eq]
  cases live.held.entry memory key <;> rfl

theorem assignInPlace_agrees (memory : Memory) (key : K) (value : V) :
    Agrees (assignInPlace memory key value) fun map =>
      (map.assign memory key value).map fun answer => (answer, answer.1.toMap) := by
  have steps := (entryInPlace_agrees memory key).bind fun entry =>
    agrees_conclude ((entry.assignValue value).map fun answer => (answer, answer.1.toMap))
  intro live
  refine (steps live).trans ?_
  simp only [assign_eq]
  cases live.held.entry memory key <;> rfl

def inPlace : InPlaceKind (HashMap K V) (K × V) where
  toKind := kind
  insertInPlace memory pair := insertInPlace memory pair.1 pair.2
  agrees memory pair := insertInPlace_agrees memory pair.1 pair.2

end HashMap

namespace HashSet

open InPlace

variable {T : Type} [BEq T]

theorem insert_eq (memory : Memory) (set : HashSet T) (value : T) :
    set.insert memory value = set.entry memory value >>= set.insertAt value := by
  unfold insert
  congr 1

theorem insertInPlace_agrees (memory : Memory) (value : T) :
    Agrees (insertInPlace memory value) fun set => set.insert memory value := by
  intro live
  have steps := ((Table.entryInPlace_agrees memory (live.held.hash value)
    (· == value)).within tablePart).bind fun entry =>
      agrees_conclude (live.held.insertAt value entry)
  refine (steps live).trans ?_
  simp only [insert_eq, entry, get_tablePart]
  cases live.held.table.entry memory (live.held.hash value) (· == value) <;> rfl

def inPlace : InPlaceKind (HashSet T) T where
  toKind := kind
  insertInPlace := insertInPlace
  agrees := insertInPlace_agrees

end HashSet

end RobinHood
