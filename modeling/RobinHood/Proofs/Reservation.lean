import RobinHood.Proofs.Atomicity
import RobinHood.Proofs.PeakPopulation

/-!
What a reservation is good for. A table with room for so many values keeps its slots and asks for no
memory through any calls, as long as no more entries are taken than there was room for. So a map or
a set that is made with enough room, or from a source that announces all it has, asks only once.
-/

namespace RobinHood

open InPlace

variable {α ι σ τ : Type}

theorem Settles.discard {β : Type} {call : InPlace σ β} {live : Live σ} {good : β → σ → Prop}
    {better : σ → Prop} (settles : Settles live good (call.run live))
    (implies : ∀ answer held, good answer held → better held) :
    Settles live (fun _ held => better held) ((discard call).run live) := by
  obtain ⟨answer, held, ended, is⟩ := settles
  refine ⟨(), held, ?_, implies answer held is⟩
  change (Function.const β PUnit.unit <$> call).run live = _
  rw [EStateM.run_map, ended]
  rfl

namespace Table

variable {table reserved after : Table α} {slots room : Nat}

/-- A call as it changes a table in place. A request that is refused ends it. -/
def Operation.runInPlace : Operation α → InPlace (Table α) Unit
  | .reserve memory additional => reserveInPlace memory additional
  | .entry memory raw accept use => do
      let entry ← entryInPlace memory raw accept
      hold (← ofExcept (use.on entry))
  | operation => update operation.apply

/-- A drain that is never closed leaves a table without slots. -/
def Operation.leaks : Operation α → Bool
  | .drain _ closed => !closed
  | _ => false

namespace Use

def runInPlace : Use α → InPlace (Table α) Unit
  | find raw accept => do
      let table ← held
      discard (ofExcept (table.find raw accept))
  | act operation _ => operation.runInPlace

def entries : Use α → Nat
  | find _ _ => 0
  | act operation _ => operation.entries

def leaks : Use α → Bool
  | find _ _ => false
  | act operation _ => operation.leaks

end Use

def entriesIn (uses : List (Use α)) : Nat :=
  (uses.map Use.entries).sum

/-- A table of so many slots with room for so many values more. -/
structure HasRoom (table : Table α) (slots room : Nat) : Prop where
  valid : Valid table
  slotCount : table.slotCount = slots
  room : table.population + room ≤ table.trigger

theorem HasRoom.of_grows {count : Nat} (has : HasRoom table slots (count + room))
    (valid : Valid after) (slotCount : after.slotCount = table.slotCount)
    (population : after.population ≤ table.population + count) : HasRoom after slots room := by
  have share := has.valid.eight_mul_trigger
  have afterShare := valid.eight_mul_trigger
  have fits := has.room
  exact ⟨valid, slotCount.trans has.slotCount, by omega⟩

theorem Entry.Stands.on_valid {raw : UInt64} {accept : α → Bool} {entry : Entry α}
    (stands : entry.Stands table raw accept) (use : EntryUse α) :
    ∃ result, use.on entry = .ok result ∧ Valid result := by
  cases stands with
  | occupied holds =>
      obtain ⟨result, used, valid, _⟩ := use.onOccupied_valid holds
      exact ⟨result, used, valid⟩
  | vacant awaits =>
      obtain ⟨result, used, valid, _⟩ := use.onVacant_valid awaits
      exact ⟨result, used, valid⟩

theorem Valid.run_entry (valid : Valid table) {memory : Memory} {raw : UInt64}
    {accept : α → Bool} {use : EntryUse α} (room : table.population ≠ table.trigger)
    (applied : (Operation.entry memory raw accept use).apply table = .ok after)
    (requests : List Nat) :
    (Operation.entry memory raw accept use).runInPlace.run ⟨table, requests⟩ =
      .ok () ⟨after, requests⟩ := by
  obtain ⟨entry, held, ended, ⟨_, stands⟩, _⟩ :=
    (valid.entryInPlace_enters memory raw accept requests).roomy room
  have agrees := entryInPlace_agrees memory raw accept ⟨table, requests⟩
  rw [ended] at agrees
  obtain ⟨found, located, same⟩ := exists_of_map agrees.symm
  obtain ⟨rfl, _⟩ := Prod.mk.inj same
  obtain ⟨result, used, _⟩ := stands.on_valid use
  obtain rfl : result = after := by
    rw [Operation.apply, located] at applied
    change unlessRefused table (use.on found) = _ at applied
    rw [used] at applied
    exact Except.ok.inj applied
  rw [Operation.runInPlace, EStateM.run_bind, ended]
  simp only [EStateM.run_bind, used]
  rfl

theorem HasRoom.step {use : Use α} (has : HasRoom table slots (use.entries + room))
    (kept : use.leaks = false) :
    ∃ result, use.run table = .ok result ∧ HasRoom result slots room ∧
      ∀ requests, use.runInPlace.run ⟨table, requests⟩ = .ok () ⟨result, requests⟩ := by
  cases use with
  | find raw accept =>
      obtain ⟨answer, found⟩ : ∃ answer, table.find raw accept = .ok answer := by
        rcases has.valid.find_cases raw accept with ⟨cell, _, _, found⟩ | ⟨_, missed⟩
        · exact ⟨some cell.value, found⟩
        · exact ⟨none, missed⟩
      refine ⟨table, ?_, has.of_grows has.valid rfl (Nat.le_add_right _ _), ?_⟩
      · rw [Use.run, found]
        rfl
      · intro requests
        rw [Use.runInPlace, EStateM.run_bind, run_held]
        simp only [found]
        rfl
  | act operation unreserved =>
      have fits : table.population + (operation.entries + room) ≤ table.trigger := has.room
      have below (enters : operation.entries = 1) : table.population ≠ table.trigger := by omega
      obtain ⟨result, applied, valid, population⟩ := operation.apply_valid has.valid
      have slotCount : result.slotCount = table.slotCount := by
        cases Operation.slotChange applied with
        | kept same => exact same
        | first _ full _ => exact absurd full (below rfl)
        | doubled _ full _ _ => exact absurd full (below rfl)
        | reserved => simp [Operation.reserves] at unreserved
        | leaked => simp [Use.leaks, Operation.leaks] at kept
      refine ⟨result, applied, has.of_grows valid slotCount population, ?_⟩
      intro requests
      cases operation with
      | reserve memory additional => simp [Operation.reserves] at unreserved
      | entry memory raw accept use => exact has.valid.run_entry (below rfl) applied requests
      | _ => exact run_update applied requests

theorem HasRoom.runs (uses : List (Use α)) (has : HasRoom table slots (entriesIn uses))
    (kept : ∀ use ∈ uses, use.leaks = false) :
    ∃ later last, history table uses = .ok (table :: later) ∧
      (∀ moment ∈ table :: later, moment.slotCount = slots) ∧
        (table :: later).getLast? = some last ∧
          ∀ requests, (uses.forM Use.runInPlace).run ⟨table, requests⟩ =
            .ok () ⟨last, requests⟩ := by
  induction uses generalizing table with
  | nil =>
      exact ⟨[], table, rfl, List.forall_mem_singleton.mpr has.slotCount, rfl, fun _ => rfl⟩
  | cons use rest ih =>
      rw [entriesIn, List.map_cons, List.sum_cons] at has
      obtain ⟨result, ran, resultHas, inPlace⟩ := has.step (kept use List.mem_cons_self)
      obtain ⟨later, last, passed, counts, ends, runs⟩ :=
        ih resultHas fun use member => kept use (List.mem_cons_of_mem _ member)
      refine ⟨result :: later, last, bind_of_ok ran (bind_of_ok passed rfl),
        List.forall_mem_cons.mpr ⟨has.slotCount, counts⟩, ends, ?_⟩
      intro requests
      change (use.runInPlace >>= fun _ => rest.forM Use.runInPlace).run _ = _
      rw [EStateM.run_bind, inPlace]
      exact runs requests

theorem Reserves.cases_of_ok {memory : Memory} {additional : Nat} {part : Part τ (Table α)}
    {live after : Live τ} (reserves : Reserves memory additional part live (.ok () after)) :
    (part.get live.held).population + additional ≤ (part.get live.held).trigger ∧ after = live ∨
      (part.get live.held).trigger < (part.get live.held).population + additional ∧
        FewestSlots ((part.get live.held).population + additional)
            (part.get after.held).slotCount ∧
          Grown (part.get live.held) (part.get after.held) ∧
            after.requests = live.requests ++ [(part.get after.held).slotCount] := by
  rcases reserves.cases with ⟨fits, done⟩ | failed | ⟨tight, slots, fewest, asks⟩
  · rw [EStateM.Result.ok.injEq] at done
    exact Or.inl ⟨fits, done.2⟩
  · simp at failed
  · rcases asks.cases with failed | failed | ⟨_, held, ended, grown, rfl⟩
    · simp at failed
    · simp at failed
    · rw [EStateM.Result.ok.injEq] at ended
      obtain rfl := ended.2
      exact Or.inr ⟨tight, fewest, grown, rfl⟩

theorem Reserves.hasRoom {memory : Memory} {additional : Nat} {part : Part τ (Table α)}
    {live after : Live τ} (reserves : Reserves memory additional part live (.ok () after))
    (valid : Valid (part.get live.held)) :
    HasRoom (part.get after.held) (part.get after.held).slotCount additional := by
  rcases reserves.cases_of_ok with ⟨fits, rfl⟩ | ⟨_, fewest, grown, _⟩
  · exact ⟨valid, rfl, fits⟩
  · have share := grown.sound.shaped.eight_mul_trigger
    have enough := fewest.enough
    have population := grown.population
    exact ⟨.allocated grown.sound, rfl, by omega⟩

/-- What a reservation makes of a table, and what it is good for. Nothing changes if there was room;
otherwise the table gets the fewest slots that will do, asked for once. -/
structure Reservation (memory : Memory) (table reserved : Table α) (additional : Nat) : Prop where
  population : reserved.population = table.population
  room : table.population + additional ≤ reserved.trigger
  fitted : table.population + additional ≤ table.trigger → reserved = table ∧
    ∀ requests, (reserveInPlace memory additional).run ⟨table, requests⟩ =
      .ok () ⟨table, requests⟩
  larger : table.trigger < table.population + additional →
    table.slotCount < reserved.slotCount ∧
      FewestSlots (table.population + additional) reserved.slotCount ∧
        ∀ requests, (reserveInPlace memory additional).run ⟨table, requests⟩ =
          .ok () ⟨reserved, requests ++ [reserved.slotCount]⟩
  lasts : ∀ uses : List (Use α), entriesIn uses ≤ additional →
    (∀ use ∈ uses, use.leaks = false) →
      ∃ moments last, history reserved uses = .ok moments ∧
        (∀ moment ∈ moments, moment.slotCount = reserved.slotCount) ∧
          moments.getLast? = some last ∧
            ∀ requests, (uses.forM Use.runInPlace).run ⟨reserved, requests⟩ =
              .ok () ⟨last, requests⟩

theorem Valid.run_reserve (valid : Valid table) {memory : Memory} {additional : Nat}
    (done : table.reserve memory additional = .ok reserved) (requests : List Nat) :
    ∃ later, (reserveInPlace memory additional).run ⟨table, requests⟩ =
        .ok () ⟨reserved, later⟩ ∧
      Reserves memory additional .all ⟨table, requests⟩ (.ok () ⟨reserved, later⟩) := by
  have reserves := valid.reserveInPlace_reserves memory additional requests
  have agrees := reserveInPlace_agrees memory additional ⟨table, requests⟩
  simp only [done] at agrees
  cases ran : (reserveInPlace memory additional).run ⟨table, requests⟩ with
  | error error after =>
      rw [ran] at agrees
      simp [outcome, effect, Except.map] at agrees
  | ok answer after =>
      rw [ran] at agrees reserves
      obtain ⟨_, same⟩ := Prod.mk.inj (Except.ok.inj agrees)
      obtain ⟨held, later⟩ := after
      obtain rfl : held = reserved := same
      exact ⟨later, rfl, reserves⟩

theorem Valid.reservation (valid : Valid table) {memory : Memory} {additional : Nat}
    (done : table.reserve memory additional = .ok reserved) :
    Reservation memory table reserved additional := by
  obtain ⟨_, _, reserves⟩ := valid.run_reserve done []
  have has : HasRoom reserved reserved.slotCount additional := reserves.hasRoom valid
  have population : reserved.population = table.population := by
    rcases reserves.cases_of_ok with ⟨_, same⟩ | ⟨_, _, grown, _⟩
    · exact congrArg (fun live => live.held.population) same
    · exact grown.population
  have fits := has.room
  constructor
  case population => exact population
  case room => omega
  case fitted =>
    intro roomy
    have ended (requests : List Nat) := (valid.reserveInPlace_reserves memory additional
      requests).roomy (Or.inr roomy)
    refine ⟨?_, ended⟩
    obtain ⟨later, ran, _⟩ := valid.run_reserve done []
    have same := ran.symm.trans (ended [])
    rw [EStateM.Result.ok.injEq] at same
    exact congrArg Live.held same.2
  case larger =>
    intro tight
    have asked (requests : List Nat) :
        FewestSlots (table.population + additional) reserved.slotCount ∧
          (reserveInPlace memory additional).run ⟨table, requests⟩ =
            .ok () ⟨reserved, requests ++ [reserved.slotCount]⟩ := by
      obtain ⟨later, ran, again⟩ := valid.run_reserve done requests
      rcases again.cases_of_ok with ⟨roomy, _⟩ | ⟨_, fewest, _, asked⟩
      · have enough : table.population + additional ≤ table.trigger := roomy
        omega
      · obtain rfl : later = requests ++ [reserved.slotCount] := asked
        exact ⟨fewest, ran⟩
    have share := valid.eight_mul_trigger
    have reservedShare := has.valid.eight_mul_trigger
    exact ⟨by omega, (asked []).1, fun requests => (asked requests).2⟩
  case lasts =>
    intro uses few kept
    have enough : HasRoom reserved reserved.slotCount (entriesIn uses) :=
      ⟨has.valid, rfl, by omega⟩
    obtain ⟨later, last, passed, counts, ends, runs⟩ := enough.runs uses kept
    exact ⟨reserved :: later, last, passed, counts, ends, runs⟩

theorem HasRoom.settles_forM (part : Part τ (Table α)) {call : ι → InPlace τ Unit}
    (each : ∀ item held requests, Valid (part.get held) →
      (part.get held).population ≠ (part.get held).trigger →
        Settles ⟨held, requests⟩ (fun _ final => AtMostOneMore (part.get held) (part.get final) ∧
          (part.get final).slotCount = (part.get held).slotCount)
          ((call item).run ⟨held, requests⟩))
    (items : List ι) {held : τ} (requests : List Nat)
    (has : HasRoom (part.get held) slots items.length) :
    ∃ final, (items.forM call).run ⟨held, requests⟩ = .ok () ⟨final, requests⟩ := by
  induction items generalizing held with
  | nil => exact ⟨held, rfl⟩
  | cons item rest ih =>
      have fits := has.room
      rw [List.length_cons] at fits
      obtain ⟨_, middle, ended, more, count⟩ := each item held requests has.valid (by omega)
      have next : HasRoom (part.get held) slots (1 + rest.length) :=
        ⟨has.valid, has.slotCount, by omega⟩
      change ∃ final, (call item >>= fun _ => rest.forM call).run _ = _
      rw [EStateM.run_bind, ended]
      exact ih (next.of_grows more.valid count more.population)

end Table

def requestsOf {β : Type} : EStateM.Result TableError (Live σ) β → List Nat
  | .ok _ after => after.requests
  | .error _ after => after.requests

theorem Asks.length_requestsOf {β : Type} {memory : Memory} {slots : Nat} {live : Live σ}
    {good : β → σ → Prop} {result : EStateM.Result TableError (Live σ) β}
    (asks : Asks memory slots live good result) :
    (requestsOf result).length ≤ live.requests.length + 1 := by
  rcases asks.cases with rfl | rfl | ⟨answer, held, rfl, _⟩
  · exact Nat.le_succ _
  · simp [requestsOf, Live.asked]
  · simp [requestsOf, Live.asked]

theorem Table.Reserves.length_requestsOf {memory : Memory} {additional : Nat}
    {part : Part τ (Table α)} {live : Live τ} {result : EStateM.Result TableError (Live τ) Unit}
    (reserves : Reserves memory additional part live result) :
    (requestsOf result).length ≤ live.requests.length + 1 := by
  rcases reserves.cases with ⟨_, rfl⟩ | rfl | ⟨_, slots, _, asks⟩
  · exact Nat.le_succ _
  · exact Nat.le_succ _
  · exact asks.length_requestsOf

/-- A container is made, gets room, and is filled. If the room is refused, so is the whole; if not,
nothing is refused or asked for after it. -/
structure FilledOnce (reservation whole : EStateM.Result TableError (Live σ) Unit)
    (made : Except TableError σ) : Prop where
  agrees : outcome whole = effect made
  refused : ∀ error after, reservation = .error error after → whole = .error error after
  filled : ∀ after, reservation = .ok () after → ∃ final, whole = .ok () ⟨final, after.requests⟩
  once : (requestsOf whole).length ≤ 1

theorem Table.Reserves.filledOnce {memory : Memory} {room : Nat} {part : Part τ (Table α)}
    {reserve fill : InPlace τ Unit} {held : τ} {made : Except TableError τ}
    (reserves : Reserves memory room part ⟨held, []⟩ (reserve.run ⟨held, []⟩))
    (valid : Valid (part.get held))
    (fills : ∀ held requests, HasRoom (part.get held) (part.get held).slotCount room →
      ∃ final, fill.run ⟨held, requests⟩ = .ok () ⟨final, requests⟩)
    (agrees : outcome ((reserve >>= fun _ => fill).run ⟨held, []⟩) = effect made) :
    FilledOnce (reserve.run ⟨held, []⟩) ((reserve >>= fun _ => fill).run ⟨held, []⟩) made := by
  have asked := reserves.length_requestsOf
  rw [EStateM.run_bind] at agrees ⊢
  cases ran : reserve.run ⟨held, []⟩ with
  | error error after =>
      rw [ran] at agrees asked
      exact ⟨agrees, fun _ _ same => same, by simp, asked⟩
  | ok answer after =>
      rw [ran] at agrees asked reserves
      obtain ⟨final, filled⟩ := fills after.held after.requests (reserves.hasRoom valid)
      refine ⟨agrees, by simp, ?_, ?_⟩
      · intro other same
        rw [EStateM.Result.ok.injEq] at same
        obtain rfl := same.2
        exact ⟨final, filled⟩
      · change (requestsOf (fill.run after)).length ≤ 1
        rw [show fill.run after = .ok () ⟨final, after.requests⟩ from filled]
        exact asked

namespace InPlaceKind

variable {C : Type} (kind : InPlaceKind C ι)

theorem insertAllInPlace_settles (enters : kind.Enters) (memory : Memory) (items : List ι)
    {room : Nat} (few : items.length ≤ room) (held : C) (requests : List Nat)
    (has : (kind.part.get held).HasRoom (kind.part.get held).slotCount room) :
    ∃ final, (kind.insertAllInPlace memory items).run ⟨held, requests⟩ =
      .ok () ⟨final, requests⟩ := by
  have fits := has.room
  have enough : (kind.part.get held).HasRoom (kind.part.get held).slotCount items.length :=
    ⟨has.valid, rfl, by omega⟩
  have each (item : ι) (held : C) (later : List Nat) (valid : (kind.part.get held).Valid)
      (below : (kind.part.get held).population ≠ (kind.part.get held).trigger) :=
    ((enters valid memory item later).roomy below).discard fun _ _ is => is
  exact Table.HasRoom.settles_forM kind.part each items requests enough

theorem filledOnce (enters : kind.Enters) (held : C) (valid : (kind.part.get held).Valid)
    (memory : Memory) {room : Nat} (items : List ι) (few : items.length ≤ room) :
    FilledOnce ((kind.reserveInPlace memory room).run ⟨held, []⟩)
      ((kind.reserveInPlace memory room >>= fun _ => kind.insertAllInPlace memory items).run
        ⟨held, []⟩)
      (kind.reserve memory held room >>= fun held => kind.insertAll memory held items) := by
  refine (valid.reserveWithin_reserves kind.part memory room []).filledOnce valid
    (kind.insertAllInPlace_settles enters memory items few) ?_
  have steps := (kind.reserveInPlace_agrees memory room).bind fun _ =>
    kind.insertAllInPlace_agrees memory items
  have split := effect_bind (kind.reserve memory held room) fun held =>
    kind.insertAll memory held items
  exact (steps ⟨held, []⟩).trans split.symm

end InPlaceKind

namespace HashMap

variable {K V : Type} [BEq K]

/-- A map that is made with enough room, or from a source that announces all its pairs, asks for
memory once at most. -/
structure MadeAtOnce (V : Type) (hash : K → UInt64) : Prop where
  withCapacity (memory : Memory) (capacity : Nat) (pairs : List (K × V)) :
    pairs.length ≤ capacity →
      FilledOnce ((reserveInPlace memory capacity).run ⟨withHasher hash, []⟩)
        ((reserveInPlace memory capacity >>= fun _ => insertAllInPlace memory pairs).run
          ⟨withHasher hash, []⟩)
        (HashMap.withCapacity memory capacity hash >>= fun map => map.insertAll memory pairs)
  ofList (memory : Memory) (pairs : List (K × V)) :
    FilledOnce ((reserveInPlace memory pairs.length).run ⟨withHasher hash, []⟩)
      ((extendInPlace memory pairs.length pairs).run ⟨withHasher hash, []⟩)
      (HashMap.ofList memory hash pairs.length pairs)

theorem madeAtOnce (V : Type) (hash : K → UInt64) : MadeAtOnce V hash where
  withCapacity memory _ pairs few :=
    inPlace.filledOnce inPlace_enters (withHasher hash) Table.valid_empty memory pairs few
  ofList memory pairs :=
    inPlace.filledOnce inPlace_enters (withHasher hash) Table.valid_empty memory pairs le_rfl

end HashMap

namespace HashSet

variable {T : Type} [BEq T]

structure MadeAtOnce (hash : T → UInt64) : Prop where
  withCapacity (memory : Memory) (capacity : Nat) (values : List T) :
    values.length ≤ capacity →
      FilledOnce ((reserveInPlace memory capacity).run ⟨withHasher hash, []⟩)
        ((reserveInPlace memory capacity >>= fun _ => insertAllInPlace memory values).run
          ⟨withHasher hash, []⟩)
        (HashSet.withCapacity memory capacity hash >>= fun set => set.insertAll memory values)
  ofList (memory : Memory) (values : List T) :
    FilledOnce ((reserveInPlace memory values.length).run ⟨withHasher hash, []⟩)
      ((extendInPlace memory values.length values).run ⟨withHasher hash, []⟩)
      (HashSet.ofList memory hash values.length values)

theorem madeAtOnce (hash : T → UInt64) : MadeAtOnce hash where
  withCapacity memory _ values few :=
    inPlace.filledOnce inPlace_enters (withHasher hash) Table.valid_empty memory values few
  ofList memory values :=
    inPlace.filledOnce inPlace_enters (withHasher hash) Table.valid_empty memory values le_rfl

end HashSet

/-- A reservation that is granted holds: the table has room, in the fewest slots that will do, and
keeps its slots without asking for memory until more entries are taken than it was for. A map or a
set that is given room for all it gets asks once at most. -/
theorem reservation_holds {K V T : Type} [BEq K] [BEq T] {memory : Memory}
    {table reserved : Table α} {additional : Nat} (reachable : table.Reachable)
    (done : table.reserve memory additional = .ok reserved) (hash : K → UInt64)
    (valueHash : T → UInt64) :
    Table.Reservation memory table reserved additional ∧ HashMap.MadeAtOnce V hash ∧
      HashSet.MadeAtOnce valueHash :=
  ⟨reachable.valid.reservation done, HashMap.madeAtOnce V hash, HashSet.madeAtOnce valueHash⟩

theorem reservation_holds_twenty :
    ∃ table reserved : Table Nat,
      Table.runAll [.withCapacity willing 10] [] = .ok [table] ∧ table.slotCount = 16 ∧
        table.reserve willing 20 = .ok reserved ∧ reserved.slotCount = 32 ∧
          Table.Reservation willing table reserved 20 ∧
            HashMap.MadeAtOnce Nat (fun _ : Nat => 7) ∧ HashSet.MadeAtOnce fun _ : Nat => 7 := by
  obtain ⟨table, reserved, made, sixteen, done, larger⟩ : ∃ table reserved : Table Nat,
      Table.runAll [.withCapacity willing 10] [] = .ok [table] ∧ table.slotCount = 16 ∧
        table.reserve willing 20 = .ok reserved ∧ reserved.slotCount = 32 :=
    ⟨_, _, rfl, rfl, rfl, rfl⟩
  exact ⟨table, reserved, made, sixteen, done, larger,
    reservation_holds ⟨_, _, made, List.mem_singleton_self table⟩ done _ _⟩

end RobinHood
