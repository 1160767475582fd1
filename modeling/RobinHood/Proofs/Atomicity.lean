import RobinHood.Proofs.InPlace
import RobinHood.Proofs.SlotCounts

/-!
How the calls that may ask for memory end. Arithmetic alone tells whether a call asks and for how
many slots; it asks at most once, before it writes anything, and nothing fails after that.
-/

namespace RobinHood

open InPlace

variable {α β γ σ τ : Type}

/-- An array of so many slots cannot be counted or addressed. -/
def Memory.Overflows (memory : Memory) (slots : Nat) : Prop :=
  2 ^ 63 < slots ∨ 2 ^ 63 ≤ slots * memory.slotBytes

def Settles (before : Live σ) (good : β → σ → Prop)
    (result : EStateM.Result TableError (Live σ) β) : Prop :=
  ∃ answer held, result = .ok answer ⟨held, before.requests⟩ ∧ good answer held

/-- The end of a call that needs an array of so many slots. -/
structure Asks (memory : Memory) (slots : Nat) (before : Live σ) (good : β → σ → Prop)
    (result : EStateM.Result TableError (Live σ) β) : Prop where
  overflow : memory.Overflows slots → result = .error .capacityOverflow before
  refused : ¬ memory.Overflows slots → memory.grants slots = false →
    result = .error (.allocationFailure slots) (before.asked slots)
  granted : ¬ memory.Overflows slots → memory.grants slots = true →
    Settles (before.asked slots) good result

/-- The end of a call on values, reached in place; a failure leaves all as it was. -/
structure Atomic (before : Live σ) (effect : Except TableError (β × σ))
    (result : EStateM.Result TableError (Live σ) β) : Prop where
  agrees : outcome result = effect
  unchanged : ∀ error after, result = .error error after → after.held = before.held

theorem effect_eq_error {change : Except TableError σ} {error : TableError}
    (failed : effect change = .error error) : change = .error error := by
  cases change with
  | error other =>
      obtain rfl : other = error := Except.error.inj failed
      rfl
  | ok held => simp [effect, Except.map] at failed

theorem Settles.bind {call : InPlace σ β} {next : β → InPlace σ γ} {live : Live σ}
    {middle : β → σ → Prop} {good : γ → σ → Prop} (settles : Settles live middle (call.run live))
    (rest : ∀ answer held requests, middle answer held →
      Settles ⟨held, requests⟩ good ((next answer).run ⟨held, requests⟩)) :
    Settles live good ((call >>= next).run live) := by
  obtain ⟨answer, held, ended, is⟩ := settles
  rw [EStateM.run_bind, ended]
  exact rest answer held live.requests is

theorem Settles.within {part : Part τ σ} {call : InPlace σ β} {live : Live τ}
    {good : β → σ → Prop} {better : β → τ → Prop}
    (settles : Settles { live with held := part.get live.held } good
      (call.run { live with held := part.get live.held }))
    (implies : ∀ answer held, good answer held → better answer (part.put live.held held)) :
    Settles live better ((within part call).run live) := by
  obtain ⟨answer, held, ended, is⟩ := settles
  exact ⟨answer, part.put live.held held, run_within_ok ended, implies answer held is⟩

namespace Asks

variable {memory : Memory} {slots : Nat} {live : Live σ} {good : β → σ → Prop}
  {result : EStateM.Result TableError (Live σ) β}

theorem of_overflow (overflows : memory.Overflows slots)
    (ended : result = .error .capacityOverflow live) : Asks memory slots live good result :=
  ⟨fun _ => ended, fun fits => absurd overflows fits, fun fits => absurd overflows fits⟩

theorem cases (asks : Asks memory slots live good result) :
    result = .error .capacityOverflow live ∨
      result = .error (.allocationFailure slots) (live.asked slots) ∨
        Settles (live.asked slots) good result := by
  by_cases overflows : memory.Overflows slots
  · exact Or.inl (asks.overflow overflows)
  · cases grants : memory.grants slots with
    | false => exact Or.inr (Or.inl (asks.refused overflows grants))
    | true => exact Or.inr (Or.inr (asks.granted overflows grants))

theorem unchanged (asks : Asks memory slots live good result) {error : TableError}
    {after : Live σ} (ended : result = .error error after) : after.held = live.held := by
  rcases asks.cases with early | turned | ⟨answer, held, done, _⟩
  · rw [ended, EStateM.Result.error.injEq] at early
    rw [early.2]
  · rw [ended, EStateM.Result.error.injEq] at turned
    rw [turned.2]
    rfl
  · rw [ended] at done
    simp at done

theorem imp {better : β → σ → Prop} (asks : Asks memory slots live good result)
    (implies : ∀ answer held, good answer held → better answer held) :
    Asks memory slots live better result := by
  refine ⟨asks.overflow, asks.refused, ?_⟩
  intro fits grants
  obtain ⟨answer, held, ended, is⟩ := asks.granted fits grants
  exact ⟨answer, held, ended, implies answer held is⟩

theorem bind_of_granted {call : InPlace σ β} {next : β → InPlace σ γ} {middle : β → σ → Prop}
    {last : γ → σ → Prop} (asks : Asks memory slots live middle (call.run live))
    (rest : ¬ memory.Overflows slots → memory.grants slots = true →
      ∀ answer held requests, middle answer held →
        Settles ⟨held, requests⟩ last ((next answer).run ⟨held, requests⟩)) :
    Asks memory slots live last ((call >>= next).run live) := by
  constructor
  case overflow =>
    intro overflows
    rw [EStateM.run_bind, asks.overflow overflows]
  case refused =>
    intro fits refuses
    rw [EStateM.run_bind, asks.refused fits refuses]
  case granted =>
    intro fits grants
    obtain ⟨answer, held, ended, is⟩ := asks.granted fits grants
    rw [EStateM.run_bind, ended]
    exact rest fits grants answer held _ is

theorem bind {call : InPlace σ β} {next : β → InPlace σ γ} {middle : β → σ → Prop}
    {last : γ → σ → Prop} (asks : Asks memory slots live middle (call.run live))
    (rest : ∀ answer held requests, middle answer held →
      Settles ⟨held, requests⟩ last ((next answer).run ⟨held, requests⟩)) :
    Asks memory slots live last ((call >>= next).run live) :=
  asks.bind_of_granted fun _ _ => rest

theorem within {part : Part τ σ} {call : InPlace σ β} {live : Live τ} {better : β → τ → Prop}
    (asks : Asks memory slots { live with held := part.get live.held } good
      (call.run { live with held := part.get live.held }))
    (implies : ∀ answer held, good answer held → better answer (part.put live.held held)) :
    Asks memory slots live better ((InPlace.within part call).run live) := by
  have restored : part.put live.held (part.get live.held) = live.held := part.put_get live.held
  constructor
  case overflow =>
    intro overflows
    rw [run_within_error (asks.overflow overflows)]
    simp only [restored]
  case refused =>
    intro fits refuses
    rw [run_within_error (asks.refused fits refuses)]
    simp only [Live.asked, restored]
  case granted =>
    intro fits grants
    obtain ⟨answer, held, ended, is⟩ := asks.granted fits grants
    exact ⟨answer, part.put live.held held, run_within_ok ended, implies answer held is⟩

end Asks

theorem allocate_asks (memory : Memory) {slots : Nat} (counted : slots ≤ 2 ^ 63) (live : Live σ) :
    Asks memory slots live (fun fresh held => fresh = Array.replicate slots none ∧
      held = live.held) ((allocate (α := α) memory slots).run live) := by
  have limit : UInt64.size / 2 = 2 ^ 63 := rfl
  have overflows : memory.Overflows slots ↔ UInt64.size / 2 ≤ slots * memory.slotBytes := by
    rw [limit, Memory.Overflows]
    omega
  constructor
  case overflow =>
    intro large
    rw [allocate, if_pos (overflows.mp large)]
    rfl
  case refused =>
    intro fits refuses
    rw [overflows] at fits
    simp only [allocate, if_neg fits, EStateM.run_bind, Memory.allocate, refuses]
    rfl
  case granted =>
    intro fits grants
    rw [overflows] at fits
    refine ⟨_, live.held, ?_, rfl, rfl⟩
    simp only [allocate, if_neg fits, EStateM.run_bind, Memory.allocate, grants]
    rfl

theorem run_forM_update {ι : Type} {change : σ → ι → Except TableError σ} {items : List ι}
    {start final : σ} (requests : List Nat) (done : items.foldlM change start = .ok final) :
    (items.forM fun item => update fun held => change held item).run ⟨start, requests⟩ =
      .ok () ⟨final, requests⟩ := by
  induction items generalizing start with
  | nil =>
      obtain rfl : start = final := Except.ok.inj done
      rfl
  | cons item rest ih =>
      rw [List.foldlM_cons] at done
      cases first : change start item with
      | error error =>
          rw [first] at done
          exact absurd done (by simp [bind, Except.bind])
      | ok middle =>
          rw [first] at done
          change ((update fun held => change held item) >>= fun _ => rest.forM _).run _ = _
          rw [EStateM.run_bind, run_update first]
          exact ih done

namespace Table

variable {table : Table α}

/-- The smallest slot count of a table for so many values. -/
structure FewestSlots (required slots : Nat) : Prop where
  power : ∃ width, slots = 2 ^ width
  least : 16 ≤ slots
  enough : 8 * required ≤ 7 * slots
  fewest : ∀ width, 16 ≤ 2 ^ width → 8 * required ≤ 7 * 2 ^ width → slots ≤ 2 ^ width

theorem exists_fewestSlots (required : Nat) : ∃ slots, FewestSlots required slots := by
  have some : ∃ width, 16 ≤ 2 ^ width ∧ 8 * required ≤ 7 * 2 ^ width := by
    have large : required < 2 ^ required := Nat.lt_two_pow_self
    refine ⟨required + 4, ?_, ?_⟩ <;> rw [Nat.pow_add] <;> omega
  obtain ⟨least, enough⟩ := Nat.find_spec some
  refine ⟨2 ^ Nat.find some, ⟨_, rfl⟩, least, enough, ?_⟩
  intro width large fits
  exact Nat.pow_le_pow_right (by decide) (Nat.find_min' some ⟨large, fits⟩)

theorem le_triggerOf_iff {required width : Nat} (least : 4 ≤ width) :
    required ≤ triggerOf (2 ^ width - 1) ↔ 8 * required ≤ 7 * 2 ^ width := by
  obtain ⟨excess, rfl⟩ : ∃ excess, width = excess + 3 := ⟨width - 3, by omega⟩
  have share := eight_mul_triggerOf excess
  omega

theorem FewestSlots.slotsFor_eq {required slots : Nat} (fewest : FewestSlots required slots) :
    slotsFor required = if slots ≤ 2 ^ 63 then .ok slots else .error .capacityOverflow := by
  obtain ⟨width, rfl⟩ := fewest.power
  have least := sixteen_le_two_pow_iff.mp fewest.least
  have small : 2 ^ width ≤ 2 ^ 63 ↔ width ≤ 63 := Nat.pow_le_pow_iff_right (by decide)
  have admits := (le_triggerOf_iff least).mpr fewest.enough
  have earlier (power : Nat) (from4 : 4 ≤ power) (below : power < width) :
      ¬ required ≤ triggerOf (2 ^ power - 1) := by
    rw [le_triggerOf_iff from4]
    intro fits
    have limit := fewest.fewest power (sixteen_le_two_pow_iff.mpr from4) fits
    have shrinks : 2 ^ power < 2 ^ width := Nat.pow_lt_pow_right (by decide) below
    omega
  simp only [slotsFor, Nat.one_shiftLeft, small]
  by_cases inside : width ≤ 63
  · have found : firstWhere (fun power => decide (required ≤ triggerOf (2 ^ power - 1))) 4 60 =
        some width := by
      rw [firstWhere_eq_some_iff]
      refine ⟨least, by omega, by simpa using admits, ?_⟩
      intro power from4 below
      simpa using earlier power from4 below
    rw [found, if_pos inside]
  · have missing : firstWhere (fun power => decide (required ≤ triggerOf (2 ^ power - 1))) 4 60 =
        none := by
      rw [firstWhere_eq_none_iff]
      intro power from4 below
      simpa using earlier power from4 (by omega)
    rw [missing, if_neg inside]

theorem run_resizeInPlace (memory : Memory) {slots : Nat} (requests : List Nat)
    (power : isPowerOfTwo slots = true) (larger : table.slotCount < slots) :
    (resizeInPlace memory slots).run ⟨table, requests⟩ =
      (allocate memory slots >>= fun fresh => hold (ofSlots fresh table.population) >>= fun _ =>
        table.cells.forM fun cell => update (·.place cell)).run ⟨table, requests⟩ := by
  have accepted : ¬ (¬ isPowerOfTwo slots ∨ slots ≤ table.slotCount) := by
    simp only [power, not_true_eq_false, false_or]
    omega
  rw [resizeInPlace, EStateM.run_bind, run_held]
  simp only [accepted, if_false]

theorem Valid.resizeInPlace_asks (valid : Valid table) (memory : Memory) {width slots : Nat}
    (power : slots = 2 ^ width) (least : 4 ≤ width) (most : width ≤ 63)
    (larger : table.slotCount < slots) (requests : List Nat) :
    Asks memory slots ⟨table, requests⟩
      (fun _ held => Grown table held ∧ held.slotCount = slots)
      ((resizeInPlace memory slots).run ⟨table, requests⟩) := by
  have isPower : isPowerOfTwo slots = true := by rw [power, isPowerOfTwo_two_pow]
  have counted : slots ≤ 2 ^ 63 := by
    rw [power]
    exact Nat.pow_le_pow_right (by decide) most
  rw [run_resizeInPlace memory requests isPower larger]
  refine Asks.bind_of_granted (allocate_asks memory counted ⟨table, requests⟩) ?_
  rintro fits grants fresh held later ⟨rfl, rfl⟩
  have supplied : memory.Supplies slots := by
    rw [Memory.Overflows] at fits
    exact ⟨by omega, by omega, grants⟩
  rcases memory.allocate_cases α slots with allocated | ⟨_, _, _, missing⟩
  · -- What the table becomes is known from the resize of values.
    obtain ⟨grown, done, keeps, count⟩ :=
      valid.resize_of_granted power least (by omega) larger allocated
    rw [resize_of_larger memory isPower larger, allocated] at done
    refine ⟨(), grown, ?_, keeps, count⟩
    rw [EStateM.run_bind, run_hold]
    exact run_forM_update later done
  · exact absurd supplied missing

theorem run_growInPlace (memory : Memory) (requests : List Nat) :
    (growInPlace memory).run ⟨table, requests⟩ =
      if 2 ^ 64 ≤ table.nextSlots then .error .capacityOverflow ⟨table, requests⟩
      else (resizeInPlace memory table.nextSlots).run ⟨table, requests⟩ := by
  rw [growInPlace, EStateM.run_bind, run_held]
  by_cases unallocated : table.slotCount = 0
  · have small : ¬ 2 ^ 64 ≤ leastSlots := by decide
    simp only [nextSlots, unallocated, if_true, if_neg small]
  · simp only [nextSlots, unallocated, if_false, wordSize_eq]
    split <;> rfl

theorem Valid.growInPlace_asks (valid : Valid table) (memory : Memory) (requests : List Nat) :
    Asks memory table.nextSlots ⟨table, requests⟩
      (fun _ held => Grown table held ∧ held.slotCount = table.nextSlots)
      ((growInPlace memory).run ⟨table, requests⟩) := by
  rw [run_growInPlace]
  split
  next large => exact .of_overflow (Or.inl (by omega)) rfl
  next fits =>
    obtain ⟨larger, large | ⟨width, power, least, most⟩⟩ := valid.nextSlots_cases
    · exact absurd large fits
    · exact valid.resizeInPlace_asks memory power least most larger requests

structure Reserves (memory : Memory) (additional : Nat) (part : Part τ (Table α))
    (before : Live τ) (result : EStateM.Result TableError (Live τ) Unit) : Prop where
  roomy : (part.get before.held).population + additional = 0 ∨
      (part.get before.held).population + additional ≤ (part.get before.held).trigger →
    result = .ok () before
  uncounted : 2 ^ 64 ≤ (part.get before.held).population + additional →
    result = .error .capacityOverflow before
  asks : ¬ ((part.get before.held).population + additional = 0 ∨
      (part.get before.held).population + additional ≤ (part.get before.held).trigger) →
    (part.get before.held).population + additional < 2 ^ 64 →
      ∃ slots, FewestSlots ((part.get before.held).population + additional) slots ∧
        Asks memory slots before (fun _ held =>
          Grown (part.get before.held) (part.get held) ∧ (part.get held).slotCount = slots) result

theorem Valid.trigger_lt (valid : Valid table) : table.trigger < 2 ^ 64 := by
  have share := valid.eight_mul_trigger
  by_cases unallocated : table.slotCount = 0
  · omega
  · have shaped := (valid.sound unallocated).shaped
    obtain ⟨width, _, count⟩ := shaped.power
    have limit : 2 ^ width ≤ 2 ^ 64 :=
      Nat.pow_le_pow_right (by decide) (shaped.width_le count)
    omega

theorem Valid.reserveInPlace_reserves (valid : Valid table) (memory : Memory) (additional : Nat)
    (requests : List Nat) :
    Reserves memory additional .all ⟨table, requests⟩
      ((reserveInPlace memory additional).run ⟨table, requests⟩) := by
  have limit := valid.trigger_lt
  rw [reserveInPlace, EStateM.run_bind, run_held]
  simp only [wordSize_eq]
  constructor <;> simp only [Part.all, id_eq]
  case roomy =>
    intro fits
    rw [if_neg (by omega), if_pos fits]
    rfl
  case uncounted =>
    intro large
    rw [if_pos large]
    rfl
  case asks =>
    intro tight counted
    rw [if_neg (by omega), if_neg tight]
    obtain ⟨slots, fewest⟩ := exists_fewestSlots (table.population + additional)
    refine ⟨slots, fewest, ?_⟩
    have chosen := fewest.slotsFor_eq
    by_cases large : slots ≤ 2 ^ 63
    · rw [if_pos large] at chosen
      rw [EStateM.run_bind, chosen, run_ofExcept_ok]
      obtain ⟨width, rfl⟩ := fewest.power
      have share := valid.eight_mul_trigger
      have enough := fewest.enough
      exact valid.resizeInPlace_asks memory rfl (sixteen_le_two_pow_iff.mp fewest.least)
        ((Nat.pow_le_pow_iff_right (by decide)).mp large) (by omega) requests
    · rw [if_neg large] at chosen
      rw [EStateM.run_bind, chosen, run_ofExcept_error]
      exact .of_overflow (Or.inl (by omega)) rfl

theorem Reserves.within {memory : Memory} {additional : Nat} {part : Part τ (Table α)}
    {live : Live τ} {call : InPlace (Table α) Unit}
    (reserves : Reserves memory additional .all ⟨part.get live.held, live.requests⟩
      (call.run ⟨part.get live.held, live.requests⟩)) :
    Reserves memory additional part live ((InPlace.within part call).run live) := by
  have restored : part.put live.held (part.get live.held) = live.held := part.put_get live.held
  constructor
  case roomy =>
    intro fits
    rw [run_within_ok (reserves.roomy fits)]
    simp only [restored]
  case uncounted =>
    intro large
    rw [run_within_error (reserves.uncounted large)]
    simp only [restored]
  case asks =>
    intro tight counted
    obtain ⟨slots, fewest, asks⟩ := reserves.asks tight counted
    refine ⟨slots, fewest, asks.within ?_⟩
    intro _ held is
    rw [part.get_put]
    exact is

theorem Reserves.cases {memory : Memory} {additional : Nat} {part : Part τ (Table α)}
    {live : Live τ} {result : EStateM.Result TableError (Live τ) Unit}
    (reserves : Reserves memory additional part live result) :
    (part.get live.held).population + additional ≤ (part.get live.held).trigger ∧
        result = .ok () live ∨
      result = .error .capacityOverflow live ∨
        (part.get live.held).trigger < (part.get live.held).population + additional ∧
          ∃ slots, FewestSlots ((part.get live.held).population + additional) slots ∧
            Asks memory slots live (fun _ held => Grown (part.get live.held) (part.get held) ∧
              (part.get held).slotCount = slots) result := by
  by_cases fits : (part.get live.held).population + additional = 0 ∨
      (part.get live.held).population + additional ≤ (part.get live.held).trigger
  · exact Or.inl ⟨by omega, reserves.roomy fits⟩
  · by_cases large : 2 ^ 64 ≤ (part.get live.held).population + additional
    · exact Or.inr (Or.inl (reserves.uncounted large))
    · exact Or.inr (Or.inr ⟨by omega, reserves.asks fits (by omega)⟩)

theorem Reserves.unchanged {memory : Memory} {additional : Nat} {part : Part τ (Table α)}
    {live : Live τ} {result : EStateM.Result TableError (Live τ) Unit}
    (reserves : Reserves memory additional part live result) {error : TableError}
    {after : Live τ} (ended : result = .error error after) : after.held = live.held := by
  rcases reserves.cases with ⟨_, done⟩ | failed | ⟨_, slots, _, asks⟩
  · rw [ended] at done
    simp at done
  · rw [ended, EStateM.Result.error.injEq] at failed
    rw [failed.2]
  · exact asks.unchanged ended

theorem Reserves.atomic {memory : Memory} {additional : Nat} {part : Part τ (Table α)}
    {live : Live τ} {call : InPlace τ Unit} {whole : τ → Except TableError (Unit × τ)}
    (reserves : Reserves memory additional part live (call.run live)) (agrees : Agrees call whole) :
    Atomic live (whole live.held) (call.run live) :=
  ⟨agrees live, fun _ _ => reserves.unchanged⟩

structure Enters (memory : Memory) (part : Part τ (Table α)) (before : Live τ)
    (good : β → τ → Prop) (result : EStateM.Result TableError (Live τ) β) : Prop where
  roomy : (part.get before.held).population ≠ (part.get before.held).trigger →
    Settles before (fun answer held => good answer held ∧
      (part.get held).slotCount = (part.get before.held).slotCount) result
  full : (part.get before.held).population = (part.get before.held).trigger →
    Asks memory (part.get before.held).nextSlots before (fun answer held => good answer held ∧
      (part.get held).slotCount = (part.get before.held).nextSlots) result

inductive Entry.Stands (table : Table α) (raw : UInt64) (accept : α → Bool) : Entry α → Prop
  | occupied {index : Nat} {cell : Cell α} (holds : Occupied.Holds ⟨table, index⟩ cell)
      (matched : cell.matches (storedHash raw) accept = true) :
      Stands table raw accept (.occupied { table, index })
  | vacant {index : Nat} (awaits : Vacant.Awaits ⟨table, storedHash raw, index⟩ raw accept) :
      Stands table raw accept (.vacant { table, hash := storedHash raw, index })

theorem Entry.Stands.table_eq {raw : UInt64} {accept : α → Bool} {entry : Entry α}
    (stands : entry.Stands table raw accept) : entry.table = table := by
  cases stands <;> rfl

theorem Sound.locate_spec (sound : Sound table) (room : table.population < table.trigger)
    (raw : UInt64) (accept : α → Bool) :
    ∃ entry, table.locate raw accept = .ok entry ∧ entry.Stands table raw accept := by
  rcases sound.probe_cases (storedHash_odd raw) accept with
    ⟨index, distance, probed, found⟩ | ⟨index, distance, probed, vacant⟩
  · obtain ⟨cell, held, matched⟩ := found.cell
    exact ⟨_, bind_of_ok probed rfl, .occupied ⟨.allocated sound, held⟩ matched⟩
  · exact ⟨_, bind_of_ok probed rfl, .vacant ⟨sound, rfl, ⟨distance, vacant⟩, room⟩⟩

theorem Valid.entryInPlace_enters (valid : Valid table) (memory : Memory) (raw : UInt64)
    (accept : α → Bool) (requests : List Nat) :
    Enters memory .all ⟨table, requests⟩
      (fun entry held => Grown table held ∧ entry.Stands held raw accept)
      ((entryInPlace memory raw accept).run ⟨table, requests⟩) := by
  -- With or without growth, the call ends by a probe of a table with room.
  have settles {held : Table α} (sound : Sound held) (room : held.population < held.trigger)
      (later : List Nat) :
      Settles ⟨held, later⟩ (fun entry final => final = held ∧ entry.Stands held raw accept)
        ((InPlace.held >>= fun table => ofExcept (table.locate raw accept)).run ⟨held, later⟩) := by
    obtain ⟨entry, located, stands⟩ := sound.locate_spec room raw accept
    refine ⟨entry, held, ?_, rfl, stands⟩
    rw [EStateM.run_bind, run_held]
    simp only [located, run_ofExcept_ok]
  constructor <;> simp only [Part.all, id_eq]
  case roomy =>
    intro room
    have below := valid.roomy
    have share := valid.eight_mul_trigger
    have sound := valid.sound (by omega)
    obtain ⟨entry, held, ended, rfl, stands⟩ := settles sound (by omega) requests
    refine ⟨entry, held, ?_, ⟨sound.grown, stands⟩, rfl⟩
    rw [entryInPlace, EStateM.run_bind, growIfFullInPlace, EStateM.run_bind, run_held]
    simp only [room, if_false]
    exact ended
  case full =>
    intro full
    have grows : (growIfFullInPlace memory).run ⟨table, requests⟩ =
        (growInPlace memory).run ⟨table, requests⟩ := by
      rw [growIfFullInPlace, EStateM.run_bind, run_held]
      simp only [full, if_true]
    have asks := valid.growInPlace_asks memory requests
    rw [← grows] at asks
    refine asks.bind ?_
    rintro _ held later ⟨grown, count⟩
    have share := valid.eight_mul_trigger
    have grownShare := grown.sound.shaped.eight_mul_trigger
    have population := grown.population
    have room : held.population < held.trigger := by
      rw [nextSlots, leastSlots] at count
      split at count <;> omega
    obtain ⟨entry, final, ended, rfl, stands⟩ := settles grown.sound room later
    exact ⟨entry, final, ended, ⟨grown, stands⟩, count⟩

theorem Enters.unchanged {memory : Memory} {part : Part τ (Table α)} {live : Live τ}
    {good : β → τ → Prop} {result : EStateM.Result TableError (Live τ) β}
    (enters : Enters memory part live good result) {error : TableError} {after : Live τ}
    (ended : result = .error error after) : after.held = live.held := by
  by_cases full : (part.get live.held).population = (part.get live.held).trigger
  · exact (enters.full full).unchanged ended
  · obtain ⟨answer, held, done, _⟩ := enters.roomy full
    rw [ended] at done
    simp at done

theorem Enters.atomic {memory : Memory} {part : Part τ (Table α)} {live : Live τ}
    {good : β → τ → Prop} {call : InPlace τ β} {whole : τ → Except TableError (β × τ)}
    (enters : Enters memory part live good (call.run live)) (agrees : Agrees call whole) :
    Atomic live (whole live.held) (call.run live) :=
  ⟨agrees live, fun _ _ => enters.unchanged⟩

theorem Enters.imp {memory : Memory} {part : Part τ (Table α)} {live : Live τ}
    {good better : β → τ → Prop} {result : EStateM.Result TableError (Live τ) β}
    (enters : Enters memory part live good result)
    (implies : ∀ answer held, good answer held → better answer held) :
    Enters memory part live better result := by
  constructor
  case roomy =>
    intro room
    obtain ⟨answer, held, ended, is, count⟩ := enters.roomy room
    exact ⟨answer, held, ended, implies answer held is, count⟩
  case full =>
    intro full
    exact (enters.full full).imp fun answer held is => ⟨implies answer held is.1, is.2⟩

theorem Enters.within {memory : Memory} {part : Part τ (Table α)} {live : Live τ}
    {call : InPlace (Table α) β} {good : β → Table α → Prop} {better : β → τ → Prop}
    (enters : Enters memory .all ⟨part.get live.held, live.requests⟩ good
      (call.run ⟨part.get live.held, live.requests⟩))
    (implies : ∀ answer held, good answer held → better answer (part.put live.held held)) :
    Enters memory part live better ((InPlace.within part call).run live) := by
  constructor
  case roomy =>
    intro room
    refine (enters.roomy room).within ?_
    rintro answer held ⟨is, count⟩
    refine ⟨implies answer held is, ?_⟩
    rw [part.get_put]
    exact count
  case full =>
    intro full
    refine (enters.full full).within ?_
    rintro answer held ⟨is, count⟩
    refine ⟨implies answer held is, ?_⟩
    rw [part.get_put]
    exact count

theorem Enters.bind {memory : Memory} {part : Part τ (Table α)} {live : Live τ}
    {call : InPlace τ β} {next : β → InPlace τ γ} {middle : β → τ → Prop} {good : γ → τ → Prop}
    (enters : Enters memory part live middle (call.run live))
    (rest : ∀ answer held requests, middle answer held →
      Settles ⟨held, requests⟩ (fun last final => good last final ∧
        (part.get final).slotCount = (part.get held).slotCount)
        ((next answer).run ⟨held, requests⟩)) :
    Enters memory part live good ((call >>= next).run live) := by
  constructor
  case roomy =>
    intro room
    refine (enters.roomy room).bind ?_
    rintro answer held later ⟨is, count⟩
    obtain ⟨last, final, ended, lastIs, same⟩ := rest answer held later is
    exact ⟨last, final, ended, lastIs, same.trans count⟩
  case full =>
    intro full
    refine (enters.full full).bind ?_
    rintro answer held later ⟨is, count⟩
    obtain ⟨last, final, ended, lastIs, same⟩ := rest answer held later is
    exact ⟨last, final, ended, lastIs, same.trans count⟩

structure AtMostOneMore (before after : Table α) : Prop where
  valid : Valid after
  population : after.population ≤ before.population + 1

theorem AtMostOneMore.of_grown {grown after : Table α} (more : AtMostOneMore grown after)
    (is : Grown table grown) : AtMostOneMore table after :=
  ⟨more.valid, by rw [← is.population]; exact more.population⟩

/-- What a table promises for the calls that may be refused memory. -/
structure FailsCleanly (table : Table α) : Prop where
  reserve (memory : Memory) (additional : Nat) (requests : List Nat) :
    ∃ result, (reserveInPlace memory additional).run ⟨table, requests⟩ = result ∧
      Atomic ⟨table, requests⟩ (effect (table.reserve memory additional)) result ∧
        Reserves memory additional .all ⟨table, requests⟩ result
  entry (memory : Memory) (raw : UInt64) (accept : α → Bool) (requests : List Nat) :
    ∃ result, (entryInPlace memory raw accept).run ⟨table, requests⟩ = result ∧
      Atomic ⟨table, requests⟩
        ((table.entry memory raw accept).map fun entry => (entry, entry.table)) result ∧
        Enters memory .all ⟨table, requests⟩ (fun entry held =>
          entry.table = held ∧ held.cells.Perm table.cells) result

theorem Valid.failsCleanly (valid : Valid table) : FailsCleanly table := by
  constructor
  case reserve =>
    intro memory additional requests
    have reserves := valid.reserveInPlace_reserves memory additional requests
    exact ⟨_, rfl, reserves.atomic (reserveInPlace_agrees memory additional), reserves⟩
  case entry =>
    intro memory raw accept requests
    have enters := valid.entryInPlace_enters memory raw accept requests
    refine ⟨_, rfl, enters.atomic (entryInPlace_agrees memory raw accept), ?_⟩
    exact enters.imp fun entry held is => ⟨is.2.table_eq, is.1.cells⟩

theorem Valid.reserveWithin_reserves (part : Part τ (Table α)) {held : τ}
    (valid : Valid (part.get held)) (memory : Memory) (additional : Nat) (requests : List Nat) :
    Reserves memory additional part ⟨held, requests⟩
      ((within part (reserveInPlace memory additional)).run ⟨held, requests⟩) :=
  (valid.reserveInPlace_reserves memory additional requests).within

theorem Valid.reserveWithin_cleanly (part : Part τ (Table α)) {held : τ}
    (valid : Valid (part.get held)) (memory : Memory) (additional : Nat) (requests : List Nat) :
    ∃ result, (within part (reserveInPlace memory additional)).run ⟨held, requests⟩ = result ∧
      Atomic ⟨held, requests⟩
        (effect (((part.get held).reserve memory additional).map (part.put held))) result ∧
        Reserves memory additional part ⟨held, requests⟩ result := by
  have reserves := valid.reserveWithin_reserves part memory additional requests
  exact ⟨_, rfl, reserves.atomic (reserveWithin_agrees part memory additional), reserves⟩

end Table

namespace InPlaceKind

variable {C : Type}

def Enters (kind : InPlaceKind C ι) : Prop :=
  ∀ {held : C}, (kind.part.get held).Valid → ∀ (memory : Memory) (item : ι) (requests : List Nat),
    Table.Enters memory kind.part ⟨held, requests⟩
      (fun _ after => Table.AtMostOneMore (kind.part.get held) (kind.part.get after))
      ((kind.insertInPlace memory item).run ⟨held, requests⟩)

theorem extend_of_refused (kind : InPlaceKind C ι) {held : C} (valid : (kind.part.get held).Valid)
    {memory : Memory} {announced : Nat} (items : List ι) {requests : List Nat}
    {error : TableError} {after : Live C}
    (refused : (kind.reserveInPlace memory (kind.announcedRoom held announced)).run
      ⟨held, requests⟩ = .error error after) :
    (kind.extendInPlace memory announced items).run ⟨held, requests⟩ = .error error after ∧
      after.held = held ∧ kind.extend memory held announced items = .error error := by
  have ended : (kind.extendInPlace memory announced items).run ⟨held, requests⟩ =
      .error error after := by
    rw [extendInPlace, EStateM.run_bind, run_held]
    simp only [EStateM.run_bind, refused]
  have reserves := valid.reserveWithin_reserves kind.part memory
    (kind.announcedRoom held announced) requests
  have agreed := kind.extendInPlace_agrees memory announced items ⟨held, requests⟩
  rw [ended] at agreed
  exact ⟨ended, reserves.unchanged refused, effect_eq_error agreed.symm⟩

end InPlaceKind

namespace HashMap

variable {K V : Type} {map : HashMap K V}

theorem assignValue_spec {place : Table.Entry (K × V)} {raw : UInt64} {accept : K × V → Bool}
    (stands : place.Stands map.table raw accept) (key : K) (value : V) :
    ∃ answer, (map.ofTableEntry key place).assignValue value = .ok answer ∧
      answer.1.toMap.table.slotCount = map.table.slotCount := by
  cases stands with
  | @occupied index cell holds matched =>
      let changed : Table.Occupied (K × V) :=
        { table := map.table.modifyAt index (changeValue fun _ => value), index }
      refine ⟨({ place := changed, hash := map.hash }, false), ?_,
        (Table.modifyAt_sameShape _ _ _).slotCount⟩
      simp only [ofTableEntry, Entry.assignValue, Occupied.modify, Table.Occupied.modify,
        holds.get_eq]
      rfl
  | @vacant index awaits =>
      obtain ⟨placed, done, _⟩ := awaits.insert_spec (key, value)
      refine ⟨({ place := placed, hash := map.hash }, true), ?_, Table.slotCount_of_insert done⟩
      simp only [ofTableEntry, Entry.assignValue, Vacant.insert, done]
      rfl

theorem insertValue_spec {place : Table.Entry (K × V)} {raw : UInt64} {accept : K × V → Bool}
    (stands : place.Stands map.table raw accept) (key : K) (value : V) :
    ∃ answer, (map.ofTableEntry key place).insertValue value = .ok answer ∧
      answer.2.table.slotCount = map.table.slotCount ∧
        Table.AtMostOneMore map.table answer.2.table := by
  cases stands with
  | @occupied index cell holds matched =>
      let changed : HashMap K V :=
        { map with table := map.table.modifyAt index (changeValue fun _ => value) }
      refine ⟨(some cell.value.2, changed), ?_, (Table.modifyAt_sameShape _ _ _).slotCount,
        holds.valid.modifyAt _ _, Nat.le_succ _⟩
      simp only [ofTableEntry, Entry.insertValue, Occupied.replace, Occupied.get, Occupied.modify,
        Table.Occupied.modify, holds.get_eq]
      rfl
  | @vacant index awaits =>
      obtain ⟨placed, done, still, population, _⟩ := awaits.insert_spec (key, value)
      refine ⟨(none, { map with table := placed.table }), ?_, Table.slotCount_of_insert done,
        still.valid, population.le⟩
      simp only [ofTableEntry, Entry.insertValue, Vacant.insert, done]
      rfl

variable [BEq K]

theorem entryInPlace_enters (valid : map.table.Valid) (memory : Memory) (key : K)
    (requests : List Nat) :
    Table.Enters memory tablePart ⟨map, requests⟩
      (fun entry held => Table.Grown map.table held.table ∧
        ∃ place : Table.Entry (K × V), entry = held.ofTableEntry key place ∧
          place.Stands held.table (held.hash key) fun pair => pair.1 == key)
      ((entryInPlace memory key).run ⟨map, requests⟩) := by
  have located : Table.Enters memory tablePart ⟨map, requests⟩
      (fun place held => held.hash = map.hash ∧ Table.Grown map.table held.table ∧
        place.Stands held.table (held.hash key) fun pair => pair.1 == key)
      ((within tablePart (Table.entryInPlace memory (map.hash key)
        fun pair => pair.1 == key)).run ⟨map, requests⟩) :=
    (valid.entryInPlace_enters memory (map.hash key) (fun pair => pair.1 == key) requests).within
      fun place held is => ⟨rfl, is⟩
  rw [entryInPlace, EStateM.run_bind, run_held]
  refine located.bind ?_
  rintro place held later ⟨same, grown, stands⟩
  refine ⟨_, held, rfl, ⟨grown, place, ?_, stands⟩, rfl⟩
  cases place <;> simp [ofTableEntry, same]

theorem assignInPlace_enters (valid : map.table.Valid) (memory : Memory) (key : K) (value : V)
    (requests : List Nat) :
    Table.Enters memory tablePart ⟨map, requests⟩ (fun answer held => answer.1.toMap = held)
      ((assignInPlace memory key value).run ⟨map, requests⟩) := by
  refine (entryInPlace_enters valid memory key requests).bind ?_
  rintro _ held later ⟨_, place, rfl, stands⟩
  obtain ⟨answer, assigned, count⟩ := assignValue_spec stands key value
  refine ⟨answer, answer.1.toMap, ?_, rfl, count⟩
  rw [assigned]
  rfl

theorem insertInPlace_enters (valid : map.table.Valid) (memory : Memory) (key : K) (value : V)
    (requests : List Nat) :
    Table.Enters memory tablePart ⟨map, requests⟩
      (fun _ held => Table.AtMostOneMore map.table held.table)
      ((insertInPlace memory key value).run ⟨map, requests⟩) := by
  refine (entryInPlace_enters valid memory key requests).bind ?_
  rintro _ held later ⟨grown, place, rfl, stands⟩
  obtain ⟨answer, inserted, count, more⟩ := insertValue_spec stands key value
  refine ⟨answer.1, answer.2, ?_, more.of_grown grown, count⟩
  rw [inserted]
  rfl

theorem inPlace_enters : (inPlace : InPlaceKind (HashMap K V) (K × V)).Enters :=
  fun valid memory pair requests => insertInPlace_enters valid memory pair.1 pair.2 requests

structure FailsCleanly (map : HashMap K V) : Prop where
  reserve (memory : Memory) (additional : Nat) (requests : List Nat) :
    ∃ result, (reserveInPlace memory additional).run ⟨map, requests⟩ = result ∧
      Atomic ⟨map, requests⟩ (effect (map.reserve memory additional)) result ∧
        Table.Reserves memory additional tablePart ⟨map, requests⟩ result
  assign (memory : Memory) (key : K) (value : V) (requests : List Nat) :
    ∃ result, (assignInPlace memory key value).run ⟨map, requests⟩ = result ∧
      Atomic ⟨map, requests⟩
        ((map.assign memory key value).map fun answer => (answer, answer.1.toMap)) result ∧
        Table.Enters memory tablePart ⟨map, requests⟩
          (fun answer held => answer.1.toMap = held) result
  extend (memory : Memory) (announced : Nat) (pairs : List (K × V)) (requests : List Nat)
      (error : TableError) (after : Live (HashMap K V)) :
    (reserveInPlace memory (map.announcedRoom announced)).run ⟨map, requests⟩ =
        .error error after →
      (extendInPlace memory announced pairs).run ⟨map, requests⟩ = .error error after ∧
        after.held = map ∧ map.extend memory announced pairs = .error error

theorem failsCleanly (valid : map.table.Valid) : map.FailsCleanly := by
  constructor
  case reserve => exact Table.Valid.reserveWithin_cleanly tablePart valid
  case assign =>
    intro memory key value requests
    have enters := assignInPlace_enters valid memory key value requests
    exact ⟨_, rfl, enters.atomic (assignInPlace_agrees memory key value), enters⟩
  case extend =>
    intro memory announced pairs requests error after refused
    exact inPlace.extend_of_refused valid pairs refused

end HashMap

namespace HashSet

variable {T : Type} {set : HashSet T}

theorem insertAt_spec {place : Table.Entry T} {raw : UInt64} {accept : T → Bool}
    (stands : place.Stands set.table raw accept) (value : T) :
    ∃ answer, set.insertAt value place = .ok answer ∧
      answer.2.table.slotCount = set.table.slotCount ∧
        Table.AtMostOneMore set.table answer.2.table := by
  cases stands with
  | occupied holds => exact ⟨_, rfl, rfl, holds.valid, Nat.le_succ _⟩
  | @vacant index awaits =>
      obtain ⟨placed, done, still, population, _⟩ := awaits.insert_spec value
      refine ⟨(true, { set with table := placed.table }), ?_, Table.slotCount_of_insert done,
        still.valid, population.le⟩
      simp only [insertAt, done]
      rfl

variable [BEq T]

theorem insertInPlace_enters (valid : set.table.Valid) (memory : Memory) (value : T)
    (requests : List Nat) :
    Table.Enters memory tablePart ⟨set, requests⟩
      (fun _ held => Table.AtMostOneMore set.table held.table)
      ((insertInPlace memory value).run ⟨set, requests⟩) := by
  have located : Table.Enters memory tablePart ⟨set, requests⟩
      (fun place held => held.hash = set.hash ∧ Table.Grown set.table held.table ∧
        place.Stands held.table (set.hash value) (· == value))
      ((within tablePart (Table.entryInPlace memory (set.hash value)
        (· == value))).run ⟨set, requests⟩) :=
    (valid.entryInPlace_enters memory (set.hash value) (· == value) requests).within
      fun place held is => ⟨rfl, is⟩
  rw [insertInPlace, EStateM.run_bind, run_held]
  refine located.bind ?_
  rintro place held later ⟨same, grown, stands⟩
  obtain ⟨answer, inserted, count, more⟩ := insertAt_spec stands value
  have agrees : set.insertAt value place = held.insertAt value place := by
    cases place <;> simp only [insertAt, same]
  refine ⟨answer.1, answer.2, ?_, more.of_grown grown, count⟩
  rw [agrees, inserted]
  rfl

theorem inPlace_enters : (inPlace : InPlaceKind (HashSet T) T).Enters :=
  fun valid => insertInPlace_enters valid

structure FailsCleanly (set : HashSet T) : Prop where
  reserve (memory : Memory) (additional : Nat) (requests : List Nat) :
    ∃ result, (reserveInPlace memory additional).run ⟨set, requests⟩ = result ∧
      Atomic ⟨set, requests⟩ (effect (set.reserve memory additional)) result ∧
        Table.Reserves memory additional tablePart ⟨set, requests⟩ result
  extend (memory : Memory) (announced : Nat) (values : List T) (requests : List Nat)
      (error : TableError) (after : Live (HashSet T)) :
    (reserveInPlace memory (set.announcedRoom announced)).run ⟨set, requests⟩ =
        .error error after →
      (extendInPlace memory announced values).run ⟨set, requests⟩ = .error error after ∧
        after.held = set ∧ set.extend memory announced values = .error error

theorem failsCleanly (valid : set.table.Valid) : set.FailsCleanly := by
  constructor
  case reserve => exact Table.Valid.reserveWithin_cleanly tablePart valid
  case extend =>
    intro memory announced values requests error after refused
    exact inPlace.extend_of_refused valid values refused

end HashSet

/-- A call that is refused memory changes nothing, and whether and for how many slots it asks
follows from the number of values alone. Every table that a caller can hold passes the check. -/
theorem failsCleanly_of_checked {K V T : Type} [BEq K] [BEq T] {table : Table α}
    {map : HashMap K V} {set : HashSet T} (checked : table.check = .ok ())
    (mapChecked : map.table.check = .ok ()) (setChecked : set.table.check = .ok ()) :
    table.FailsCleanly ∧ map.FailsCleanly ∧ set.FailsCleanly := by
  refine ⟨?_, ?_, ?_⟩
  · exact (Table.check_iff_valid.mp checked).failsCleanly
  · exact HashMap.failsCleanly (Table.check_iff_valid.mp mapChecked)
  · exact HashSet.failsCleanly (Table.check_iff_valid.mp setChecked)

def willing : Memory :=
  { slotBytes := 24, grants := fun _ => true }

theorem failsCleanly_firstValues :
    ∃ (table : Table Nat) (map : HashMap Nat Nat) (set : HashSet Nat),
      Table.runAll [.withCapacity willing 20] [] = .ok [table] ∧ table.slotCount = 32 ∧
        (HashMap.withHasher fun _ => 7).insert willing 1 10 = .ok (none, map) ∧
          (HashSet.withHasher fun _ => 7).insert willing 1 = .ok (true, set) ∧
            table.FailsCleanly ∧ map.FailsCleanly ∧ set.FailsCleanly :=
  ⟨_, _, _, rfl, rfl, rfl, rfl, failsCleanly_of_checked rfl rfl rfl⟩

example : (Table.reserveInPlace { slotBytes := 24, grants := fun slots => slots < 32 } 15).run
    ⟨(.empty : Table Nat), []⟩ = .error (.allocationFailure 32) ⟨.empty, [32]⟩ := rfl

end RobinHood
