import RobinHood.Proofs.Guarded.Machine
import RobinHood.Proofs.Runs

/-!
Lookups step by step. A walk goes on as long as the slots say; the value of its hash or a slot that
gives way ends it within one round, and the mask keeps every index inside the ring.
-/

namespace RobinHood

variable {α : Type}

namespace Guarded

def home (table : Table α) (hash : UInt64) : Guarded Nat :=
  shiftRight hash.toNat table.shift

def displacement (table : Table α) (hash : UInt64) (index : Nat) : Guarded Nat := do
  return wrappingSub index (← home table hash) &&& table.mask

def next (table : Table α) (index : Nat) : Guarded Nat := do
  return (← add index 1) &&& table.mask

noncomputable section

def probeFrom (table : Table α) (hash : UInt64) (accept : α → Bool) (index distance : Nat) :
    Guarded Probe :=
  loop (fun (index, distance) => do
    match ← fetch table.slots index with
    | none => return .done (.vacant index distance)
    | some cell =>
        if cell.hash == hash && accept cell.value then return .done (.found index distance)
        else if (← displacement table cell.hash index) < distance then
          return .done (.vacant index distance)
        else
          let distance ← add distance 1
          let index ← next table index
          return .again (index, distance)) (index, distance)

def probe (table : Table α) (hash : UInt64) (accept : α → Bool) : Guarded Probe := do
  ensure (0 < table.slotCount)
  ensure (hash % 2 = 1)
  probeFrom table hash accept (← home table hash) 0

def findIndex (table : Table α) (raw : UInt64) (accept : α → Bool) : Guarded (Option Nat) := do
  if table.population = 0 then return none
  else
    match ← probe table (storedHash raw) accept with
    | .found index _ => return some index
    | .vacant _ _ => return none

def find (table : Table α) (raw : UInt64) (accept : α → Bool) : Guarded (Option α) := do
  match ← findIndex table raw accept with
  | none => return none
  | some index => return (← fetch table.slots index).map Cell.value

def changeSlot (table : Table α) (index : Nat) (change : α → α) :
    Guarded (Option α × Table α) := do
  match ← fetch table.slots index with
  | none => return (none, table)
  | some cell =>
      let slots ← store table.slots index (some { cell with value := change cell.value })
      return (some (change cell.value), { table with slots })

def findModify (table : Table α) (raw : UInt64) (accept : α → Bool) (change : α → α) :
    Guarded (Option α × Table α) := do
  match ← findIndex table raw accept with
  | none => return (none, table)
  | some index => changeSlot table index change

end

theorem probeFrom_turn (table : Table α) (hash : UInt64) (accept : α → Bool)
    (index distance : Nat) :
    probeFrom table hash accept index distance = (do
      match ← fetch table.slots index with
      | none => return .vacant index distance
      | some cell =>
          if cell.hash == hash && accept cell.value then return .found index distance
          else if (← displacement table cell.hash index) < distance then
            return .vacant index distance
          else
            let distance ← add distance 1
            let index ← next table index
            probeFrom table hash accept index distance) := by
  rw [probeFrom, loop_eq, bind_assoc]
  refine bind_congr fun slot => ?_
  cases slot with
  | none => rfl
  | some cell =>
      simp only [ite_bind, bind_assoc, pure_done_then, pure_again_then]
      rfl

end Guarded

namespace Table

open Guarded

variable {table : Table α} {hash : UInt64} {accept : α → Bool} {index distance : Nat}

theorem Shaped.shift_lt (shaped : Shaped table) : table.shift < 64 := by
  obtain ⟨width, least, count⟩ := shaped.power
  have bits := shaped.shift_add_width count
  omega

theorem Shaped.and_mask (shaped : Shaped table) (number : Nat) :
    number &&& table.mask = number % table.slotCount := by
  obtain ⟨width, _, count⟩ := shaped.power
  rw [shaped.mask, count, Nat.and_two_pow_sub_one_eq_mod]

theorem Shaped.home_eq (shaped : Shaped table) (hash : UInt64) :
    Guarded.home table hash = pure (table.home hash) :=
  shiftRight_of shaped.shift_lt

theorem Shaped.wrappingSub_and_mask (shaped : Shaped table) {first second : Nat}
    (bound : second < table.slotCount) :
    wrappingSub first second &&& table.mask =
      (first + table.slotCount - second) % table.slotCount := by
  obtain ⟨width, _, count⟩ := shaped.power
  -- The ring divides the words, so going below zero and masking is going back on the ring.
  have divides : table.slotCount ∣ 2 ^ 64 := by
    rw [count]
    exact Nat.pow_dvd_pow 2 (shaped.width_le count)
  rw [shaped.and_mask, wrappingSub, wordSize_eq, Nat.mod_mod_of_dvd _ divides]
  obtain ⟨rounds, whole⟩ := divides
  obtain ⟨others, rfl⟩ : ∃ others, rounds = others + 1 := by
    refine ⟨rounds - 1, ?_⟩
    have positive : rounds ≠ 0 := by
      rintro rfl
      simp at whole
    omega
  have apart : first + 2 ^ 64 - second =
      first + table.slotCount - second + table.slotCount * others := by
    rw [whole, Nat.mul_add, Nat.mul_one]
    omega
  rw [apart, Nat.add_mul_mod_self_left]

theorem Shaped.displacement_eq (shaped : Shaped table) (hash : UInt64) (index : Nat) :
    Guarded.displacement table hash index = pure (table.displacement hash index) := by
  simp only [Guarded.displacement, shaped.home_eq, pure_bind,
    shaped.wrappingSub_and_mask (shaped.home_lt hash)]
  rfl

theorem Shaped.next_eq (shaped : Shaped table) (counted : table.slotCount < 2 ^ 64)
    (bound : index < table.slotCount) : Guarded.next table index = pure (table.next index) := by
  have fits : index + 1 < 2 ^ 64 := by omega
  simp only [Guarded.next, add_of fits, pure_bind, shaped.and_mask]
  rfl

theorem SameShape.guarded_next {other : Table α} (same : SameShape table other) (index : Nat) :
    Guarded.next other index = Guarded.next table index := by
  rw [Guarded.next, same.mask]
  rfl

theorem Shaped.probeFrom_eq (shaped : Shaped table) (counted : table.slotCount < 2 ^ 64)
    {answer : Probe} {steps : Nat} (near : distance + steps ≤ table.slotCount)
    (before : ∀ earlier < steps, table.probeAt hash accept (distance + earlier) = none)
    (here : table.probeAt hash accept (distance + steps) = some answer) :
    probeFrom table hash accept (table.after (table.home hash) distance) distance =
      pure answer := by
  induction steps generalizing distance with
  | zero =>
      have bound := after_lt shaped.allocated (table.home hash) distance
      rw [probeFrom_turn, fetch_slots bound, pure_bind]
      rw [Nat.add_zero, probeAt] at here
      cases held : table.slot (table.after (table.home hash) distance) with
      | none =>
          rw [held] at here
          rw [← Option.some.inj here]
      | some cell =>
          rw [held] at here
          simp only [shaped.displacement_eq, pure_bind] at here ⊢
          split at here
          next matched => rw [if_pos matched, ← Option.some.inj here]
          next refused =>
            split at here
            next gives => rw [if_neg refused, if_pos gives, ← Option.some.inj here]
            next => simp at here
  | succ steps ih =>
      have bound := after_lt shaped.allocated (table.home hash) distance
      obtain ⟨cell, held, refused, beyond⟩ := probeAt_eq_none_iff.mp (before 0 (by omega))
      rw [Nat.add_zero] at held beyond
      rw [reach_of_cell held] at beyond
      have rejected : ¬ (cell.hash == hash && accept cell.value) = true := by
        simpa [Cell.matches] using refused
      have fits : distance + 1 < 2 ^ 64 := by omega
      rw [probeFrom_turn, fetch_slots bound, pure_bind, held]
      simp only [shaped.displacement_eq, pure_bind]
      rw [if_neg rejected, if_neg (by omega), add_of fits, pure_bind,
        shaped.next_eq counted bound, pure_bind, Table.next_eq, after_after]
      refine ih (by omega) ?_ ?_
      · intro earlier ahead
        rw [Nat.add_assoc, Nat.add_comm 1 earlier]
        exact before (earlier + 1) (by omega)
      · rwa [Nat.add_assoc, Nat.add_comm 1 steps]

theorem Shaped.probe_eq (shaped : Shaped table) (counted : table.slotCount < 2 ^ 64)
    (odd : hash % 2 = 1) (accept : α → Bool) {answer : Probe}
    (probed : table.probe hash accept = .ok answer) :
    Guarded.probe table hash accept = pure answer := by
  obtain ⟨other, same, answered⟩ := shaped.probe_answers odd accept
  obtain rfl : other = answer := Except.ok.inj (same.symm.trans probed)
  obtain ⟨steps, within, here, before⟩ := firstAnswer_eq_some_iff.mp answered
  have near : 0 + steps ≤ table.slotCount := by omega
  have walked := shaped.probeFrom_eq counted near before here
  rw [after_zero (shaped.home_lt hash)] at walked
  rw [Guarded.probe, ensure_of shaped.allocated, pure_bind, ensure_of odd, pure_bind,
    shaped.home_eq, pure_bind]
  exact walked

namespace Safe

theorem findIndex_follows (safe : Safe table) (raw : UInt64) (accept : α → Bool) :
    Follows Never (fun found => ∀ index, found = some index → ∃ cell, table.slot index = some cell)
      (Guarded.findIndex table raw accept) (table.findIndex raw accept) := by
  by_cases vacant : table.population = 0
  · refine .of_eq (by rw [Guarded.findIndex, if_pos vacant]) (by simp [Table.findIndex, vacant]) ?_
    simp
  · have sound := safe.valid.sound (safe.valid.slotCount_ne_zero vacant)
    rcases sound.probe_cases (storedHash_odd raw) accept with
      ⟨index, distance, probed, found⟩ | ⟨index, distance, probed, _⟩
    · have ran := sound.shaped.probe_eq safe.counted (storedHash_odd raw) accept probed
      refine .of_eq (by rw [Guarded.findIndex, if_neg vacant, ran]; rfl)
        (by simp [Table.findIndex, vacant, probed]) ?_
      intro other same
      obtain ⟨cell, held, _⟩ := found.cell
      obtain rfl := Option.some.inj same
      exact ⟨cell, held⟩
    · have ran := sound.shaped.probe_eq safe.counted (storedHash_odd raw) accept probed
      refine .of_eq (by rw [Guarded.findIndex, if_neg vacant, ran]; rfl)
        (by simp [Table.findIndex, vacant, probed]) ?_
      simp

theorem find_follows (safe : Safe table) (raw : UInt64) (accept : α → Bool) :
    Follows Never (fun _ => True) (Guarded.find table raw accept) (table.find raw accept) := by
  refine (safe.findIndex_follows raw accept).bind ?_
  intro found held
  cases found with
  | none => exact .answer trivial
  | some index =>
      obtain ⟨cell, present⟩ := held index rfl
      simp only [fetch_slots (lt_of_slot present), pure_bind]
      exact .answer trivial

end Safe

theorem changeSlot_of_cell {cell : Cell α} (held : table.slot index = some cell)
    (change : α → α) :
    changeSlot table index change =
      pure (some (change cell.value), table.modifyAt index change) := by
  have bound := lt_of_slot held
  rw [changeSlot, fetch_slots bound, pure_bind, held, modifyAt_eq_put change held]
  simp only [store_slots _ bound, pure_bind]
  rfl

theorem Safe.modifyAt (safe : Safe table) (index : Nat) (change : α → α) :
    Safe (table.modifyAt index change) := by
  refine ⟨safe.valid.modifyAt index change, ?_⟩
  rw [(modifyAt_sameShape table index change).slotCount]
  exact safe.counted

theorem Safe.findModify_follows (safe : Safe table) (raw : UInt64) (accept : α → Bool)
    (change : α → α) :
    Follows Never (fun answer => Safe answer.2) (Guarded.findModify table raw accept change)
      (table.findModify raw accept change) := by
  refine (safe.findIndex_follows raw accept).bind ?_
  intro found held
  cases found with
  | none => exact .answer safe
  | some index =>
      obtain ⟨cell, present⟩ := held index rfl
      refine .of_eq (changeSlot_of_cell present change) ?_ (safe.modifyAt index change)
      simp only [slot_modifyAt_self change present]
      rfl

end Table

end RobinHood
