import RobinHood.Proofs.Bag

/-!
What a lookup costs. It steps only over slots that are taken, never comes to one twice, and looks
at one more, so the number of values bounds it, whatever the number of slots.
-/

namespace RobinHood

variable {α β : Type}

/-- The numbers that a search asks, the one that answers included. -/
def asked (ask : Nat → Option β) : (start count : Nat) → List Nat
  | _, 0 => []
  | start, count + 1 =>
      match ask start with
      | some _ => [start]
      | none => start :: asked ask (start + 1) count

theorem asked_eq_range' {ask : Nat → Option β} {start count offset : Nat} {answer : β}
    (below : offset < count) (here : ask (start + offset) = some answer)
    (before : ∀ earlier < offset, ask (start + earlier) = none) :
    asked ask start count = List.range' start (offset + 1) := by
  induction offset generalizing start count with
  | zero =>
      obtain ⟨rest, rfl⟩ : ∃ rest, count = rest + 1 := ⟨count - 1, by omega⟩
      rw [Nat.add_zero] at here
      simp [asked, here]
  | succ offset ih =>
      obtain ⟨rest, rfl⟩ : ∃ rest, count = rest + 1 := ⟨count - 1, by omega⟩
      have silent := before 0 (by omega)
      rw [Nat.add_zero] at silent
      simp only [asked, silent]
      rw [List.range'_succ, ih (by omega)]
      · rwa [Nat.add_assoc, Nat.add_comm 1 offset]
      · intro earlier bound
        rw [Nat.add_assoc, Nat.add_comm 1 earlier]
        exact before (earlier + 1) (by omega)

namespace Table

variable {table : Table α} {hash : UInt64} {accept : α → Bool} {distance : Nat}

/-- The slots that a lookup inspects, in the order of its walk. -/
def inspected (table : Table α) (raw : UInt64) (accept : α → Bool) : List Nat :=
  if table.population = 0 then []
  else
    (asked (table.probeAt (storedHash raw) accept) 0 (table.slotCount + 1)).map
      (table.after (table.home (storedHash raw)))

theorem Passed.distance_le (passed : table.Passed hash distance)
    (round : distance ≤ table.slotCount) : distance ≤ table.cells.length := by
  have counted := table.countP_cells_from (fun _ => true) (table.home hash)
  rw [List.countP_true] at counted
  rw [counted]
  refine le_countP_range _ round ?_
  intro steps ahead
  have taken := passed steps ahead
  cases held : table.slot (table.after (table.home hash) steps) with
  | none =>
      rw [reach_of_free held] at taken
      omega
  | some cell => rfl

theorem Ordered.displacement_lt_length (ordered : Ordered table) {index : Nat} {cell : Cell α}
    (held : table.slot index = some cell) :
    table.displacement cell.hash index < table.cells.length := by
  have passed : table.Passed cell.hash (table.displacement cell.hash index + 1) := by
    intro steps ahead
    exact ordered.lt_reach_of_le held (by omega)
  exact passed.distance_le (ordered.shaped.displacement_lt cell.hash index)

structure Walked (table : Table α) (raw : UInt64) (accept : α → Bool) (distance : Nat) : Prop where
  passed : table.Passed (storedHash raw) distance
  below : distance < table.slotCount
  inspected : table.inspected raw accept =
    (List.range (distance + 1)).map (table.after (table.home (storedHash raw)))
  length : table.probeLength raw accept = .ok (distance + 1)

theorem Sound.walked (sound : Sound table) (occupied : table.population ≠ 0) (raw : UInt64)
    (accept : α → Bool) :
    ∃ distance, table.Walked raw accept distance ∧
      ∀ index, table.findIndex raw accept = .ok (some index) →
        FoundAt table (storedHash raw) accept index distance := by
  have shaped := sound.shaped
  obtain ⟨answer, probed, answered⟩ := shaped.probe_answers (storedHash_odd raw) accept
  obtain ⟨offset, within, here, before⟩ := firstAnswer_eq_some_iff.mp answered
  have steps : table.inspected raw accept =
      (List.range (offset + 1)).map (table.after (table.home (storedHash raw))) := by
    rw [Table.inspected, if_neg occupied, asked_eq_range' within here before,
      List.range_eq_range']
  rw [Nat.zero_add] at here
  rcases sound.probe_cases (storedHash_odd raw) accept with
    ⟨index, distance, ended, found⟩ | ⟨index, distance, ended, vacant⟩
  · obtain rfl : answer = .found index distance := Except.ok.inj (probed.symm.trans ended)
    obtain ⟨_, rfl, _⟩ := probeAt_eq_found_iff.mp here
    have below : distance < table.slotCount := by
      rw [← found.displacement_eq]
      exact shaped.displacement_lt _ _
    refine ⟨distance, ⟨found.passed, below, steps, by simp [probeLength, occupied, ended,
      Except.map, Probe.distance]⟩, ?_⟩
    intro other located
    obtain rfl : index = other := by simpa [findIndex, occupied, ended] using located
    exact found
  · obtain rfl : answer = .vacant index distance := Except.ok.inj (probed.symm.trans ended)
    obtain ⟨_, rfl, _⟩ := probeAt_eq_vacant here
    refine ⟨distance, ⟨vacant.passed, vacant.distance_lt shaped sound.exists_free, steps, by
      simp [probeLength, occupied, ended, Except.map, Probe.distance]⟩, ?_⟩
    intro other located
    simp [findIndex, occupied, ended] at located

namespace Walked

variable {raw : UInt64}

theorem inspected_length (walked : table.Walked raw accept distance) :
    (table.inspected raw accept).length = distance + 1 := by
  rw [walked.inspected, List.length_map, List.length_range]

theorem getLast?_inspected (walked : table.Walked raw accept distance) :
    (table.inspected raw accept).getLast? =
      some (table.after (table.home (storedHash raw)) distance) := by
  rw [walked.inspected, List.range_succ, List.map_append, List.map_singleton,
    List.getLast?_concat]

theorem inspected_nodup (walked : table.Walked raw accept distance) (shaped : Shaped table) :
    (table.inspected raw accept).Nodup := by
  rw [walked.inspected]
  refine List.Nodup.map_on ?_ List.nodup_range
  intro first firstMember second secondMember same
  rw [List.mem_range] at firstMember secondMember
  have below := walked.below
  exact after_injective (shaped.home_lt _) (by omega) (by omega) same

end Walked

/-- What one lookup costs, and where it ends if it finds a value. -/
structure LookupCost (table : Table α) (raw : UInt64) (accept : α → Bool) (visited : Nat) :
    Prop where
  length : table.probeLength raw accept = .ok visited
  inspected : (table.inspected raw accept).length = visited
  distinct : (table.inspected raw accept).Nodup
  bounded : visited ≤ 1 + table.population
  zero : visited = 0 ↔ table.population = 0
  hit : ∀ value, table.find raw accept = .ok (some value) →
    ∃ index cell, (table.inspected raw accept).getLast? = some index ∧
      table.slot index = some cell ∧ cell.value = value ∧
        visited = table.displacement cell.hash index + 1

theorem lookupCost_of_vacant (vacant : table.population = 0) (raw : UInt64)
    (accept : α → Bool) : table.LookupCost raw accept 0 := by
  refine ⟨by simp [probeLength, vacant], by simp [Table.inspected, vacant],
    by simp [Table.inspected, vacant], Nat.zero_le _, by simp [vacant], ?_⟩
  intro value found
  have missed : table.find raw accept = .ok none := by
    simp only [find, findIndex, vacant, if_true]
    rfl
  simp [missed] at found

theorem Sound.lookupCost (sound : Sound table) (occupied : table.population ≠ 0) (raw : UInt64)
    (accept : α → Bool) : ∃ visited, table.LookupCost raw accept visited := by
  obtain ⟨distance, walked, located⟩ := sound.walked occupied raw accept
  have passed := walked.passed.distance_le (Nat.le_of_lt walked.below)
  have counted := sound.counted
  refine ⟨distance + 1, walked.length, walked.inspected_length,
    walked.inspected_nodup sound.shaped, by omega, by omega, ?_⟩
  intro value found
  obtain ⟨answer, indexed, held⟩ := exists_of_bind found
  cases answer with
  | none => simp [pure, Except.pure] at held
  | some index =>
      have ended := located index indexed
      obtain ⟨cell, present, matched⟩ := ended.cell
      have same := Except.ok.inj held
      rw [present] at same
      refine ⟨index, cell, ?_, present, Option.some.inj same, ?_⟩
      · rw [walked.getLast?_inspected, ended.index_eq]
      · rw [(Cell.matches_iff.mp matched).1, ended.displacement_eq]

/-- A lookup inspects at most one slot more than there are values. -/
theorem lookup_visits (reachable : Reachable table) :
    (∀ raw accept, ∃ visited, table.LookupCost raw accept visited) ∧
      ∀ index cell, table.slot index = some cell →
        table.displacement cell.hash index + 1 ≤ table.population := by
  have valid := reachable.valid
  constructor
  · intro raw accept
    by_cases vacant : table.population = 0
    · exact ⟨0, lookupCost_of_vacant vacant raw accept⟩
    · exact (valid.sound (valid.slotCount_ne_zero vacant)).lookupCost vacant raw accept
  · intro index cell held
    have sound := valid.sound_of_slot held
    have below := sound.displacement_lt_length held
    rw [sound.counted] at below
    exact below

theorem lookup_visits_shared :
    ∃ table : Table Nat, runAll [.new, addShared 10, addShared 20] [] = .ok [table] ∧
      table.probeLength 1 (fun value => value == 20) = .ok 2 ∧
        ∀ index cell, table.slot index = some cell →
          table.displacement cell.hash index + 1 ≤ 2 :=
  ⟨_, rfl, rfl, (lookup_visits
    ⟨[.new, addShared 10, addShared 20], _, rfl, List.mem_singleton_self _⟩).2⟩

end Table

end RobinHood
