import RobinHood.Proofs.SlotCounts

/-!
Memory follows the largest population. In a run without reservations a ring gets its slots only
when it is full, so each number of slots above the first is owed to a population of seven eighths
of half of it, however often a full table is asked for entries.
-/

namespace RobinHood.Table

variable {α : Type} {before table after : Table α} {past : List (Table α)}

def Operation.reserves : Operation α → Bool
  | reserve _ _ => true
  | _ => false

/-- A call of a run without reservations. -/
inductive Use (α : Type) : Type 1 where
  | find (raw : UInt64) (accept : α → Bool)
  | act (operation : Operation α) (unreserved : operation.reserves = false)

namespace Use

def run (table : Table α) : Use α → Except TableError (Table α)
  | find raw accept => (table.find raw accept).map fun _ => table
  | act operation _ => operation.apply table

def Changes (before after : Table α) : Use α → Prop
  | find _ _ => after = before
  | act operation _ => SlotChange before after operation

end Use

def history (table : Table α) : List (Use α) → Except TableError (List (Table α))
  | [] => .ok [table]
  | use :: rest => do
      let later ← history (← use.run table) rest
      return table :: later

def peak (moments : List (Table α)) : Nat :=
  (moments.map Table.population).max?.getD 0

/-- A table with more slots than the first ones grew out of one that was full. -/
def Owed (past : List (Table α)) (table : Table α) : Prop :=
  16 < table.slotCount → ∃ moment ∈ past, 7 * table.slotCount ≤ 16 * moment.population

theorem population_le_peak {moment : Table α} (member : moment ∈ past) :
    moment.population ≤ peak past :=
  List.le_max?_getD_of_mem (List.mem_map_of_mem member)

theorem Owed.slotCount_le (owed : Owed past table) :
    table.slotCount ≤ max 16 (16 * peak past / 7) := by
  by_cases large : 16 < table.slotCount
  · obtain ⟨moment, member, share⟩ := owed large
    have bound := population_le_peak member
    omega
  · omega

theorem Owed.of_eq (owed : Owed past before) (same : after.slotCount = before.slotCount) :
    Owed (past ++ [before]) after := by
  intro large
  rw [same] at large ⊢
  obtain ⟨moment, member, share⟩ := owed large
  exact ⟨moment, List.mem_append_left _ member, share⟩

theorem Owed.of_doubled (valid : Valid before) (full : before.population = before.trigger)
    (double : after.slotCount = 2 * before.slotCount) : Owed (past ++ [before]) after := by
  intro _
  -- A full table of `n` slots has `7 * n / 8` values.
  have share := valid.eight_mul_trigger
  exact ⟨before, by simp, by omega⟩

theorem Owed.step {use : Use α} (owed : Owed past before) (valid : Valid before)
    (changes : use.Changes before after) : Owed (past ++ [before]) after := by
  cases use with
  | find raw accept => exact owed.of_eq (congrArg slotCount changes)
  | act operation unreserved =>
      cases changes with
      | kept same => exact owed.of_eq same
      | first unallocated full sixteen =>
          intro large
          omega
      | doubled allocated full double counted => exact .of_doubled valid full double
      | reserved larger counted => simp [Operation.reserves] at unreserved
      | leaked none =>
          intro large
          omega

theorem Valid.use_cases (valid : Valid table) (use : Use α) :
    ∃ result, use.run table = .ok result ∧ Valid result ∧ use.Changes table result := by
  cases use with
  | find raw accept =>
      refine ⟨table, ?_, valid, rfl⟩
      rcases valid.find_cases raw accept with ⟨cell, _, _, found⟩ | ⟨_, missed⟩
      · rw [Use.run, found]
        rfl
      · rw [Use.run, missed]
        rfl
  | act operation unreserved =>
      obtain ⟨result, applied, resultValid, _⟩ := operation.apply_valid valid
      exact ⟨result, applied, resultValid, Operation.slotChange applied⟩

structure Chronicle (past : List (Table α)) (uses : List (Use α)) (moments : List (Table α)) :
    Prop where
  length : moments.length = uses.length + 1
  changes : ∀ {position use before after}, uses[position]? = some use →
    moments[position]? = some before → moments[position + 1]? = some after →
      use.Changes before after
  owed : ∀ {position now}, moments[position]? = some now →
    Owed (past ++ moments.take position) now

theorem chronicle_single (owed : Owed past table) : Chronicle past [] [table] := by
  refine ⟨rfl, by simp, ?_⟩
  intro position now reached
  obtain ⟨rfl, rfl⟩ : position = 0 ∧ table = now := by
    cases position with
    | zero => simpa using reached
    | succ position => simp at reached
  simpa using owed

theorem Chronicle.cons {use : Use α} {uses : List (Use α)} {later : List (Table α)}
    (chronicle : Chronicle (past ++ [table]) uses (after :: later)) (owed : Owed past table)
    (changes : use.Changes table after) :
    Chronicle past (use :: uses) (table :: after :: later) := by
  refine ⟨by simpa using chronicle.length, ?_, ?_⟩
  · intro position made first second used here next
    cases position with
    | zero =>
        obtain rfl : use = made := by simpa using used
        obtain rfl : table = first := by simpa using here
        obtain rfl : after = second := by simpa using next
        exact changes
    | succ position =>
        rw [List.getElem?_cons_succ] at used here next
        exact chronicle.changes used here next
  · intro position now reached
    cases position with
    | zero =>
        obtain rfl : table = now := by simpa using reached
        simpa using owed
    | succ position =>
        rw [List.getElem?_cons_succ] at reached
        have step := chronicle.owed reached
        rwa [List.append_assoc, List.singleton_append] at step

theorem history_chronicle (uses : List (Use α)) (valid : Valid table) (owed : Owed past table) :
    ∃ later, history table uses = .ok (table :: later) ∧
      Chronicle past uses (table :: later) := by
  induction uses generalizing table past with
  | nil => exact ⟨[], rfl, chronicle_single owed⟩
  | cons use rest ih =>
      obtain ⟨result, ran, resultValid, changes⟩ := valid.use_cases use
      obtain ⟨later, passed, chronicle⟩ := ih resultValid (owed.step valid changes)
      exact ⟨result :: later, bind_of_ok ran (bind_of_ok passed rfl), chronicle.cons owed changes⟩

/-- From a new table on, the slots change only as told, and never outnumber what the largest
population up to then asked for. -/
theorem slots_follow_peak (uses : List (Use α)) :
    ∃ moments, history empty uses = .ok moments ∧ moments.length = uses.length + 1 ∧
      (∀ position use before after, uses[position]? = some use →
        moments[position]? = some before → moments[position + 1]? = some after →
          use.Changes before after) ∧
      (∀ position now, moments[position]? = some now → 16 < now.slotCount →
        ∃ earlier ∈ moments.take position, 7 * now.slotCount ≤ 16 * earlier.population) ∧
      ∀ position now, moments[position]? = some now →
        now.slotCount ≤ max 16 (16 * peak (moments.take position) / 7) := by
  have unowed : Owed [] (empty : Table α) := by
    intro large
    simp [empty, ofSlots, slotCount] at large
  obtain ⟨later, passed, chronicle⟩ := history_chronicle uses valid_empty unowed
  refine ⟨empty :: later, passed, chronicle.length, ?_, ?_, ?_⟩
  · intro position use before after used here next
    exact chronicle.changes used here next
  · intro position now reached
    exact chronicle.owed reached
  · intro position now reached
    have owed := chronicle.owed reached
    rw [List.nil_append] at owed
    exact owed.slotCount_le

end RobinHood.Table
