import RobinHood.Proofs.Shifting
import RobinHood.Table.Retain

/-!
Keeping some of the values. The walk starts behind a free slot, and closing a gap never reaches back
over it: what is still to be offered is always the rest of the ring, in its old order.
-/

namespace RobinHood.Table

variable {α σ : Type} {table result : Table α}

/-- The cells in `count` slots of the ring, the first of them `first` after `base`. -/
def arc (table : Table α) (base first count : Nat) : List (Cell α) :=
  (List.range' first count).filterMap fun offset => table.slot (table.after base offset)

theorem arc_succ (table : Table α) (base first count : Nat) :
    table.arc base first (count + 1) =
      (table.slot (table.after base first)).toList ++ table.arc base (first + 1) count := by
  rw [arc, List.range'_succ, List.filterMap_cons]
  cases table.slot (table.after base first) <;> rfl

theorem arc_append (table : Table α) (base first front back : Nat) :
    table.arc base first front ++ table.arc base (first + front) back =
      table.arc base first (front + back) := by
  rw [arc, arc, ← List.filterMap_append, List.range'_append_1]
  rfl

theorem arc_after (table : Table α) (base first count : Nat) :
    table.arc (table.after base first) 0 count = table.arc base first count := by
  simp only [arc, after_after]
  have shifted := List.map_add_range' (a := first) 0 count 1
  rw [Nat.add_zero] at shifted
  rw [← shifted, List.filterMap_map]
  rfl

theorem arc_perm (table : Table α) (base : Nat) :
    (table.arc base 0 table.slotCount).Perm table.cells := by
  rw [arc, ← List.range_eq_range']
  exact table.cells_perm_from base

theorem arc_congr (same : SameShape table result) {base first count : Nat}
    (slots : ∀ offset, first ≤ offset → offset < first + count →
      result.slot (table.after base offset) = table.slot (table.after base offset)) :
    result.arc base first count = table.arc base first count := by
  simp only [arc]
  apply List.filterMap_congr
  intro offset member
  obtain ⟨lower, upper⟩ := List.mem_range'_1.mp member
  rw [same.after]
  exact slots offset lower upper

/-- Offers the values of cells in turn; gives the cells kept, and the state at the end. -/
def offerAll (offer : σ → α → Option α × σ) (state : σ) : List (Cell α) → List (Cell α) × σ
  | [] => ([], state)
  | cell :: rest =>
      match offer state cell.value with
      | (some value, state) =>
          let (kept, state) := offerAll offer state rest
          ({ cell with value } :: kept, state)
      | (none, state) => offerAll offer state rest

section

variable {offer : σ → α → Option α × σ} {state after : σ} {cell : Cell α}

theorem offerAll_of_kept {value : α} (verdict : offer state cell.value = (some value, after))
    (rest : List (Cell α)) :
    offerAll offer state (cell :: rest) =
      ({ cell with value } :: (offerAll offer after rest).1, (offerAll offer after rest).2) := by
  rw [offerAll, verdict]

theorem offerAll_of_dropped (verdict : offer state cell.value = (none, after))
    (rest : List (Cell α)) : offerAll offer state (cell :: rest) = offerAll offer after rest := by
  rw [offerAll, verdict]

end

theorem Removed.arcs {start place steps : Nat} {cell : Cell α}
    (removed : Removed table result (table.after start place) steps cell)
    (startBound : start < table.slotCount) (placeBound : place < table.slotCount)
    (free : table.slot start = none)
    (held : table.slot (table.after start place) = some cell) :
    result.slot start = none ∧ result.arc start 0 place = table.arc start 0 place ∧
      table.arc start place (table.slotCount - place) =
        cell :: result.arc start place (table.slotCount - place) := by
  have placePos : 0 < place := by
    by_contra zero
    obtain rfl : place = 0 := by omega
    rw [after_zero startBound, free] at held
    simp at held
  have back (offset : Nat) : table.after (table.after start place)
      (table.slotCount - place + offset) = table.after start offset := by
    rw [after_after, ← Nat.add_assoc, Nat.add_sub_cancel' (Nat.le_of_lt placeBound),
      after_slotCount_add]
  have within : steps ≤ table.slotCount - place := by
    by_contra beyond
    have taken := removed.run (table.slotCount - place) (by omega) (by omega)
    have arrival := back 0
    rw [Nat.add_zero, after_zero startBound] at arrival
    rw [arrival, reach_of_free free] at taken
    omega
  refine ⟨?_, ?_, ?_⟩
  · have content := removed.slots (table.slotCount - place) (by omega)
    have arrival := back 0
    rw [Nat.add_zero, after_zero startBound] at arrival
    rwa [arrival, if_neg (by omega), if_neg (by omega), free] at content
  · apply arc_congr removed.shape
    intro offset _ upper
    have content := removed.slots (table.slotCount - place + offset) (by omega)
    rwa [back, if_neg (by omega), if_neg (by omega)] at content
  · obtain ⟨run, rfl⟩ : ∃ run, steps = run + 1 := ⟨steps - 1, by have := removed.steps_pos; omega⟩
    obtain ⟨rest, total⟩ : ∃ rest, table.slotCount - place = run + 1 + rest :=
      ⟨table.slotCount - place - (run + 1), by omega⟩
    have moved : result.arc (table.after start place) 0 run =
        table.arc (table.after start place) 1 run := by
      have shifted := List.map_add_range' (a := 1) 0 run 1
      simp only [arc, removed.shape.after]
      rw [← shifted, List.filterMap_map]
      apply List.filterMap_congr
      intro offset member
      have upper := (List.mem_range'_1.mp member).2
      have content := removed.slots offset (by omega)
      rw [if_pos (by omega)] at content
      simpa [Nat.add_comm 1 offset] using content
    have gap : result.arc (table.after start place) run 1 = [] := by
      have content := removed.slots run (by omega)
      rw [if_neg (by omega), if_pos rfl] at content
      rw [arc_succ, removed.shape.after, content]
      rfl
    have kept : result.arc (table.after start place) (run + 1) rest =
        table.arc (table.after start place) (run + 1) rest := by
      apply arc_congr removed.shape
      intro offset lower upper
      have content := removed.slots offset (by omega)
      rwa [if_neg (by omega), if_neg (by omega)] at content
    have first : table.slot (table.after (table.after start place) 0) = some cell := by
      rwa [after_after]
    rw [← arc_after, total]
    have after : result.arc start place (run + 1 + rest) =
        result.arc (table.after start place) 0 (run + 1 + rest) := by
      rw [← removed.shape.after, arc_after]
    rw [after, ← arc_append table _ 0 (run + 1) rest, arc_succ, first,
      ← arc_append result _ 0 (run + 1) rest, ← arc_append result _ 0 run 1, moved]
    simp only [Nat.zero_add, gap, kept]
    simp

theorem arc_modifyAt {start place count : Nat} {cell : Cell α} (change : α → α)
    (bound : start < table.slotCount) (total : table.slotCount = place + 1 + count)
    (held : table.slot (table.after start place) = some cell) :
    (table.modifyAt (table.after start place) change).arc start 0 (place + 1) =
        table.arc start 0 place ++ [{ cell with value := change cell.value }] ∧
      (table.modifyAt (table.after start place) change).arc start (place + 1) count =
        table.arc start (place + 1) count := by
  rw [modifyAt_eq_put change held]
  have inside := lt_of_slot held
  have same := put_sameShape table (table.after start place)
    (some { cell with value := change cell.value })
  have elsewhere (offset : Nat) (below : offset < table.slotCount) (apart : offset ≠ place) :
      (table.put (table.after start place) (some { cell with value := change cell.value })).slot
        (table.after start offset) = table.slot (table.after start offset) := by
    refine slot_put_of_ne _ inside ?_
    intro loops
    exact apart (after_injective bound below (by omega) loops)
  constructor
  · rw [← arc_append, arc_succ, same.after, Nat.zero_add, slot_put_self _ inside]
    rw [arc_congr same fun offset _ upper => elsewhere offset (by omega) (by omega)]
    rfl
  · exact arc_congr same fun offset lower upper => elsewhere offset (by omega) (by omega)

/-- What keeping some of the values gives, from a place of the walk on. -/
structure Retained (table result : Table α) (start place : Nat) (kept : List (Cell α)) : Prop where
  sound : Sound result
  shape : SameShape table result
  free : result.slot start = none
  cells : result.arc start 0 table.slotCount = table.arc start 0 place ++ kept

theorem Retained.of_step {shorter : Table α} {start place next : Nat} {moved kept : List (Cell α)}
    (retained : Retained shorter result start next kept) (same : SameShape table shorter)
    (front : shorter.arc start 0 next = table.arc start 0 place ++ moved) :
    Retained table result start place (moved ++ kept) := by
  refine ⟨retained.sound, same.trans retained.shape, retained.free, ?_⟩
  have cells := retained.cells
  rw [same.slotCount, front] at cells
  rw [cells, List.append_assoc]

/-- A walk behind a free slot that has come to `place`, with the cells still to be offered. -/
structure Offering (table : Table α) (start place : Nat) (remaining : List (Cell α)) : Prop where
  sound : Sound table
  bound : start < table.slotCount
  free : table.slot start = none
  place_pos : 0 < place
  place_le : place ≤ table.slotCount
  rest : table.arc start place (table.slotCount - place) = remaining

namespace Offering

variable {start place : Nat} {remaining : List (Cell α)} {cell : Cell α}

theorem ended (offering : Offering table start place remaining) (done : place = table.slotCount) :
    remaining = [] := by
  have rest := offering.rest
  rw [done, Nat.sub_self] at rest
  exact rest.symm

theorem after_ne (offering : Offering table start place remaining)
    (going : place < table.slotCount) : table.after start place ≠ start := by
  intro back
  have positive := offering.place_pos
  rw [← after_zero offering.bound, after_after] at back
  have same := after_injective offering.bound (by omega) offering.sound.shaped.allocated back
  omega

theorem split (offering : Offering table start place remaining) (going : place < table.slotCount) :
    remaining = (table.slot (table.after start place)).toList ++
      table.arc start (place + 1) (table.slotCount - (place + 1)) := by
  rw [← arc_succ, ← offering.rest]
  congr 1
  omega

theorem skip (offering : Offering table start place remaining) (going : place < table.slotCount)
    (held : table.slot (table.after start place) = none) :
    Offering table start (place + 1) remaining ∧
      table.arc start 0 (place + 1) = table.arc start 0 place := by
  have rest := offering.split going
  rw [held, Option.toList_none, List.nil_append] at rest
  refine ⟨⟨offering.sound, offering.bound, offering.free, by omega, going, rest.symm⟩, ?_⟩
  rw [← arc_append, arc_succ, Nat.zero_add, held]
  simp [arc]

theorem keep (offering : Offering table start place remaining) (going : place < table.slotCount)
    (held : table.slot (table.after start place) = some cell) (value : α) :
    ∃ rest, remaining = cell :: rest ∧
      Offering (table.modifyAt (table.after start place) fun _ => value) start (place + 1) rest ∧
        (table.modifyAt (table.after start place) fun _ => value).arc start 0 (place + 1) =
          table.arc start 0 place ++ [{ cell with value }] := by
  have rest := offering.split going
  rw [held, Option.toList_some, List.singleton_append] at rest
  have same : SameShape table (table.modifyAt (table.after start place) fun _ => value) :=
    modifyAt_sameShape _ _ _
  have total : table.slotCount = place + 1 + (table.slotCount - (place + 1)) := by omega
  obtain ⟨front, back⟩ := arc_modifyAt (fun _ => value) offering.bound total held
  refine ⟨_, rest, ⟨offering.sound.modifyAt _ _, ?_, ?_, by omega, ?_, ?_⟩, front⟩
  · rw [same.slotCount]
    exact offering.bound
  · rw [modifyAt_eq_put _ held,
      slot_put_of_ne _ (lt_of_slot held) (offering.after_ne going).symm]
    exact offering.free
  · rw [same.slotCount]
    exact going
  · rw [same.slotCount]
    exact back

theorem drop (offering : Offering table start place remaining) (going : place < table.slotCount)
    (held : table.slot (table.after start place) = some cell) :
    ∃ rest shorter, remaining = cell :: rest ∧
      table.removeAt (table.after start place) = .ok (cell.value, shorter) ∧
        SameShape table shorter ∧ Offering shorter start place rest ∧
          shorter.arc start 0 place = table.arc start 0 place := by
  have counted : table.population ≠ 0 := by
    have positive := List.length_pos_of_mem (mem_cells.mpr ⟨_, held⟩)
    have size := offering.sound.counted
    omega
  obtain ⟨shorter, steps, taken, removed⟩ :=
    removeAt_spec held ⟨start, offering.bound, offering.free⟩ counted
  obtain ⟨stillFree, front, back⟩ := removed.arcs offering.bound going offering.free held
  have slotCount := removed.shape.slotCount
  rw [offering.rest] at back
  refine ⟨_, shorter, back, taken, removed.shape, ⟨removed.sound offering.sound (lt_of_slot held),
    by rw [slotCount]; exact offering.bound, stillFree, offering.place_pos,
    by rw [slotCount]; exact offering.place_le, by rw [slotCount]⟩, front⟩

end Offering

theorem retainFrom_round (offer : σ → α → Option α × σ) {start : Nat}
    (bound : start < table.slotCount) (fuel rounds : Nat) (state : σ) :
    retainFrom offer start fuel rounds (table.after start table.slotCount) state table =
      .ok (rounds, state, table) := by
  cases fuel <;> simp [retainFrom, after_round bound]

structure Finished (offer : σ → α → Option α × σ) (table : Table α) (start place rounds : Nat)
    (state : σ) (remaining : List (Cell α)) (outcome : Nat × σ × Table α) : Prop where
  count : outcome.1 + (offerAll offer state remaining).1.length =
    rounds + (table.slotCount - place) + remaining.length
  last : outcome.2.1 = (offerAll offer state remaining).2
  retained : Retained table outcome.2.2 start place (offerAll offer state remaining).1

theorem Offering.finished {start rounds : Nat} {remaining : List (Cell α)}
    (offering : Offering table start table.slotCount remaining)
    (offer : σ → α → Option α × σ) (state : σ) :
    Finished offer table start table.slotCount rounds state remaining (rounds, state, table) := by
  obtain rfl := offering.ended rfl
  exact ⟨by simp [offerAll], rfl, offering.sound, .refl table, offering.free, by simp [offerAll]⟩

namespace Finished

variable {offer : σ → α → Option α × σ} {shorter : Table α} {start place rounds : Nat}
  {state after : σ} {cell : Cell α} {remaining : List (Cell α)} {outcome : Nat × σ × Table α}

theorem of_skip (going : place < table.slotCount)
    (front : table.arc start 0 (place + 1) = table.arc start 0 place)
    (finished : Finished offer table start (place + 1) (rounds + 1) state remaining outcome) :
    Finished offer table start place rounds state remaining outcome := by
  have unmoved : table.arc start 0 (place + 1) = table.arc start 0 place ++ [] := by
    rw [front, List.append_nil]
  refine ⟨?_, finished.last, finished.retained.of_step (.refl table) unmoved⟩
  have count := finished.count
  omega

theorem of_keep {value : α} (going : place < table.slotCount) (same : SameShape table shorter)
    (verdict : offer state cell.value = (some value, after))
    (front : shorter.arc start 0 (place + 1) = table.arc start 0 place ++ [{ cell with value }])
    (finished : Finished offer shorter start (place + 1) (rounds + 1) after remaining outcome) :
    Finished offer table start place rounds state (cell :: remaining) outcome := by
  have answer := offerAll_of_kept verdict remaining
  constructor <;> rw [answer]
  case count =>
    have count := finished.count
    rw [same.slotCount] at count
    simp only [List.length_cons]
    omega
  case last => exact finished.last
  case retained => exact finished.retained.of_step same front

theorem of_drop (same : SameShape table shorter)
    (verdict : offer state cell.value = (none, after))
    (front : shorter.arc start 0 place = table.arc start 0 place)
    (finished : Finished offer shorter start place (rounds + 1) after remaining outcome) :
    Finished offer table start place rounds state (cell :: remaining) outcome := by
  have answer := offerAll_of_dropped verdict remaining
  have unmoved : shorter.arc start 0 place = table.arc start 0 place ++ [] := by
    rw [front, List.append_nil]
  constructor <;> rw [answer]
  case count =>
    have count := finished.count
    rw [same.slotCount] at count
    simp only [List.length_cons]
    omega
  case last => exact finished.last
  case retained => exact finished.retained.of_step same unmoved

end Finished

theorem retainFrom_spec (offer : σ → α → Option α × σ) {start : Nat}
    (fuel place rounds : Nat) (state : σ) (remaining : List (Cell α))
    (offering : Offering table start place remaining)
    (enough : table.slotCount - place + remaining.length ≤ fuel) :
    ∃ outcome,
      retainFrom offer start fuel rounds (table.after start place) state table = .ok outcome ∧
        Finished offer table start place rounds state remaining outcome := by
  -- A round either comes one slot nearer to the start or takes a cell out.
  induction fuel generalizing table place rounds state remaining with
  | zero =>
      have within := offering.place_le
      obtain rfl : place = table.slotCount := by omega
      exact ⟨_, retainFrom_round offer offering.bound _ _ _, offering.finished offer state⟩
  | succ fuel ih =>
      rcases Nat.eq_or_lt_of_le offering.place_le with rfl | going
      · exact ⟨_, retainFrom_round offer offering.bound _ _ _, offering.finished offer state⟩
      · rw [retainFrom, if_neg (offering.after_ne going), next_eq, after_after]
        cases held : table.slot (table.after start place) with
        | none =>
            obtain ⟨skipped, front⟩ := offering.skip going held
            obtain ⟨outcome, walked, finished⟩ :=
              ih (place + 1) (rounds + 1) state remaining skipped (by omega)
            exact ⟨outcome, walked, finished.of_skip going front⟩
        | some cell =>
            cases verdict : offer state cell.value with
            | mk answer after =>
                cases answer with
                | some value =>
                    obtain ⟨rest, rfl, kept, front⟩ := offering.keep going held value
                    have same : SameShape table
                        (table.modifyAt (table.after start place) fun _ => value) :=
                      modifyAt_sameShape _ _ _
                    rw [List.length_cons] at enough
                    obtain ⟨outcome, walked, finished⟩ :=
                      ih (place + 1) (rounds + 1) after rest kept (by rw [same.slotCount]; omega)
                    rw [same.after] at walked
                    simp only [verdict]
                    exact ⟨outcome, walked, finished.of_keep going same verdict front⟩
                | none =>
                    obtain ⟨rest, shorter, rfl, taken, same, dropped, front⟩ :=
                      offering.drop going held
                    rw [List.length_cons] at enough
                    obtain ⟨outcome, walked, finished⟩ :=
                      ih place (rounds + 1) after rest dropped (by rw [same.slotCount]; omega)
                    rw [same.after] at walked
                    simp only [verdict, taken]
                    exact ⟨outcome, walked, finished.of_drop same verdict front⟩

structure LowestFree (table : Table α) (index : Nat) : Prop where
  bound : index < table.slotCount
  free : table.slot index = none
  lowest : ∀ earlier < index, table.slot earlier ≠ none

theorem Sound.exists_lowestFree (sound : Sound table) :
    ∃ start, table.stepsToFree 0 = .ok start ∧ table.LowestFree start := by
  have allocated := sound.shaped.allocated
  obtain ⟨start, bound, found, free, taken⟩ := stepsToFree_spec allocated sound.exists_free
  have origin {index : Nat} (below : index ≤ start) : table.after 0 index = index := by
    rw [after, Nat.zero_add, Nat.mod_eq_of_lt (by omega)]
  refine ⟨start, found, bound, ?_, ?_⟩
  · rwa [origin (Nat.le_refl _)] at free
  · intro earlier before
    rw [← origin (Nat.le_of_lt before)]
    exact taken earlier before

def cellsBehind (table : Table α) (start : Nat) : List (Cell α) :=
  table.arc start 1 (table.slotCount - 1)

theorem arc_one {start : Nat} (bound : start < table.slotCount) (free : table.slot start = none) :
    table.arc start 0 1 = [] := by
  rw [arc_succ, after_zero bound, free]
  rfl

theorem arc_round {start : Nat} (bound : start < table.slotCount)
    (free : table.slot start = none) :
    table.arc start 0 table.slotCount = table.cellsBehind start := by
  obtain ⟨count, total⟩ : ∃ count, table.slotCount = 1 + count := ⟨table.slotCount - 1, by omega⟩
  rw [cellsBehind, total, Nat.add_sub_cancel_left, ← arc_append, arc_one bound free]
  rfl

theorem cellsBehind_perm {start : Nat} (bound : start < table.slotCount)
    (free : table.slot start = none) : (table.cellsBehind start).Perm table.cells := by
  rw [← arc_round bound free]
  exact table.arc_perm start

theorem Retained.cellsBehind_eq {start : Nat} {kept : List (Cell α)}
    (retained : Retained table result start 1 kept) (bound : start < table.slotCount)
    (free : table.slot start = none) : result.cellsBehind start = kept := by
  have resultBound : start < result.slotCount := by rwa [retained.shape.slotCount]
  rw [← arc_round resultBound retained.free, retained.shape.slotCount, retained.cells,
    arc_one bound free]
  rfl

theorem length_offerAll_le (offer : σ → α → Option α × σ) (state : σ) (cells : List (Cell α)) :
    (offerAll offer state cells).1.length ≤ cells.length := by
  induction cells generalizing state with
  | nil => exact Nat.le_refl _
  | cons cell rest ih =>
      rw [offerAll]
      split
      · simpa using ih _
      · exact Nat.le_succ_of_le (ih _)

theorem Sound.retainRounds_spec (sound : Sound table) (offer : σ → α → Option α × σ) (state : σ) :
    ∃ start result, table.LowestFree start ∧
      table.retainRounds offer state = .ok
        (table.slotCount - 1 + ((table.cellsBehind start).length -
            (offerAll offer state (table.cellsBehind start)).1.length),
          (offerAll offer state (table.cellsBehind start)).2, result) ∧
        Sound result ∧ SameShape table result ∧ result.slot start = none ∧
          result.cellsBehind start = (offerAll offer state (table.cellsBehind start)).1 := by
  obtain ⟨start, found, lowest⟩ := sound.exists_lowestFree
  have bound := lowest.bound
  have length : (table.cellsBehind start).length = table.population := by
    rw [(cellsBehind_perm bound lowest.free).length_eq, sound.counted]
  obtain ⟨⟨rounds, after, result⟩, walked, finished⟩ := retainFrom_spec offer
    (table.slotCount + table.population) 1 0 state (table.cellsBehind start)
    ⟨sound, bound, lowest.free, by omega, by omega, rfl⟩ (by omega)
  obtain ⟨count, ended, retained⟩ := finished
  have fewer := length_offerAll_le offer state (table.cellsBehind start)
  refine ⟨start, result, lowest, ?_, retained.sound, retained.shape, retained.free,
    retained.cellsBehind_eq bound lowest.free⟩
  simp only [retainRounds, found, next_eq]
  refine walked.trans ?_
  rw [← ended]
  congr 2
  simp only at count
  omega

theorem retain_of_rounds {offer : σ → α → Option α × σ} {state after : σ} {rounds : Nat}
    (occupied : table.population ≠ 0)
    (walked : table.retainRounds offer state = .ok (rounds, after, result)) :
    table.retain offer state = .ok (after, result) := by
  rw [retain, if_neg occupied, walked]
  rfl

theorem Valid.retain_spec (valid : Valid table) (offer : σ → α → Option α × σ) (state : σ) :
    ∃ order result, order.Perm table.cells ∧
      table.retain offer state = .ok ((offerAll offer state order).2, result) ∧
        Valid result ∧ result.cells.Perm (offerAll offer state order).1 := by
  by_cases vacant : table.population = 0
  · have emptied : table.cells = [] := by
      rw [← List.length_eq_zero_iff, valid.counted, vacant]
    refine ⟨[], table, by rw [emptied], by simp [retain, vacant, offerAll], valid, ?_⟩
    rw [emptied]
    exact List.Perm.refl _
  · obtain ⟨start, result, lowest, walked, sound, shape, free, kept⟩ :=
      (valid.sound (valid.slotCount_ne_zero vacant)).retainRounds_spec offer state
    refine ⟨table.cellsBehind start, result, cellsBehind_perm lowest.bound lowest.free,
      retain_of_rounds vacant walked, .allocated sound, ?_⟩
    rw [← kept]
    exact (cellsBehind_perm (by rw [shape.slotCount]; exact lowest.bound) free).symm

end RobinHood.Table
