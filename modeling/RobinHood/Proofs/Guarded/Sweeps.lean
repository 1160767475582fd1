import RobinHood.Proofs.Emptying
import RobinHood.Proofs.Guarded.Entries
import RobinHood.Proofs.Walking

/-!
Going over all slots step by step. A sweep that keeps some values ends where it began; a walk ends
when it counts no more values, or at the end of the array.
-/

namespace RobinHood

variable {α σ β ω ι : Type}

namespace Guarded

noncomputable section

def retainFrom (offer : σ → α → Option α × σ) (start index : Nat) (state : σ) (table : Table α) :
    Guarded (σ × Table α) :=
  loop (fun (index, state, table) => do
    if index = start then return .done (state, table)
    else
      match ← fetch table.slots index with
      | none => return .again (← next table index, state, table)
      | some cell =>
          match offer state cell.value with
          | (some value, state) =>
              let slots ← store table.slots index (some { cell with value })
              let table := { table with slots }
              return .again (← next table index, state, table)
          | (none, state) =>
              let (_, table) ← removeAt table index
              return .again (index, state, table)) (index, state, table)

def retain (offer : σ → α → Option α × σ) (state : σ) (table : Table α) :
    Guarded (σ × Table α) := do
  if table.population = 0 then return (state, table)
  else
    let start ← nextFree table 0
    retainFrom offer start (← next table start) state table

namespace Cursor

def next (cursor : Table.Cursor) (slots : Array (Slot α)) :
    Guarded (Option Nat × Table.Cursor) := do
  if cursor.remaining = 0 then return (none, cursor)
  else
    match firstWhere (fun index => (slots.getD index none).isSome) cursor.front
        (cursor.back - cursor.front) with
    | none => return (none, { cursor with front := cursor.back })
    | some index =>
        let remaining ← sub cursor.remaining 1
        return (some index, { cursor with front := index + 1, remaining })

def nextBack (cursor : Table.Cursor) (slots : Array (Slot α)) :
    Guarded (Option Nat × Table.Cursor) := do
  if cursor.remaining = 0 then return (none, cursor)
  else
    match firstWhere (fun passed => !readsFree (slots.getD (cursor.back - 1 - passed) none)) 0
        (cursor.back - cursor.front) with
    | none => return (none, { cursor with back := cursor.front })
    | some passed =>
        let remaining ← sub cursor.remaining 1
        return (some (cursor.back - 1 - passed),
          { cursor with back := cursor.back - 1 - passed, remaining })

def step (cursor : Table.Cursor) (slots : Array (Slot α)) :
    Table.Side → Guarded (Option Nat × Table.Cursor)
  | .front => next cursor slots
  | .back => nextBack cursor slots

end Cursor

def Walk.step (walk : Table.Walk α) (side : Table.Side) :
    Guarded (Option α × Table.Walk α) := do
  match ← Cursor.step walk.cursor walk.slots side with
  | (none, cursor) => return (none, { walk with cursor })
  | (some index, cursor) => return (Table.valueIn walk.slots index, { walk with cursor })

def ChangingWalk.step (walk : Table.ChangingWalk α) (side : Table.Side) (change : α → α) :
    Guarded (Option α × Table.ChangingWalk α) := do
  match ← Cursor.step walk.cursor walk.table.slots side with
  | (none, cursor) => return (none, { walk with cursor })
  | (some index, cursor) =>
      let (value, table) ← changeSlot walk.table index change
      return (value, { table, cursor })

def TakingWalk.step (walk : Table.TakingWalk α) (side : Table.Side) :
    Guarded (Option α × Table.TakingWalk α) := do
  match ← Cursor.step walk.cursor walk.slots side with
  | (none, cursor) => return (none, { walk with cursor })
  | (some index, cursor) =>
      let slots ← store walk.slots index none
      return (Table.valueIn walk.slots index, { slots, cursor })

def stepAll {m : Type → Type} [Monad m] (step : ω → ι → m (β × ω)) :
    List ι → ω → m (List β × ω)
  | [], walk => return ([], walk)
  | move :: moves, walk => do
      let (answer, walk) ← step walk move
      let (answers, walk) ← stepAll step moves walk
      return (answer :: answers, walk)

def exhaustFrom (step : ω → Guarded (Option β × ω)) (front : List β) (walk : ω) :
    Guarded (List β × ω) :=
  loop (fun (front, walk) => do
    match ← step walk with
    | (none, walk) => return .done (front, walk)
    | (some value, walk) => return .again (front ++ [value], walk)) (front, walk)

/-- Takes steps until one gives nothing. -/
def exhaust (step : ω → Guarded (Option β × ω)) (walk : ω) : Guarded (List β × ω) :=
  exhaustFrom step [] walk

def values (table : Table α) : Guarded (List α) := do
  return (← exhaust (Walk.step · .front) table.walk).1

namespace Drain

def next : Table.Drain α → Guarded (Option α × Table.Drain α) :=
  loop fun drain => do
    if 0 < drain.remaining ∧ drain.index < drain.slots.size then
      let taken ← fetch drain.slots drain.index
      let slots ← store drain.slots drain.index none
      let index ← add drain.index 1
      match taken with
      | none => return .again { drain with slots, index }
      | some cell =>
          let remaining ← sub drain.remaining 1
          return .done (some cell.value, { slots, index, remaining })
    else return .done (none, drain)

def take : Nat → Table.Drain α → Guarded (List (Option α) × Table.Drain α)
  | 0, drain => return ([], drain)
  | count + 1, drain => do
      let (value, drain) ← next drain
      let (values, drain) ← take count drain
      return (value :: values, drain)

def close (drain : Table.Drain α) : Guarded (Table α) :=
  if drain.index ≤ drain.slots.size then
    setGeometry (drain.slots.mapIdx fun index slot => if drain.index ≤ index then none else slot) 0
  else stop (.range drain.index drain.slots.size)

end Drain

def allowance (table : Table α) (index : Nat) : Guarded Nat := do
  let before := wrappingSub index 1 &&& table.mask
  match ← fetch table.slots before with
  | none => return 0
  | some cell => add (← displacement table cell.hash before) 1

def checkSlot (table : Table α) (counted index : Nat) : Guarded Nat := do
  match ← fetch table.slots index with
  | none => return counted
  | some cell =>
      let counted ← add counted 1
      if cell.hash % 2 = 0 then fail (.invariantViolation index "cached hash is even")
      else
        let own ← displacement table cell.hash index
        if (← allowance table index) < own then
          fail (.invariantViolation index "value displaced further than its predecessor allows")
        else return counted

def check (table : Table α) : Guarded Unit := do
  let violation (reason : String) : Guarded Unit := fail (.invariantViolation 0 reason)
  if table.slotCount = 0 then
    if table.population ≠ 0 ∨ table.trigger ≠ 0 then violation "unallocated table reports values"
  else if ¬ Table.isPowerOfTwo table.slotCount ∨ table.slotCount < Table.leastSlots then
    violation "slot count is not a power of two of at least 16"
  else if table.mask ≠ (← sub table.slotCount 1) then
    violation "capacity mask does not match slot count"
  else if (← shiftRight (UInt64.size - 1) table.shift) ≠ table.mask then
    violation "index shift does not match capacity mask"
  else if table.trigger ≠ Table.triggerOf table.mask then
    violation "resize trigger does not match capacity"
  else if table.trigger < table.population then
    violation "population exceeds resize trigger"
  else
    let counted ← (List.range table.slotCount).foldlM (checkSlot table) 0
    if counted ≠ table.population then
      violation "occupied slot count does not match length"

end

theorem retainFrom_turn (offer : σ → α → Option α × σ) (start index : Nat) (state : σ)
    (table : Table α) :
    retainFrom offer start index state table = (do
      if index = start then return (state, table)
      else
        match ← fetch table.slots index with
        | none => retainFrom offer start (← next table index) state table
        | some cell =>
            match offer state cell.value with
            | (some value, state) =>
                let slots ← store table.slots index (some { cell with value })
                let table := { table with slots }
                retainFrom offer start (← next table index) state table
            | (none, state) =>
                let (_, table) ← removeAt table index
                retainFrom offer start index state table) := by
  rw [retainFrom, loop_eq, ite_bind, bind_assoc]
  by_cases home : index = start
  · rw [if_pos home, if_pos home]
    rfl
  · rw [if_neg home, if_neg home]
    refine bind_congr fun slot => ?_
    cases slot with
    | none =>
        simp only [bind_assoc, pure_again_then]
        rfl
    | some cell =>
        rcases offered : offer state cell.value with ⟨_ | value, later⟩
        · simp only [offered, bind_assoc, pure_again_then]
          rfl
        · simp only [offered, bind_assoc, pure_again_then]
          rfl

theorem exhaustFrom_turn (step : ω → Guarded (Option β × ω)) (front : List β) (walk : ω) :
    exhaustFrom step front walk = (do
      match ← step walk with
      | (none, walk) => return (front, walk)
      | (some value, walk) => exhaustFrom step (front ++ [value]) walk) := by
  rw [exhaustFrom, loop_eq, bind_assoc]
  refine bind_congr fun answer => ?_
  rcases answer with ⟨_ | value, walk⟩
  · rfl
  · rfl

theorem Drain.next_turn (drain : Table.Drain α) :
    Drain.next drain = (do
      if 0 < drain.remaining ∧ drain.index < drain.slots.size then
        let taken ← fetch drain.slots drain.index
        let slots ← store drain.slots drain.index none
        let index ← add drain.index 1
        match taken with
        | none => Drain.next { drain with slots, index }
        | some cell =>
            let remaining ← sub drain.remaining 1
            return (some cell.value, { slots, index, remaining })
      else return (none, drain)) := by
  rw [Drain.next, loop_eq, ite_bind]
  by_cases ahead : 0 < drain.remaining ∧ drain.index < drain.slots.size
  · rw [if_pos ahead, if_pos ahead]
    simp only [bind_assoc]
    refine bind_congr fun taken => bind_congr fun slots => bind_congr fun index => ?_
    cases taken with
    | none => rfl
    | some cell => simp only [bind_assoc, pure_done_then]
  · rw [if_neg ahead, if_neg ahead]
    rfl

end Guarded

namespace Table

open Guarded

variable {table : Table α}

theorem Safe.retainFrom_eq (safe : Safe table) (offer : σ → α → Option α × σ) {start index : Nat}
    {fuel rounds : Nat} {state : σ} (bound : index < table.slotCount) {last : Nat × σ × Table α}
    (walked : table.retainFrom offer start fuel rounds index state = .ok last) :
    Guarded.retainFrom offer start index state table = pure last.2 := by
  induction fuel generalizing table index rounds state with
  | zero =>
      rw [Table.retainFrom] at walked
      split at walked
      next home => rw [retainFrom_turn, if_pos home, ← Except.ok.inj walked]
      next => simp at walked
  | succ fuel ih =>
      have shaped := (safe.valid.sound (by omega)).shaped
      have nextBound : table.next index < table.slotCount := after_lt shaped.allocated index 1
      have forward := shaped.next_eq safe.counted bound
      rw [Table.retainFrom] at walked
      rw [retainFrom_turn]
      by_cases home : index = start
      · rw [if_pos home] at walked ⊢
        rw [← Except.ok.inj walked]
      · rw [if_neg home] at walked ⊢
        rw [fetch_slots bound, pure_bind]
        cases held : table.slot index with
        | none =>
            simp only [held] at walked ⊢
            rw [forward, pure_bind]
            exact ih safe nextBound walked
        | some cell =>
            simp only [held] at walked ⊢
            rcases offered : offer state cell.value with ⟨_ | value, after⟩
            · simp only [offered] at walked ⊢
              obtain ⟨taken, removed, walked⟩ := exists_of_bind walked
              have ran := (safe.removeAt_follows held).eq_of_ok removed
              rw [ran.1, pure_bind]
              exact ih ran.2 (by rw [slotCount_of_removeAt removed]; exact bound) walked
            · simp only [offered] at walked ⊢
              let kept := table.modifyAt index fun _ => value
              have same : SameShape table kept := modifyAt_sameShape table index _
              have stored : store table.slots index (some { cell with value }) =
                  pure kept.slots := by
                rw [store_slots _ bound, ← modifyAt_eq_put (fun _ => value) held]
              rw [stored, pure_bind]
              change (do
                let following ← Guarded.next kept index
                Guarded.retainFrom offer start following after kept) = _
              rw [same.guarded_next, forward, pure_bind]
              exact ih (safe.modifyAt index _) (by rw [same.slotCount]; exact nextBound) walked

theorem Safe.retain_follows (safe : Safe table) (offer : σ → α → Option α × σ) (state : σ) :
    Follows Never (fun answer => Safe answer.2) (Guarded.retain offer state table)
      (table.retain offer state) := by
  obtain ⟨_, result, _, done, valid, _⟩ := safe.valid.retain_spec offer state
  have counted : result.slotCount < 2 ^ 64 := by
    rw [slotCount_of_retain done]
    exact safe.counted
  refine .of_eq ?_ done ⟨valid, counted⟩
  by_cases vacant : table.population = 0
  · rw [retain, if_pos vacant] at done
    rw [Guarded.retain, if_pos vacant, Except.ok.inj done]
  · have sound := safe.valid.sound (safe.valid.slotCount_ne_zero vacant)
    have allocated := sound.shaped.allocated
    rw [retain, if_neg vacant] at done
    obtain ⟨rounds, walked, same⟩ := exists_of_map done
    obtain ⟨start, found, walked⟩ := exists_of_bind walked
    obtain ⟨steps, round, other, hole, run⟩ := stepsToFree_spec allocated sound.exists_free
    obtain rfl := Except.ok.inj (other.symm.trans found)
    have origin : table.after 0 steps = steps := by
      simp [after, Nat.mod_eq_of_lt round]
    have nextBound : table.next steps < table.slotCount := after_lt allocated steps 1
    have free := sound.toOrdered.nextFree_eq safe.counted allocated hole run
    rw [origin] at free
    rw [Guarded.retain, if_neg vacant, free, pure_bind,
      sound.shaped.next_eq safe.counted round, pure_bind,
      safe.retainFrom_eq offer nextBound walked, same]

theorem Safe.clear (safe : Safe table) : Safe table.clear := by
  refine ⟨safe.valid.clear.1, ?_⟩
  have counted := safe.counted
  rw [Table.clear]
  split
  · exact counted
  · simpa [slotCount] using counted

def OddSlots (slots : Array (Slot α)) : Prop :=
  ∀ index cell, slots.getD index none = some cell → cell.hash % 2 = 1

theorem Safe.oddSlots (safe : Safe table) : OddSlots table.slots := by
  intro index cell held
  exact (safe.valid.sound_of_slot held).odd held

theorem lt_of_getD {slots : Array (Slot α)} {index : Nat} {cell : Cell α}
    (held : slots.getD index none = some cell) : index < slots.size := by
  by_contra outside
  simp [Array.getD, outside] at held

namespace Cursor

variable {slots : Array (Slot α)} {cursor : Cursor}

theorem guarded_next (cursor : Cursor) (slots : Array (Slot α)) :
    Guarded.Cursor.next cursor slots = pure (cursor.next slots) := by
  rw [Guarded.Cursor.next, next]
  by_cases last : cursor.remaining = 0
  · rw [if_pos last, if_pos last]
  · rw [if_neg last, if_neg last]
    cases firstWhere (fun index => (slots.getD index none).isSome) cursor.front
        (cursor.back - cursor.front) with
    | none => rfl
    | some index => simp only [sub_of (Nat.one_le_iff_ne_zero.mpr last), pure_bind]

theorem guarded_nextBack (odd : OddSlots slots) (cursor : Cursor) :
    Guarded.Cursor.nextBack cursor slots = pure (cursor.nextBack slots) := by
  have reads (index : Nat) :
      (!readsFree (slots.getD index none)) = (slots.getD index none).isSome := by
    cases held : slots.getD index none with
    | none => rfl
    | some cell => rw [readsFree_of_odd (odd index cell held)]; rfl
  simp only [Guarded.Cursor.nextBack, nextBack, reads]
  by_cases last : cursor.remaining = 0
  · rw [if_pos last, if_pos last]
  · rw [if_neg last, if_neg last]
    cases firstWhere (fun passed => (slots.getD (cursor.back - 1 - passed) none).isSome) 0
        (cursor.back - cursor.front) with
    | none => rfl
    | some passed => simp only [sub_of (Nat.one_le_iff_ne_zero.mpr last), pure_bind]

theorem guarded_step (odd : OddSlots slots) (cursor : Cursor) (side : Side) :
    Guarded.Cursor.step cursor slots side = pure (cursor.step slots side) := by
  cases side with
  | front => exact guarded_next cursor slots
  | back => exact guarded_nextBack odd cursor

end Cursor

theorem Walk.step_follows {walk : Walk α} (odd : OddSlots walk.slots) (side : Side) :
    Follows Never (fun answer => OddSlots answer.2.slots) (Guarded.Walk.step walk side)
      (.ok (walk.step side)) := by
  rw [Guarded.Walk.step, Cursor.guarded_step odd, pure_bind, Walk.step]
  cases walk.cursor.step walk.slots side with
  | mk found cursor =>
      cases found with
      | none => exact .answer odd
      | some index => exact .answer odd

theorem ChangingWalk.step_follows {walk : ChangingWalk α} (safe : Safe walk.table) (side : Side)
    (change : α → α) :
    Follows Never (fun answer => Safe answer.2.table)
      (Guarded.ChangingWalk.step walk side change) (.ok (walk.step side change)) := by
  rw [Guarded.ChangingWalk.step, Cursor.guarded_step safe.oddSlots, pure_bind, ChangingWalk.step]
  cases stepped : walk.cursor.step walk.table.slots side with
  | mk found cursor =>
      cases found with
      | none => exact .answer safe
      | some index =>
          obtain ⟨cell, held⟩ := Option.isSome_iff_exists.mp (Cursor.step_found stepped).1
          have changed : valueIn (walk.table.modifyAt index change).slots index =
              some (change cell.value) := by
            rw [valueIn]
            exact congrArg (Option.map Cell.value) (slot_modifyAt_self change held)
          simp only [changeSlot_of_cell held, pure_bind, changed]
          exact .answer (safe.modifyAt index change)

theorem TakingWalk.step_follows {walk : TakingWalk α} (odd : OddSlots walk.slots) (side : Side) :
    Follows Never (fun answer => OddSlots answer.2.slots) (Guarded.TakingWalk.step walk side)
      (.ok (walk.step side)) := by
  rw [Guarded.TakingWalk.step, Cursor.guarded_step odd, pure_bind, TakingWalk.step]
  cases stepped : walk.cursor.step walk.slots side with
  | mk found cursor =>
      cases found with
      | none => exact .answer odd
      | some index =>
          obtain ⟨cell, held⟩ := Option.isSome_iff_exists.mp (Cursor.step_found stepped).1
          have inside : index < walk.slots.size := lt_of_getD held
          simp only [store_of_lt none inside, pure_bind]
          refine .answer ?_
          intro position other present
          simp only [Array.getD_eq_getD_getElem?, Array.getElem?_setIfInBounds] at present
          split at present
          · simp at present
          · exact odd position other (by rwa [Array.getD_eq_getD_getElem?])

theorem stepAll_follows (good : ω → Prop) {guarded : ω → ι → Guarded (β × ω)}
    {plain : ω → ι → β × ω}
    (once : ∀ walk move, good walk →
      Follows Never (fun answer => good answer.2) (guarded walk move) (.ok (plain walk move)))
    (moves : List ι) {walk : ω} (holds : good walk) :
    Follows Never (fun answer => good answer.2) (stepAll guarded moves walk)
      (stepAll (fun walk move => .ok (plain walk move)) moves walk) := by
  induction moves generalizing walk with
  | nil => exact .answer holds
  | cons move moves ih =>
      exact (once walk move holds).bind fun first after =>
        (ih after).bind fun rest later => .answer later

section Exhausting

variable {good : ω → Prop} {guarded : ω → Guarded (Option β × ω)} {plain : ω → Option β × ω}
  {count : ω → Nat}
  (once : ∀ walk, good walk →
    Follows Never (fun answer => good answer.2) (guarded walk) (.ok (plain walk)))
  (last : ∀ walk, count walk = 0 → plain walk = (none, walk))
  (fewer : ∀ walk value after, plain walk = (some value, after) → count after + 1 = count walk)

include once last fewer

theorem exhaustFrom_eq {steps : Nat} (front : List β) {walk : ω} (holds : good walk)
    (total : count walk = steps) {values : List β} {final : ω}
    (ended : collect plain steps walk = (values, final)) :
    exhaustFrom guarded front walk = pure (front ++ values, final) ∧ good final := by
  induction steps generalizing walk front values with
  | zero =>
      have ran := (once walk holds).eq_of_ok rfl
      obtain ⟨rfl, rfl⟩ := Prod.mk.inj ended
      rw [last walk total] at ran
      rw [exhaustFrom_turn, ran.1, pure_bind, List.append_nil]
      exact ⟨rfl, ran.2⟩
  | succ steps ih =>
      have ran := (once walk holds).eq_of_ok rfl
      rw [collect] at ended
      rw [exhaustFrom_turn, ran.1, pure_bind]
      cases stepped : plain walk with
      | mk found after =>
          rw [stepped] at ran ended
          cases found with
          | none =>
              obtain ⟨rfl, rfl⟩ := Prod.mk.inj ended
              rw [List.append_nil]
              exact ⟨rfl, ran.2⟩
          | some value =>
              have left : count after = steps :=
                Nat.succ_inj.mp ((fewer walk value after stepped).trans total)
              cases collected : collect plain steps after with
              | mk rest later =>
                  simp only [collected] at ended
                  obtain ⟨rfl, rfl⟩ := Prod.mk.inj ended
                  have step := ih (front ++ [value]) ran.2 left collected
                  rwa [List.append_assoc] at step

theorem exhaust_follows {walk : ω} (holds : good walk) :
    Follows Never (fun answer => good answer.2) (exhaust guarded walk)
      (.ok (collect plain (count walk) walk)) := by
  have ended := exhaustFrom_eq once last fewer [] holds rfl
    (show collect plain (count walk) walk = (_, _) from rfl)
  exact .of_eq ended.1 rfl ended.2

end Exhausting

/-- A walk whose steps are those of a cursor: it stays where the cursor finds nothing, and gives
something of its own at each slot that the cursor finds. -/
structure CursorSteps (plain : ω → Option β × ω) (side : Side) (cursorOf : ω → Cursor)
    (slotsOf : ω → Array (Slot α)) (stay : ω → Cursor → ω)
    (give : ω → Nat → Cursor → Option β × ω) : Prop where
  steps : ∀ walk, plain walk = match (cursorOf walk).step (slotsOf walk) side with
    | (none, cursor) => (none, stay walk cursor)
    | (some index, cursor) => give walk index cursor
  stays : ∀ walk, stay walk (cursorOf walk) = walk
  moves : ∀ walk index cursor, cursorOf (give walk index cursor).2 = cursor

theorem CursorSteps.exhaust_follows {good : ω → Prop} {guarded : ω → Guarded (Option β × ω)}
    {plain : ω → Option β × ω} {side : Side} {cursorOf : ω → Cursor}
    {slotsOf : ω → Array (Slot α)} {stay : ω → Cursor → ω}
    {give : ω → Nat → Cursor → Option β × ω}
    (led : CursorSteps plain side cursorOf slotsOf stay give)
    (once : ∀ walk, good walk →
      Follows Never (fun answer => good answer.2) (guarded walk) (.ok (plain walk)))
    {walk : ω} (holds : good walk) :
    Follows Never (fun answer => good answer.2) (exhaust guarded walk)
      (.ok (collect plain (cursorOf walk).remaining walk)) := by
  refine Table.exhaust_follows once
    (show ∀ walk, (cursorOf walk).remaining = 0 → _ from ?_) ?_ holds
  · intro walk last
    rw [led.steps, Cursor.step_of_last (slotsOf walk) side last]
    exact congrArg (Prod.mk none) (led.stays walk)
  · intro walk value after stepped
    rw [led.steps] at stepped
    split at stepped
    next => simp at stepped
    next index cursor found =>
      have arrived := led.moves walk index cursor
      rw [stepped] at arrived
      rw [arrived]
      exact Cursor.remaining_step found

theorem Walk.rest_follows {walk : Walk α} (odd : OddSlots walk.slots) (side : Side) :
    Follows Never (fun answer => OddSlots answer.2.slots)
      (exhaust (Guarded.Walk.step · side) walk) (.ok (walk.rest side)) := by
  have led : CursorSteps (Walk.step (α := α) · side) side Walk.cursor Walk.slots
      (fun walk cursor => { walk with cursor })
      (fun walk index cursor => (valueIn walk.slots index, { walk with cursor })) :=
    ⟨fun _ => rfl, fun _ => rfl, fun _ _ _ => rfl⟩
  have once (walk : Walk α) (odd : OddSlots walk.slots) := step_follows odd side
  exact led.exhaust_follows once odd

theorem ChangingWalk.rest_follows {walk : ChangingWalk α} (safe : Safe walk.table) (side : Side)
    (change : α → α) :
    Follows Never (fun answer => Safe answer.2.table)
      (exhaust (Guarded.ChangingWalk.step · side change) walk) (.ok (walk.rest side change)) := by
  have led : CursorSteps (ChangingWalk.step · side change) side ChangingWalk.cursor
      (fun walk => walk.table.slots) (fun walk cursor => { walk with cursor })
      (fun walk index cursor =>
        let table := walk.table.modifyAt index change
        (valueIn table.slots index, { table, cursor })) :=
    ⟨fun _ => rfl, fun _ => rfl, fun _ _ _ => rfl⟩
  have once (walk : ChangingWalk α) (safe : Safe walk.table) := step_follows safe side change
  exact led.exhaust_follows once safe

theorem TakingWalk.rest_follows {walk : TakingWalk α} (odd : OddSlots walk.slots) (side : Side) :
    Follows Never (fun answer => OddSlots answer.2.slots)
      (exhaust (Guarded.TakingWalk.step · side) walk) (.ok (walk.rest side)) := by
  have led : CursorSteps (TakingWalk.step (α := α) · side) side TakingWalk.cursor TakingWalk.slots
      (fun walk cursor => { walk with cursor })
      (fun walk index cursor =>
        (valueIn walk.slots index,
          { slots := walk.slots.setIfInBounds index none, cursor })) :=
    ⟨fun _ => rfl, fun _ => rfl, fun _ _ _ => rfl⟩
  have once (walk : TakingWalk α) (odd : OddSlots walk.slots) := step_follows odd side
  exact led.exhaust_follows once odd

theorem Safe.values_eq (safe : Safe table) : values table = pure table.toList := by
  have odd : OddSlots table.walk.slots := safe.oddSlots
  have walked := (Walk.rest_follows odd .front).eq_of_ok rfl
  rw [values, walked.1, pure_bind, safe.valid.walk_rest]
  rfl

structure Drain.Within (drain : Drain α) (count : Nat) : Prop where
  size : drain.slots.size = count
  index_le : drain.index ≤ count

theorem Drain.Within.go {drain : Drain α} {count : Nat} (within : drain.Within count) {fuel : Nat}
    (ahead : drain.index + fuel ≤ count) : (Drain.next.go fuel drain).2.Within count := by
  induction fuel generalizing drain with
  | zero => exact within
  | succ fuel ih =>
      have size := within.size
      have step (remaining : Nat) : Drain.Within
          { slots := drain.slots.setIfInBounds drain.index none, index := drain.index + 1,
            remaining } count :=
        ⟨by simpa using size, by simp only; omega⟩
      rw [Drain.next.go]
      split
      · exact within
      · cases drain.slots.getD drain.index none with
        | none => exact ih (step _) (by simp only; omega)
        | some cell => exact step _

theorem Drain.Within.next {drain : Drain α} {count : Nat} (within : drain.Within count) :
    drain.next.2.Within count := by
  have size := within.size
  have bound := within.index_le
  exact within.go (by omega)

theorem Drain.Within.take {drain : Drain α} {count : Nat} (within : drain.Within count)
    (taken : Nat) : (Drain.take taken drain).2.Within count := by
  induction taken generalizing drain with
  | zero => exact within
  | succ taken ih => exact ih within.next

theorem Drain.go_eq {drain : Drain α} (counted : drain.slots.size < 2 ^ 64) {fuel : Nat}
    (enough : fuel = drain.slots.size - drain.index) :
    Guarded.Drain.next drain = pure (Drain.next.go fuel drain) := by
  induction fuel generalizing drain with
  | zero =>
      rw [Drain.next_turn, if_neg (by omega)]
      rfl
  | succ fuel ih =>
      rw [Drain.next_turn, Drain.next.go]
      by_cases last : drain.remaining = 0
      · rw [if_neg (by omega), if_pos last]
      · have inside : drain.index < drain.slots.size := by omega
        rw [if_pos ⟨by omega, inside⟩, if_neg last, fetch_of_lt inside, pure_bind,
          store_of_lt none inside, pure_bind, add_of (by omega), pure_bind]
        cases drain.slots.getD drain.index none with
        | none =>
            refine ih ?_ ?_
            · simpa using counted
            · simp only [Array.size_setIfInBounds]
              omega
        | some cell => simp only [sub_of (Nat.one_le_iff_ne_zero.mpr last), pure_bind]

theorem Drain.Within.take_eq {drain : Drain α} {count : Nat} (within : drain.Within count)
    (counted : count < 2 ^ 64) (taken : Nat) :
    Guarded.Drain.take taken drain = pure (Drain.take taken drain) := by
  induction taken generalizing drain with
  | zero => rfl
  | succ taken ih =>
      have rest := ih within.next
      rw [Guarded.Drain.take, Drain.go_eq (by rwa [within.size]) rfl, pure_bind]
      change (do
        let (values, last) ← Guarded.Drain.take taken drain.next.2
        pure (drain.next.1 :: values, last)) = _
      rw [rest]
      rfl

theorem Safe.setGeometry_eq (safe : Safe table) {slots : Array (Slot α)}
    (size : slots.size = table.slotCount) (population : Nat) :
    setGeometry slots population = pure (ofSlots slots population) := by
  by_cases unallocated : slots.size = 0
  · rw [setGeometry, if_pos unallocated, ofSlots, if_pos unallocated]
  · obtain ⟨width, least, count⟩ :=
      (safe.valid.sound (by rwa [← size])).shaped.power
    refine Table.setGeometry_eq population (size.trans count) least ?_
    have counted := safe.counted
    rw [count] at counted
    exact (Nat.pow_lt_pow_iff_right (by decide)).mp counted

theorem Safe.close_eq (safe : Safe table) (taken : Nat) :
    Guarded.Drain.close (Drain.take taken table.drain).2 =
      pure (Drain.take taken table.drain).2.close := by
  have within : table.drain.Within table.slotCount := ⟨rfl, Nat.zero_le _⟩
  have after := within.take taken
  have size := after.size
  rw [Guarded.Drain.close, if_pos (after.index_le.trans_eq size.symm)]
  exact safe.setGeometry_eq (by simpa using size) 0

theorem Safe.drain_follows (safe : Safe table) (taken : Nat) :
    Follows Never Safe
      (do
        let (_, drain) ← Guarded.Drain.take taken table.drain
        Guarded.Drain.close drain)
      (.ok (Drain.take taken table.drain).2.close) := by
  have within : table.drain.Within table.slotCount := ⟨rfl, Nat.zero_le _⟩
  have passed := (drain_passed table).take taken
  rw [within.take_eq safe.counted, pure_bind]
  refine .of_eq (safe.close_eq taken) rfl ⟨passed.close_valid safe.valid, ?_⟩
  rw [passed.close_eq, slotCount, slots_ofSlots, Array.size_replicate]
  exact safe.counted

theorem Shaped.allowance_eq (shaped : Shaped table) (counted : table.slotCount < 2 ^ 64)
    (index : Nat) : Guarded.allowance table index = pure (table.allowance index) := by
  have least := shaped.sixteen_le
  have before : wrappingSub index 1 &&& table.mask = table.previous index :=
    shaped.wrappingSub_and_mask (by omega)
  have bound : table.previous index < table.slotCount := Nat.mod_lt _ shaped.allocated
  simp only [Guarded.allowance, before, fetch_slots bound, pure_bind, Table.allowance]
  cases table.slot (table.previous index) with
  | none => rfl
  | some cell =>
      have low := shaped.displacement_lt cell.hash (table.previous index)
      simp only [shaped.displacement_eq, pure_bind]
      exact add_of (by omega)

theorem Shaped.checkSlot_eq (shaped : Shaped table) (fits : table.slotCount < 2 ^ 64)
    {counted index : Nat} (few : counted + 1 < 2 ^ 64) (bound : index < table.slotCount) :
    checkSlot table counted index =
      match table.faultAt index with
      | some fault => fail fault
      | none => pure (counted + (table.slot index).toList.length) := by
  rw [checkSlot, fetch_slots bound, pure_bind, faultAt]
  cases held : table.slot index with
  | none => rfl
  | some cell =>
      simp only [add_of few, pure_bind, shaped.displacement_eq, shaped.allowance_eq fits]
      split
      · rfl
      · split <;> rfl

theorem Shaped.foldlM_checkSlot_eq (shaped : Shaped table) (fits : table.slotCount < 2 ^ 64)
    {count : Nat} (within : count ≤ table.slotCount) :
    (List.range count).foldlM (checkSlot table) 0 =
      match firstAnswer table.faultAt 0 count with
      | some fault => fail fault
      | none => pure ((List.range count).filterMap table.slot).length := by
  induction count with
  | zero => rfl
  | succ count ih =>
      have few := List.length_filterMap_le table.slot (List.range count)
      rw [List.length_range] at few
      rw [List.range_succ, List.foldlM_append, ih (by omega), firstAnswer_concat, Nat.zero_add]
      cases firstAnswer table.faultAt 0 count with
      | some fault => rfl
      | none =>
          rw [pure_bind, List.foldlM_cons, shaped.checkSlot_eq fits (by omega) (by omega)]
          cases table.faultAt count with
          | some fault => rfl
          | none =>
              simp only [Option.none_or, pure_bind, List.foldlM_nil, List.filterMap_append,
                List.length_append]
              cases held : table.slot count <;> simp [held]

/-- Any table is checked as on values, whatever its fields, if its shift is one for words. -/
theorem check_eq_ofExcept (fits : table.slotCount < 2 ^ 64)
    (short : table.slotCount ≠ 0 → table.shift < 64) :
    Guarded.check table = ofExcept table.check := by
  rw [Guarded.check, Table.check]
  by_cases unallocated : table.slotCount = 0
  · rw [if_pos unallocated, if_pos unallocated]
    split <;> rfl
  · simp only [if_neg unallocated, sub_of (Nat.one_le_iff_ne_zero.mpr unallocated),
      shiftRight_of (short unallocated), pure_bind]
    by_cases right : table.geometryFault = none
    · obtain ⟨shaped, roomy⟩ := geometryFault_eq_none_iff.mp right
      have top : (UInt64.size - 1) >>> table.shift = table.mask := shaped.shift
      rw [right, if_neg (power_iff.mpr shaped.power), if_neg (not_not.mpr shaped.mask),
        if_neg (not_not.mpr top), if_neg (not_not.mpr shaped.trigger),
        if_neg (Nat.not_lt.mpr roomy), shaped.foldlM_checkSlot_eq fits (Nat.le_refl _)]
      cases firstAnswer table.faultAt 0 table.slotCount with
      | some fault => rfl
      | none =>
          rw [← cells_eq, pure_bind]
          split <;> rfl
    · -- Both look at the parts of the geometry in the same order.
      rw [geometryFault] at right ⊢
      split
      · rfl
      split
      · rfl
      split
      · rfl
      split
      · rfl
      split
      · rfl
      simp_all

theorem Safe.check_follows (safe : Safe table) :
    Follows Never (fun _ => True) (Guarded.check table) table.check := by
  have passed : table.check = .ok () := check_iff_valid.mpr safe.valid
  refine .of_eq ?_ passed trivial
  have short (allocated : table.slotCount ≠ 0) := (safe.valid.sound allocated).shaped.shift_lt
  rw [check_eq_ofExcept safe.counted short, passed]
  rfl

end Table

end RobinHood
