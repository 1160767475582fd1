import RobinHood.Proofs.Offers

/-!
Walks from both ends. A walk is compared with the list of the values that it has still to give, from
which every call takes the first or the last; what a cursor has passed is not looked at again.
-/

namespace RobinHood

variable {α β ω τ ι : Type}

theorem stepAll_related (related : ω → τ → Prop) {step : ω → ι → β × ω} {other : τ → ι → β × τ}
    (once : ∀ {first second} (move : ι), related first second →
      (step first move).1 = (other second move).1 ∧
        related (step first move).2 (other second move).2)
    (moves : List ι) {first : ω} {second : τ} (holds : related first second) :
    (Guarded.stepAll (m := Id) step moves first).1 =
        (Guarded.stepAll (m := Id) other moves second).1 ∧
      related (Guarded.stepAll (m := Id) step moves first).2
        (Guarded.stepAll (m := Id) other moves second).2 := by
  induction moves generalizing first second with
  | nil => exact ⟨rfl, holds⟩
  | cons move rest ih =>
      obtain ⟨answer, after⟩ := once move holds
      obtain ⟨answers, last⟩ := ih after
      exact ⟨congrArg₂ List.cons answer answers, last⟩

theorem stepAll_ok (step : ω → ι → β × ω) (moves : List ι) (walk : ω) :
    Guarded.stepAll (fun walk move => (.ok (step walk move) : Except TableError (β × ω))) moves
        walk = .ok (Guarded.stepAll (m := Id) step moves walk) := by
  induction moves generalizing walk with
  | nil => rfl
  | cons move rest ih =>
      change (Guarded.stepAll (fun walk move => (.ok (step walk move) : Except TableError (β × ω)))
        rest (step walk move).2 >>= _) = _
      rw [ih]
      rfl

namespace Table

def Side.pop : Side → List α → Option α × List α
  | front, values => (values.head?, values.tail)
  | back, values => (values.getLast?, values.dropLast)

/-- The values given to the calls at one side. -/
def given (side : Side) (moves : List Side) (answers : List (Option α)) : List α :=
  (moves.zip answers).filterMap fun (asked, answer) => if asked = side then answer else none

/-- The answers to calls at both ends of a list, and the values that are left between them. -/
structure Meets (values : List α) (moves : List Side) (answers : List (Option α))
    (rest : List α) : Prop where
  answered : answers.length = moves.length
  parts : values = given .front moves answers ++ rest ++ (given .back moves answers).reverse
  ended : none ∈ answers → rest = []
  fused : answers.Pairwise fun earlier later => earlier = none → later = none

theorem Side.pop_order (side : Side) (value : α) (rest : List α) :
    side.pop (side.order (value :: rest)) = (some value, side.order rest) := by
  cases side with
  | front => rfl
  | back => simp [pop, order]

theorem Side.pop_nil (side : Side) : side.pop ([] : List α) = (none, []) := by
  cases side <;> rfl

theorem Side.eq_order (side : Side) (values : List α) :
    values = [] ∨ ∃ value rest, values = side.order (value :: rest) := by
  cases turned : side.order values with
  | nil =>
      refine Or.inl ?_
      rw [← side.order_order values, turned]
      cases side <;> rfl
  | cons value rest =>
      refine Or.inr ⟨value, rest, ?_⟩
      rw [← turned, side.order_order]

def pops (moves : List Side) (values : List α) : List (Option α) × List α :=
  Guarded.stepAll (m := Id) (fun values side => Side.pop side values) moves values

theorem pops_cons (side : Side) (moves : List Side) (values : List α) :
    pops (side :: moves) values =
      ((side.pop values).1 :: (pops moves (side.pop values).2).1,
        (pops moves (side.pop values).2).2) :=
  rfl

theorem pops_nil (moves : List Side) :
    pops moves ([] : List α) = (List.replicate moves.length none, []) := by
  induction moves with
  | nil => rfl
  | cons side rest ih =>
      rw [pops_cons, side.pop_nil, ih, List.length_cons, List.replicate_succ]

theorem given_none (side asked : Side) (moves : List Side) (answers : List (Option α)) :
    given side (asked :: moves) (none :: answers) = given side moves answers := by
  simp [given]

theorem given_some (side asked : Side) (moves : List Side) (value : α)
    (answers : List (Option α)) :
    given side (asked :: moves) (some value :: answers) =
      if asked = side then value :: given side moves answers else given side moves answers := by
  simp only [given, List.zip_cons_cons, List.filterMap_cons]
  split <;> simp_all

theorem given_replicate_none (side : Side) (moves : List Side) (count : Nat) :
    given side moves (List.replicate count (none : Option α)) = [] := by
  rw [given, List.filterMap_eq_nil_iff]
  rintro ⟨asked, answer⟩ member
  rw [List.eq_of_mem_replicate (List.of_mem_zip member).2]
  simp

theorem pops_meets (moves : List Side) (values : List α) :
    Meets values moves (pops moves values).1 (pops moves values).2 := by
  induction moves generalizing values with
  | nil => exact ⟨rfl, (List.append_nil _).symm, fun member => absurd member List.not_mem_nil,
      .nil⟩
  | cons side moves ih =>
      rcases side.eq_order values with rfl | ⟨value, rest, rfl⟩
      · rw [pops_nil]
        refine ⟨List.length_replicate, ?_, fun _ => rfl, ?_⟩
        · rw [given_replicate_none, given_replicate_none]
          rfl
        · exact List.pairwise_replicate.mpr (Or.inr id)
      · have later := ih (side.order rest)
        rw [pops_cons, side.pop_order]
        constructor
        case answered => exact congrArg (· + 1) later.answered
        case parts =>
          rw [given_some, given_some]
          have parts := later.parts
          cases side with
          | front =>
              change value :: rest = value :: _ ++ _ ++ _
              exact congrArg (value :: ·) parts
          | back =>
              change (value :: rest).reverse = _
              rw [List.reverse_cons]
              change rest.reverse = _ at parts
              rw [parts]
              simp
        case ended =>
          intro member
          refine later.ended ?_
          simpa using member
        case fused => exact List.pairwise_cons.mpr ⟨by simp, later.fused⟩

section Cursors

variable {slots changed : Array (Slot α)} {cursor : Cursor} {values : List α}

theorem Cursor.Leaves.congr (leaves : cursor.Leaves slots values)
    (same : ∀ index, cursor.front ≤ index → index < cursor.back →
      valueIn changed index = valueIn slots index) : cursor.Leaves changed values :=
  ⟨(valuesBetween_congr same).trans leaves.between, leaves.remaining⟩

theorem Cursor.Leaves.step_cases (leaves : cursor.Leaves slots values) (side : Side) :
    values = [] ∧ cursor.step slots side = (none, cursor) ∨
      ∃ value rest index, values = side.order (value :: rest) ∧
        cursor.step slots side = (some index, cursor.past index side) ∧
          cursor.front ≤ index ∧ index < cursor.back ∧ valueIn slots index = some value ∧
            (cursor.past index side).Leaves slots (side.order rest) := by
  rcases side.eq_order values with rfl | ⟨value, rest, rfl⟩
  · exact Or.inl ⟨rfl, step_of_last slots side leaves.remaining⟩
  · obtain ⟨index, after, stepped, held, later⟩ := leaves.step_spec side
    obtain ⟨_, lower, upper, rfl⟩ := step_found stepped
    exact Or.inr ⟨value, rest, index, rfl, stepped, lower, upper, held, later⟩

end Cursors

def Walk.toCome (walk : Walk α) : List α :=
  (walk.rest .front).1

/-- A walk whose cursor counts just the values that are still to come. -/
def Walk.Exact (walk : Walk α) : Prop :=
  walk.cursor.Leaves walk.slots walk.toCome

theorem Walk.Exact.of_leaves {walk : Walk α} {values : List α}
    (leaves : walk.cursor.Leaves walk.slots values) : walk.Exact ∧ walk.toCome = values := by
  have same : walk.toCome = values := Walk.rest_eq leaves .front
  exact ⟨by rwa [Walk.Exact, same], same⟩

theorem Walk.Exact.step {walk : Walk α} (precise : walk.Exact) (side : Side) :
    (walk.step side).1 = (side.pop walk.toCome).1 ∧ (walk.step side).2.Exact ∧
      (walk.step side).2.toCome = (side.pop walk.toCome).2 := by
  rcases Cursor.Leaves.step_cases precise side with
    ⟨nothing, stepped⟩ | ⟨value, rest, index, same, stepped, _, _, held, later⟩
  · have step : walk.step side = (none, walk) := by rw [Walk.step, stepped]
    rw [step, nothing, side.pop_nil]
    exact ⟨rfl, precise, rfl⟩
  · have step : walk.step side =
        (some value, { walk with cursor := walk.cursor.past index side }) := by
      rw [Walk.step, stepped]
      simp only [held]
    rw [step, same, side.pop_order]
    exact ⟨rfl, Walk.Exact.of_leaves later⟩

def reads (table : Table α) (moves : List Side) : List (Option α) × Walk α :=
  Guarded.stepAll (m := Id) Walk.step moves table.walk

def takes (table : Table α) (moves : List Side) : List (Option α) × TakingWalk α :=
  Guarded.stepAll (m := Id) TakingWalk.step moves table.takingWalk

def ChangingWalk.stepAll (moves : List (Side × (α → α))) (walk : ChangingWalk α) :
    List (Option α) × ChangingWalk α :=
  Guarded.stepAll (m := Id) (fun walk move => walk.step move.1 move.2) moves walk

def changes (table : Table α) (moves : List (Side × (α → α))) :
    List (Option α) × ChangingWalk α :=
  ChangingWalk.stepAll moves table.changingWalk

variable {table : Table α}

theorem Valid.walk_exact (valid : Valid table) :
    table.walk.Exact ∧ table.walk.toCome = table.toList :=
  Walk.Exact.of_leaves valid.cursor_leaves

theorem Valid.reads_pops (valid : Valid table) (moves : List Side) :
    (table.reads moves).1 = (pops moves table.toList).1 ∧ (table.reads moves).2.Exact ∧
      (table.reads moves).2.toCome = (pops moves table.toList).2 := by
  refine stepAll_related (fun (walk : Walk α) values => walk.Exact ∧ walk.toCome = values) ?_ moves
    valid.walk_exact
  rintro walk values side ⟨precise, rfl⟩
  exact precise.step side

theorem Valid.takes_pops (valid : Valid table) (moves : List Side) :
    (table.takes moves).1 = (pops moves table.toList).1 ∧
      (table.takes moves).2.cursor.Leaves (table.takes moves).2.slots
        (pops moves table.toList).2 := by
  refine stepAll_related
    (fun (walk : TakingWalk α) values => walk.cursor.Leaves walk.slots values) ?_ moves
    valid.cursor_leaves
  intro walk values side leaves
  rcases leaves.step_cases side with
    ⟨rfl, stepped⟩ | ⟨value, rest, index, rfl, stepped, lower, upper, held, later⟩
  · have step : walk.step side = (none, walk) := by rw [TakingWalk.step, stepped]
    rw [step, side.pop_nil]
    exact ⟨rfl, leaves⟩
  · have step : walk.step side =
        (some value, ⟨walk.slots.setIfInBounds index none, walk.cursor.past index side⟩) := by
      rw [TakingWalk.step, stepped]
      simp only [held]
    rw [step, side.pop_order]
    refine ⟨rfl, later.congr ?_⟩
    intro position from_ below
    have passed : index ≠ position := by
      cases side <;> simp only [Cursor.past] at from_ below <;> omega
    exact valueIn_setIfInBounds_of_ne passed none

inductive CopyCall where
  | step (position : Nat) (side : Side)
  | clone (position : Nat)

def callCopy (step : ω → Side → Option α × ω) (copies : List ω) :
    CopyCall → Option α × List ω
  | .step position side =>
      match copies[position]? with
      | none => (none, copies)
      | some walk => ((step walk side).1, copies.set position (step walk side).2)
  | .clone position => (none, copies ++ copies[position]?.toList)

def StandFor (walks : List (Walk α)) (lists : List (List α)) : Prop :=
  (∀ walk ∈ walks, walk.Exact) ∧ walks.map Walk.toCome = lists

theorem StandFor.call {walks : List (Walk α)} {lists : List (List α)} (stand : StandFor walks lists)
    (call : CopyCall) :
    (callCopy Walk.step walks call).1 =
        (callCopy (fun values side => Side.pop side values) lists call).1 ∧
      StandFor (callCopy Walk.step walks call).2
        (callCopy (fun values side => Side.pop side values) lists call).2 := by
  obtain ⟨precise, rfl⟩ := stand
  cases call with
  | step position side =>
      simp only [callCopy, List.getElem?_map]
      cases held : walks[position]? with
      | none => exact ⟨rfl, precise, rfl⟩
      | some walk =>
          obtain ⟨answer, still, left⟩ := (precise walk (List.mem_of_getElem? held)).step side
          refine ⟨answer, ?_, ?_⟩
          · intro member present
            rcases List.mem_or_eq_of_mem_set present with old | new
            · exact precise member old
            · rwa [new]
          · rw [List.map_set, left]
            rfl
  | clone position =>
      refine ⟨rfl, ?_, ?_⟩
      · intro member present
        rcases List.mem_append.mp present with old | copy
        · exact precise member old
        · exact precise member (List.mem_of_getElem? (Option.mem_toList.mp copy))
      · simp only [callCopy, List.getElem?_map]
        rw [List.map_append]
        cases walks[position]? <;> rfl

/-- A table that differs at most in the values of its slots. -/
structure SameButValues (table other : Table α) : Prop where
  shape : SameShape table other
  population : other.population = table.population
  hashes (index : Nat) : (other.slot index).map Cell.hash = (table.slot index).map Cell.hash

theorem SameButValues.refl (table : Table α) : SameButValues table table :=
  ⟨.refl table, rfl, fun _ => rfl⟩

theorem SameButValues.trans {first second third : Table α} (same : SameButValues first second)
    (next : SameButValues second third) : SameButValues first third :=
  ⟨same.shape.trans next.shape, next.population.trans same.population,
    fun index => (next.hashes index).trans (same.hashes index)⟩

theorem slot_modifyAt (table : Table α) (index : Nat) (change : α → α) (position : Nat) :
    (table.modifyAt index change).slot position =
      if index = position then (table.slot position).map fun cell =>
        { cell with value := change cell.value }
      else table.slot position := by
  simp only [slot, modifyAt, Array.getD_eq_getD_getElem?, Array.getElem?_modify]
  split
  · cases table.slots[position]? with
    | none => rfl
    | some held => cases held <;> rfl
  · rfl

theorem sameButValues_modifyAt (table : Table α) (index : Nat) (change : α → α) :
    SameButValues table (table.modifyAt index change) := by
  refine ⟨modifyAt_sameShape table index change, rfl, ?_⟩
  intro position
  rw [slot_modifyAt]
  split
  · rw [Option.map_map]
    rfl
  · rfl

structure Cursor.Parts (cursor : Cursor) (slots : Array (Slot α)) (front rest back : List α) :
    Prop where
  ordered : cursor.front ≤ cursor.back
  within : cursor.back ≤ slots.size
  front : valuesBetween slots 0 cursor.front = front
  leaves : cursor.Leaves slots rest
  back : valuesBetween slots cursor.back slots.size = back

theorem Cursor.Parts.all {cursor : Cursor} {slots : Array (Slot α)} {front rest back : List α}
    (parts : cursor.Parts slots front rest back) :
    valuesBetween slots 0 slots.size = front ++ rest ++ back := by
  rw [valuesBetween_split slots (Nat.zero_le cursor.front) (parts.ordered.trans parts.within),
    valuesBetween_split slots parts.ordered parts.within, parts.front, parts.leaves.between,
    parts.back, List.append_assoc]

theorem given_cons (side asked : Side) (moves : List Side) (answer : Option α)
    (answers : List (Option α)) :
    given side (asked :: moves) (answer :: answers) =
      given side [asked] [answer] ++ given side moves answers := by
  simp only [given, List.zip_cons_cons, List.filterMap_cons, List.zip_nil_left,
    List.filterMap_nil]
  split <;> rfl

theorem Cursor.Parts.past {cursor : Cursor} {slots changed : Array (Slot α)}
    {front rest back : List α} {value found : α} {index : Nat} {side : Side}
    (parts : cursor.Parts slots front (side.order (found :: rest)) back)
    (lower : cursor.front ≤ index) (upper : index < cursor.back)
    (there : valueIn slots index = some found)
    (later : (cursor.past index side).Leaves slots (side.order rest))
    (size : changed.size = slots.size) (held : valueIn changed index = some value)
    (others : ∀ position, index ≠ position → valueIn changed position = valueIn slots position) :
    (cursor.past index side).Parts changed (front ++ given .front [side] [some value])
      (side.order rest) ((given .back [side] [some value]).reverse ++ back) := by
  have ordered := parts.ordered
  have within := parts.within
  have outside {first last : Nat} (apart : last ≤ index ∨ index < first) :
      valuesBetween changed first last = valuesBetween slots first last :=
    valuesBetween_congr fun position _ _ => others position (by omega)
  have here : valuesBetween changed index (index + 1) = [value] := by
    rw [valuesBetween_single, held]
    rfl
  have split := valuesBetween_split slots lower upper.le
  rw [valuesBetween_split slots (Nat.le_succ index) upper, parts.leaves.between,
    valuesBetween_single, there] at split
  have left := later.between
  cases side with
  | front =>
      -- The slots before the one that was found are free.
      have skipped : valuesBetween slots cursor.front index = [] := by
        have lengths := congrArg List.length split
        change valuesBetween slots (index + 1) cursor.back = rest at left
        rw [left] at lengths
        simpa [Side.order] using lengths
      refine ⟨upper, size ▸ within, ?_, later.congr ?_, ?_⟩
      · change valuesBetween changed 0 (index + 1) = front ++ [value]
        rw [valuesBetween_split changed (Nat.zero_le index) (Nat.le_succ index), here,
          valuesBetween_split changed (Nat.zero_le cursor.front) lower, outside (Or.inl lower),
          outside (Or.inl (Nat.le_refl index)), skipped, parts.front, List.append_nil]
      · intro position from_ _
        exact others position (Nat.ne_of_lt from_)
      · rw [size, ← parts.back]
        exact outside (Or.inr upper)
  | back =>
      have skipped : valuesBetween slots (index + 1) cursor.back = [] := by
        have lengths := congrArg List.length split
        change valuesBetween slots cursor.front index = rest.reverse at left
        rw [left] at lengths
        simpa [Side.order] using lengths
      refine ⟨lower, ?_, ?_, later.congr ?_, ?_⟩
      · rw [size]
        exact upper.le.trans within
      · change valuesBetween changed 0 cursor.front = front ++ []
        rw [outside (Or.inl lower), parts.front, List.append_nil]
      · intro position _ below
        exact others position (Nat.ne_of_gt below)
      · change valuesBetween changed index changed.size = value :: back
        rw [size, valuesBetween_split changed (Nat.le_succ index) (Nat.le_trans upper within), here,
          valuesBetween_split changed upper within, outside (Or.inr (Nat.lt_succ_self index)),
          outside (Or.inr upper), skipped, parts.back]
        rfl

theorem ChangingWalk.step_parts {walk : ChangingWalk α} {front rest back : List α}
    (parts : walk.cursor.Parts walk.table.slots front rest back) (side : Side) (change : α → α) :
    (walk.step side change).1 = (side.pop rest).1.map change ∧
      SameButValues walk.table (walk.step side change).2.table ∧
      (walk.step side change).2.cursor.Parts (walk.step side change).2.table.slots
        (front ++ given .front [side] [(walk.step side change).1]) (side.pop rest).2
        ((given .back [side] [(walk.step side change).1]).reverse ++ back) := by
  rcases parts.leaves.step_cases side with
    ⟨rfl, stepped⟩ | ⟨value, rest, index, rfl, stepped, lower, upper, held, later⟩
  · have step : walk.step side change = (none, walk) := by rw [ChangingWalk.step, stepped]
    rw [step, side.pop_nil, given_none, given_none]
    refine ⟨rfl, .refl walk.table, ?_⟩
    simpa [given] using parts
  · have changed (position : Nat) :
        valueIn (walk.table.modifyAt index change).slots position =
          if index = position then (valueIn walk.table.slots position).map change
          else valueIn walk.table.slots position := by
      have slot := congrArg (Option.map Cell.value)
        (slot_modifyAt walk.table index change position)
      refine slot.trans ?_
      split
      · rw [Option.map_map, valueIn, Option.map_map]
        rfl
      · rfl
    have found : valueIn (walk.table.modifyAt index change).slots index = some (change value) := by
      rw [changed, if_pos rfl, held]
      rfl
    have step : walk.step side change =
        (some (change value), ⟨walk.table.modifyAt index change, walk.cursor.past index side⟩) := by
      rw [ChangingWalk.step, stepped]
      simp only [found]
    rw [step, side.pop_order]
    refine ⟨rfl, sameButValues_modifyAt walk.table index change, ?_⟩
    refine parts.past lower upper held later Array.size_modify found ?_
    intro position elsewhere
    rw [changed, if_neg elsewhere]

theorem ChangingWalk.stepAll_cons (walk : ChangingWalk α) (move : Side × (α → α))
    (moves : List (Side × (α → α))) :
    ChangingWalk.stepAll (move :: moves) walk =
      ((walk.step move.1 move.2).1 ::
          (ChangingWalk.stepAll moves (walk.step move.1 move.2).2).1,
        (ChangingWalk.stepAll moves (walk.step move.1 move.2).2).2) :=
  rfl

theorem ChangingWalk.stepAll_parts (moves : List (Side × (α → α))) {walk : ChangingWalk α}
    {front rest back : List α} (parts : walk.cursor.Parts walk.table.slots front rest back) :
    (stepAll moves walk).1 =
        List.zipWith (fun move answer => answer.map move.2) moves
          (pops (moves.map Prod.fst) rest).1 ∧
      SameButValues walk.table (stepAll moves walk).2.table ∧
      (stepAll moves walk).2.cursor.Parts (stepAll moves walk).2.table.slots
        (front ++ given .front (moves.map Prod.fst) (stepAll moves walk).1)
        (pops (moves.map Prod.fst) rest).2
        ((given .back (moves.map Prod.fst) (stepAll moves walk).1).reverse ++ back) := by
  induction moves generalizing walk front rest back with
  | nil =>
      refine ⟨rfl, .refl walk.table, ?_⟩
      change walk.cursor.Parts walk.table.slots (front ++ []) rest ([] ++ back)
      rwa [List.append_nil]
  | cons move moves ih =>
      obtain ⟨answer, same, after⟩ := step_parts parts move.1 move.2
      obtain ⟨answers, sameAfter, last⟩ := ih after
      rw [stepAll_cons, List.map_cons, pops_cons, given_cons .front, given_cons .back,
        List.reverse_append, ← List.append_assoc, List.append_assoc _ _ back]
      exact ⟨congrArg₂ List.cons answer answers, same.trans sameAfter, last⟩

/-- Calls at both ends of a table in any order: what a walk gives, what it announces, and what a
walk that changes values leaves. -/
structure WalksBothEnds (table : Table α) : Prop where
  slots : table.toList = (List.range table.slotCount).filterMap fun index =>
    (table.slot index).map Cell.value
  read (moves : List Side) :
    Meets table.toList moves (table.reads moves).1 (table.reads moves).2.toCome
  hint (moves : List Side) : (table.reads moves).2.cursor.sizeHint =
    ((table.reads moves).2.toCome.length, some (table.reads moves).2.toCome.length)
  copies (calls : List CopyCall) :
    let (answers, walks) := Guarded.stepAll (m := Id) (callCopy Walk.step) calls [table.walk]
    let (listAnswers, lists) := Guarded.stepAll (m := Id)
      (callCopy fun values side => Side.pop side values) calls [table.toList]
    answers = listAnswers ∧ StandFor walks lists
  taken (moves : List Side) : (table.takes moves).1 = (table.reads moves).1 ∧
    (table.takes moves).2.cursor.sizeHint = (table.reads moves).2.cursor.sizeHint
  changed (moves : List (Side × (α → α))) :
    let sides := moves.map Prod.fst
    let (answers, walk) := table.changes moves
    answers = List.zipWith (fun move answer => answer.map move.2) moves (table.reads sides).1 ∧
      walk.cursor.sizeHint = (table.reads sides).2.cursor.sizeHint ∧
      walk.table.toList = given .front sides answers ++ (table.reads sides).2.toCome ++
        (given .back sides answers).reverse ∧
      SameButValues table walk.table
  stepwise (moves : List Side) :
    Guarded.stepAll Guarded.Walk.step moves table.walk = pure (table.reads moves) ∧
      Guarded.stepAll Guarded.TakingWalk.step moves table.takingWalk = pure (table.takes moves)
  changedStepwise (moves : List (Side × (α → α))) :
    Guarded.stepAll (fun walk move => Guarded.ChangingWalk.step walk move.1 move.2) moves
      table.changingWalk = pure (table.changes moves)

theorem Cursor.Leaves.sizeHint_eq {cursor : Cursor} {slots : Array (Slot α)} {values : List α}
    (leaves : cursor.Leaves slots values) :
    cursor.sizeHint = (values.length, some values.length) := by
  rw [sizeHint, leaves.remaining]

/-- Walks over a table that callers can hold give every value once, wherever the ends meet. -/
theorem reachable_walksBothEnds (reachable : Reachable table) : WalksBothEnds table := by
  have valid := reachable.valid
  have safe := reachable.safe
  constructor
  case slots => rw [toList, cells_eq, List.map_filterMap]
  case read =>
    intro moves
    obtain ⟨answers, _, left⟩ := valid.reads_pops moves
    rw [answers, left]
    exact pops_meets moves table.toList
  case hint =>
    intro moves
    exact Cursor.Leaves.sizeHint_eq (valid.reads_pops moves).2.1
  case copies =>
    intro calls
    refine stepAll_related StandFor (fun call stand => stand.call call) calls ?_
    obtain ⟨precise, same⟩ := valid.walk_exact
    refine ⟨?_, congrArg (fun values => [values]) same⟩
    intro walk member
    rwa [List.mem_singleton.mp member]
  case taken =>
    intro moves
    obtain ⟨answers, precise, left⟩ := valid.reads_pops moves
    obtain ⟨taken, leaves⟩ := valid.takes_pops moves
    rw [Walk.Exact, left] at precise
    exact ⟨taken.trans answers.symm, leaves.sizeHint_eq.trans precise.sizeHint_eq.symm⟩
  case changed =>
    intro moves
    obtain ⟨answers, precise, left⟩ := valid.reads_pops (moves.map Prod.fst)
    have parts : table.changingWalk.cursor.Parts table.changingWalk.table.slots []
        table.toList [] := by
      refine ⟨Nat.zero_le _, Nat.le_refl _, rfl, valid.cursor_leaves, ?_⟩
      exact valuesBetween_of_ge _ (Nat.le_refl _)
    obtain ⟨changed, same, last⟩ := ChangingWalk.stepAll_parts moves parts
    rw [Walk.Exact, left] at precise
    refine ⟨?_, last.leaves.sizeHint_eq.trans precise.sizeHint_eq.symm, ?_, same⟩
    · rw [answers]
      exact changed
    · have all := last.all
      rw [List.append_nil] at all
      rw [left]
      exact (valuesBetween_slots _).symm.trans all
  case stepwise =>
    intro moves
    have reading := (stepAll_follows (fun walk : Walk α => OddSlots walk.slots)
      (fun _ move odd => Walk.step_follows odd move) moves
      (show OddSlots table.walk.slots from safe.oddSlots)).eq_of_ok (stepAll_ok _ moves _)
    have taking := (stepAll_follows (fun walk : TakingWalk α => OddSlots walk.slots)
      (fun _ move odd => TakingWalk.step_follows odd move) moves
      (show OddSlots table.takingWalk.slots from safe.oddSlots)).eq_of_ok (stepAll_ok _ moves _)
    exact ⟨reading.1, taking.1⟩
  case changedStepwise =>
    intro moves
    exact ((stepAll_follows (fun walk : ChangingWalk α => Safe walk.table)
      (fun _ move safe => ChangingWalk.step_follows safe move.1 move.2) moves
      (show Safe table.changingWalk.table from safe)).eq_of_ok (stepAll_ok _ moves _)).1

theorem walksBothEnds_overTheEnd :
    ∃ table : Table Nat, runAll overTheEnd [] = .ok [table] ∧ table.toList = [20, 30, 40, 10] ∧
      (table.reads [.back, .front, .back, .front, .front]).1 =
        [some 10, some 20, some 40, some 30, none] ∧
      (table.changes [(.back, (· + 1)), (.front, (· * 2))]).2.table.toList = [40, 30, 40, 11] ∧
        WalksBothEnds table := by
  obtain ⟨table, made, values, answers, left⟩ : ∃ table : Table Nat,
      runAll overTheEnd [] = .ok [table] ∧ table.toList = [20, 30, 40, 10] ∧
        (table.reads [.back, .front, .back, .front, .front]).1 =
          [some 10, some 20, some 40, some 30, none] ∧
        (table.changes [(.back, (· + 1)), (.front, (· * 2))]).2.table.toList = [40, 30, 40, 11] :=
    ⟨_, rfl, by decide +kernel⟩
  exact ⟨table, made, values, answers, left,
    reachable_walksBothEnds ⟨overTheEnd, _, made, List.mem_singleton_self _⟩⟩

end Table

end RobinHood
