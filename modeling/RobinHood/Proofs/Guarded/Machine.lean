import RobinHood.Proofs.Growing

/-!
Runs that can go wrong. Arithmetic is on words, every use of a slot is checked, assertions are
checked, and a loop is bounded by nothing: a run may panic or go on for ever. What follows a call
on values does neither.
-/

namespace RobinHood

variable {α β γ σ : Type}

inductive Panic where
  | overflow
  /-- A word was to be shifted by its whole width or more. -/
  | shift
  | outside (index : Nat)
  | range (first last : Nat)
  | assertion
  | unreachable
deriving DecidableEq

inductive Halt where
  | error (error : TableError)
  | panic (reason : Panic)
deriving DecidableEq

/-- A run of checked steps, which gives nothing if it never ends. -/
abbrev Guarded (β : Type) := ExceptT Halt Option β

namespace Guarded

def stop (reason : Panic) : Guarded β :=
  throw (.panic reason)

def fail (error : TableError) : Guarded β :=
  throw (.error error)

def ensure (claim : Prop) [Decidable claim] : Guarded Unit :=
  if claim then pure () else stop .assertion

def add (first second : Nat) : Guarded Nat :=
  if first + second < UInt64.size then pure (first + second) else stop .overflow

def sub (first second : Nat) : Guarded Nat :=
  if second ≤ first then pure (first - second) else stop .overflow

def wrappingSub (first second : Nat) : Nat :=
  (first + UInt64.size - second) % UInt64.size

def shiftRight (word amount : Nat) : Guarded Nat :=
  if amount < 64 then pure (word >>> amount) else stop .shift

def ofExcept : Except TableError β → Guarded β
  | .ok answer => pure answer
  | .error error => fail error

def fetch (slots : Array (Slot α)) (index : Nat) : Guarded (Slot α) :=
  if _ : index < slots.size then pure slots[index] else stop (.outside index)

def store (slots : Array (Slot α)) (index : Nat) (content : Slot α) :
    Guarded (Array (Slot α)) :=
  if _ : index < slots.size then pure (slots.set index content) else stop (.outside index)

def swap (slots : Array (Slot α)) (first second : Nat) : Guarded (Array (Slot α)) :=
  if _ : first < slots.size then
    if _ : second < slots.size then pure (slots.swap first second) else stop (.outside second)
  else stop (.outside first)

/-- The slots from `first` up to `last` one to the right; the last of them comes first. -/
def rotateRight (slots : Array (Slot α)) (first last : Nat) : Guarded (Array (Slot α)) :=
  if first < last ∧ last ≤ slots.size then
    pure (slots.mapIdx fun index slot =>
      if index = first then slots.getD (last - 1) none
      else if first < index ∧ index < last then slots.getD (index - 1) none
      else slot)
  else stop (.range first last)

/-- The slots from `first` up to `last` one to the left; the first of them comes last. -/
def rotateLeft (slots : Array (Slot α)) (first last : Nat) : Guarded (Array (Slot α)) :=
  if first < last ∧ last ≤ slots.size then
    pure (slots.mapIdx fun index slot =>
      if index + 1 = last then slots.getD first none
      else if first ≤ index ∧ index < last then slots.getD (index + 1) none
      else slot)
  else stop (.range first last)

inductive Turn (σ β : Type) where
  | again (state : σ)
  | done (answer : β)

def Turn.then (rest : σ → Guarded β) : Turn σ β → Guarded β
  | again state => rest state
  | done answer => pure answer

def turns (body : σ → Guarded (Turn σ β)) : (count : Nat) → σ → Guarded β
  | 0, _ => ExceptT.mk none
  | count + 1, state => body state >>= Turn.then (turns body count)

open Classical in
/-- A loop without a bound gives nothing only if no number of turns is enough. -/
noncomputable def loop (body : σ → Guarded (Turn σ β)) (state : σ) : Guarded β :=
  if ends : ∃ count, (turns body count state).run ≠ none then turns body ends.choose state
  else ExceptT.mk none

/-- A slot is told to be free by its hash, which is zero only there. -/
def readsFree (slot : Slot α) : Bool :=
  slot.elim 0 Cell.hash == 0

section Loops

variable {body : σ → Guarded (Turn σ β)} {state : σ}

theorem turns_succ {count : Nat} (ended : (turns body count state).run ≠ none) :
    turns body (count + 1) state = turns body count state := by
  induction count generalizing state with
  | zero => exact absurd rfl ended
  | succ count ih =>
      rw [turns] at ended ⊢
      rw [turns]
      generalize body state = turn at ended ⊢
      rcases turn with - | halt | turn
      · rfl
      · rfl
      · cases turn with
        | again state => exact ih ended
        | done answer => rfl

theorem turns_of_le {count more : Nat} (ended : (turns body count state).run ≠ none)
    (le : count ≤ more) : turns body more state = turns body count state := by
  induction more, le using Nat.le_induction with
  | base => rfl
  | succ more _ ih => rw [turns_succ (by rwa [ih]), ih]

theorem loop_of_turns {count : Nat} (ended : (turns body count state).run ≠ none) :
    loop body state = turns body count state := by
  have ends : ∃ count, (turns body count state).run ≠ none := ⟨count, ended⟩
  rw [loop, dif_pos ends]
  rcases Nat.le_total count ends.choose with le | le
  · exact turns_of_le ended le
  · exact (turns_of_le ends.choose_spec le).symm

theorem loop_of_endless (endless : ∀ count, (turns body (count + 1) state).run = none) :
    loop body state = ExceptT.mk none := by
  refine dif_neg ?_
  rintro ⟨count, ended⟩
  cases count with
  | zero => exact ended rfl
  | succ count => exact ended (endless count)

theorem loop_of_again {next : σ} (turn : body state = pure (.again next)) :
    loop body state = loop body next := by
  have later (count : Nat) : turns body (count + 1) state = turns body count next := by
    rw [turns, turn]
    rfl
  by_cases ends : ∃ count, (turns body count next).run ≠ none
  · obtain ⟨count, ended⟩ := ends
    rw [loop_of_turns ended, ← later]
    exact loop_of_turns (by rwa [later])
  · have endless : ∀ count, (turns body count next).run = none := by simpa using ends
    rw [loop_of_endless fun count => by rw [later, endless], loop_of_endless fun count => endless _]

theorem loop_eq (body : σ → Guarded (Turn σ β)) (state : σ) :
    loop body state = body state >>= Turn.then (loop body) := by
  have first (count : Nat) : turns body (count + 1) state =
      body state >>= Turn.then (turns body count) := rfl
  -- A turn that does not lead to another one is all that is run of the loop.
  have only {outcome : Except Halt β} (ended : (turns body 1 state).run = some outcome) :
      loop body state = turns body 1 state :=
    loop_of_turns (by rw [ended]; exact Option.some_ne_none outcome)
  rcases turn : body state with - | halt | ⟨next⟩ | answer
  · refine loop_of_endless ?_
    intro count
    rw [first, turn]
    rfl
  · rw [first, turn] at only
    exact only rfl
  · exact loop_of_again turn
  · rw [first, turn] at only
    exact only rfl

@[simp] theorem pure_again_then (rest : σ → Guarded β) (state : σ) :
    (pure (.again state) >>= Turn.then rest) = rest state :=
  rfl

@[simp] theorem pure_done_then (rest : σ → Guarded β) (answer : β) :
    (pure (.done answer) >>= Turn.then rest) = pure answer :=
  rfl

theorem ite_bind (condition : Prop) [Decidable condition] (yes no : Guarded β)
    (next : β → Guarded γ) :
    ((if condition then yes else no) >>= next) =
      if condition then yes >>= next else no >>= next := by
  split <;> rfl

end Loops

theorem ensure_of {claim : Prop} [Decidable claim] (holds : claim) : ensure claim = pure () :=
  if_pos holds

theorem add_of {first second : Nat} (fits : first + second < 2 ^ 64) :
    add first second = pure (first + second) :=
  if_pos fits

theorem sub_of {first second : Nat} (fits : second ≤ first) :
    sub first second = pure (first - second) :=
  if_pos fits

theorem shiftRight_of {word amount : Nat} (fits : amount < 64) :
    shiftRight word amount = pure (word >>> amount) :=
  if_pos fits

theorem fetch_of_lt {slots : Array (Slot α)} {index : Nat} (inside : index < slots.size) :
    fetch slots index = pure (slots.getD index none) := by
  rw [fetch, dif_pos inside, Array.getD, dif_pos inside]
  rfl

theorem store_of_lt {slots : Array (Slot α)} {index : Nat} (content : Slot α)
    (inside : index < slots.size) :
    store slots index content = pure (slots.setIfInBounds index content) := by
  rw [store, dif_pos inside, Array.setIfInBounds, dif_pos inside]

theorem readsFree_of_odd {cell : Cell α} (odd : cell.hash % 2 = 1) :
    readsFree (some cell) = false := by
  have positive : cell.hash ≠ 0 := by
    intro zero
    rw [zero] at odd
    simp at odd
  simpa [readsFree] using positive

theorem readsFree_none : readsFree (none : Slot α) = true :=
  rfl

/-- A run that ends without a panic, and as a call on values does: with a good answer, or with one
of the errors. -/
inductive Follows (errors : TableError → Prop) (good : β → Prop) :
    Guarded β → Except TableError β → Prop
  | answer {answer : β} (holds : good answer) : Follows errors good (pure answer) (.ok answer)
  | error {error : TableError} (known : errors error) :
      Follows errors good (fail error) (.error error)

def Never : TableError → Prop :=
  fun _ => False

namespace Follows

variable {errors : TableError → Prop} {good : β → Prop} {guarded : Guarded β}
  {plain : Except TableError β}

theorem of_eq {answer : β} (ran : guarded = pure answer) (done : plain = .ok answer)
    (holds : good answer) : Follows errors good guarded plain := by
  rw [ran, done]
  exact .answer holds

theorem of_error {error : TableError} (ran : guarded = fail error) (failed : plain = .error error)
    (known : errors error) : Follows errors good guarded plain := by
  rw [ran, failed]
  exact .error known

theorem bind {next : β → Guarded γ} {plainNext : β → Except TableError γ} {last : γ → Prop}
    (follows : Follows errors good guarded plain)
    (rest : ∀ answer, good answer → Follows errors last (next answer) (plainNext answer)) :
    Follows errors last (guarded >>= next) (plain >>= plainNext) := by
  cases follows with
  | answer holds =>
      rw [pure_bind]
      exact rest _ holds
  | error known => exact .error known

theorem map {change : β → γ} {last : γ → Prop} (follows : Follows errors good guarded plain)
    (rest : ∀ answer, good answer → last (change answer)) :
    Follows errors last (do return change (← guarded)) (plain.map change) := by
  cases follows with
  | answer holds => exact .answer (rest _ holds)
  | error known => exact .error known

theorem of_ok {better : β → Prop} (follows : Follows errors good guarded plain)
    (holds : ∀ answer, plain = .ok answer → better answer) :
    Follows errors better guarded plain := by
  cases follows with
  | answer => exact .answer (holds _ rfl)
  | error known => exact .error known

theorem imp {more : TableError → Prop} {better : β → Prop}
    (follows : Follows errors good guarded plain) (known : ∀ error, errors error → more error)
    (holds : ∀ answer, good answer → better answer) : Follows more better guarded plain := by
  cases follows with
  | answer given => exact .answer (holds _ given)
  | error given => exact .error (known _ given)

theorem never (follows : Follows Never good guarded plain) : Follows errors good guarded plain :=
  follows.imp (fun _ impossible => impossible.elim) fun _ holds => holds

theorem asked {asks : Prop} (follows : Follows errors good guarded plain) (holds : asks) :
    Follows (fun error => asks ∧ errors error) good guarded plain :=
  follows.imp (fun _ known => ⟨holds, known⟩) fun _ holds => holds

theorem eq_of_ok {answer : β} (follows : Follows errors good guarded plain)
    (done : plain = .ok answer) : guarded = pure answer ∧ good answer := by
  cases follows with
  | answer holds =>
      obtain rfl := Except.ok.inj done
      exact ⟨rfl, holds⟩
  | error known => simp at done

theorem foldlM {call : β → γ → Guarded β} {plain : β → γ → Except TableError β}
    (each : ∀ state item, good state → Follows errors good (call state item) (plain state item))
    (items : List γ) {start : β} (holds : good start) :
    Follows errors good (items.foldlM call start) (items.foldlM plain start) := by
  induction items generalizing start with
  | nil => exact .answer holds
  | cons item rest ih =>
      rw [List.foldlM_cons, List.foldlM_cons]
      exact (each start item holds).bind fun _ reached => ih reached

theorem allM {test : γ → Guarded Bool} {plain : γ → Except TableError Bool}
    (each : ∀ item, Follows errors (fun _ => True) (test item) (plain item)) (items : List γ) :
    Follows errors (fun _ => True) (items.allM test) (items.allM plain) := by
  induction items with
  | nil => exact .answer trivial
  | cons item rest ih =>
      refine (each item).bind ?_
      intro passed _
      cases passed with
      | true => exact ih
      | false => exact .answer trivial

theorem filterM {test : γ → Guarded Bool} {plain : γ → Except TableError Bool}
    (each : ∀ item, Follows errors (fun _ => True) (test item) (plain item)) (items : List γ) :
    Follows errors (fun _ => True) (items.filterM test) (items.filterM plain) := by
  have kept (front : List γ) : Follows errors (fun _ => True)
      (items.filterAuxM test front) (items.filterAuxM plain front) := by
    induction items generalizing front with
    | nil => exact .answer trivial
    | cons item rest ih =>
        rw [List.filterAuxM, List.filterAuxM]
        exact (each item).bind fun passed _ => ih _
  exact (kept []).bind fun _ _ => .answer trivial

end Follows

end Guarded

namespace Table

open Guarded

variable {table : Table α}

/-- A table whose slots can be counted by a word. -/
structure Safe (table : Table α) : Prop where
  valid : Valid table
  counted : table.slotCount < 2 ^ 64

theorem fetch_slots {index : Nat} (bound : index < table.slotCount) :
    fetch table.slots index = pure (table.slot index) :=
  fetch_of_lt bound

theorem store_slots {index : Nat} (content : Slot α) (bound : index < table.slotCount) :
    store table.slots index content = pure (table.put index content).slots :=
  store_of_lt content bound

theorem readsFree_slot {index : Nat}
    (odd : ∀ cell, table.slot index = some cell → cell.hash % 2 = 1) :
    readsFree (table.slot index) = table.isFree index := by
  cases held : table.slot index with
  | none => simp [readsFree_none, isFree, held]
  | some cell => simp [readsFree_of_odd (odd cell held), isFree, held]

end Table

end RobinHood
