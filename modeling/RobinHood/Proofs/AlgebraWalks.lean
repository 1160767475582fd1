import RobinHood.Proofs.BothEnds
import RobinHood.Proofs.SetAlgebra

/-!
The combinations of two sets as walks. A walk is compared with the list of what it has still to
give: a call takes the first value off that list, so the calls until the end give the combination as
a list, and the calls after it are given nothing.
-/

namespace RobinHood

section Calls

variable {β ω : Type} {next : ω → Except TableError (Option β × ω)}

def answers (next : ω → Except TableError (Option β × ω)) : (calls : Nat) → ω →
    Except TableError (List (Option β))
  | 0, _ => return []
  | calls + 1, walk => do
      let (answer, walk) ← next walk
      return answer :: (← answers next calls walk)

/-- However often it is called, a walk gives the values of a list in order and nothing after. -/
def Gives (next : ω → Except TableError (Option β × ω)) (walk : ω) (values : List β) : Prop :=
  ∀ calls, answers next calls walk = .ok ((List.range calls).map (values[·]?))

theorem gives_of_next {precise : ω → Prop} {toCome : ω → List β}
    (once : ∀ {walk}, precise walk → ∃ after, next walk = .ok ((toCome walk).head?, after) ∧
      precise after ∧ toCome after = (toCome walk).tail)
    {walk : ω} (holds : precise walk) : Gives next walk (toCome walk) := by
  intro calls
  induction calls generalizing walk with
  | zero => rfl
  | succ calls ih =>
      obtain ⟨after, answered, later, left⟩ := once holds
      have answersLater : (List.range calls).map ((toCome walk).tail[·]?) =
          (List.range calls).map fun call => (toCome walk)[call + 1]? :=
        List.map_congr_left fun call _ => List.getElem?_tail
      rw [answers, answered, List.range_succ_eq_map, List.map_cons, List.map_map,
        ← List.head?_eq_getElem?]
      change (answers next calls after).map ((toCome walk).head? :: ·) = _
      rw [ih later, left, answersLater]
      rfl

end Calls

theorem Table.Walk.Exact.step_front {α : Type} {walk : Table.Walk α} (precise : walk.Exact) :
    ∃ after, walk.step .front = (walk.toCome.head?, after) ∧ after.Exact ∧
      after.toCome = walk.toCome.tail := by
  obtain ⟨answer, later, left⟩ := precise.step .front
  exact ⟨(walk.step .front).2, Prod.ext answer rfl, later, left⟩

namespace HashSet

variable {T : Type} [BEq T] {set other : HashSet T}

namespace SelectingWalk

def wants (other : HashSet T) (shared : Bool) (value : T) : Bool :=
  has other.toList value = shared

def toCome (walk : SelectingWalk T) : List T :=
  walk.members.toCome.filter (wants walk.other walk.shared)

structure Exact (walk : SelectingWalk T) : Prop where
  members : walk.members.Exact
  other : walk.other.Listed

theorem seek_spec (listed : other.Listed) (shared : Bool) {members : Table.Walk T}
    (precise : members.Exact) {count : Nat} (total : members.toCome.length = count) :
    ∃ after, seek other shared count members =
        .ok ((members.toCome.filter (wants other shared)).head?, after) ∧
      after.Exact ∧ after.toCome.filter (wants other shared) =
        (members.toCome.filter (wants other shared)).tail := by
  induction count generalizing members with
  | zero =>
      rw [List.length_eq_zero_iff] at total
      rw [total]
      exact ⟨members, rfl, precise, by rw [total]; rfl⟩
  | succ count ih =>
      obtain ⟨value, rest, same⟩ := List.exists_cons_of_length_eq_add_one total
      obtain ⟨passed, stepped, later, left⟩ := precise.step_front
      rw [same] at stepped left total ⊢
      rw [seek, stepped]
      simp only [listed.contains]
      by_cases chosen : has other.toList value = shared
      · have wanted : wants other shared value = true := decide_eq_true chosen
        rw [List.filter_cons_of_pos wanted]
        refine ⟨passed, if_pos chosen, later, ?_⟩
        rw [left]
        rfl
      · have unwanted : ¬ wants other shared value = true := by simpa [wants] using chosen
        rw [List.filter_cons_of_neg unwanted]
        have sought := ih later (by rw [left]; exact Nat.succ_inj.mp total)
        rw [left] at sought
        obtain ⟨after, found, others⟩ := sought
        exact ⟨after, (if_neg chosen).trans found, others⟩

theorem Exact.next {walk : SelectingWalk T} (precise : walk.Exact) :
    ∃ after, walk.next = .ok (walk.toCome.head?, after) ∧ after.Exact ∧
      after.toCome = walk.toCome.tail := by
  obtain ⟨members, found, later, left⟩ :=
    seek_spec precise.other walk.shared precise.members precise.members.remaining.symm
  refine ⟨{ walk with members }, ?_, ⟨later, precise.other⟩, left⟩
  rw [SelectingWalk.next, found]
  rfl

theorem Exact.gives {walk : SelectingWalk T} (precise : walk.Exact) :
    Gives SelectingWalk.next walk walk.toCome :=
  gives_of_next Exact.next precise

end SelectingWalk

namespace UnionWalk

def toCome (walk : UnionWalk T) : List T :=
  walk.members.toCome ++ walk.rest.toCome

structure Exact (walk : UnionWalk T) : Prop where
  members : walk.members.Exact
  rest : walk.rest.Exact

theorem Exact.next {walk : UnionWalk T} (precise : walk.Exact) :
    ∃ after, walk.next = .ok (walk.toCome.head?, after) ∧ after.Exact ∧
      after.toCome = walk.toCome.tail := by
  obtain ⟨members, stepped, later, left⟩ := precise.members.step_front
  rw [UnionWalk.next, stepped, toCome]
  cases same : walk.members.toCome with
  | nil =>
      obtain ⟨rest, found, restLater, restLeft⟩ := precise.rest.next
      refine ⟨⟨members, rest⟩, ?_, ⟨later, restLater⟩, ?_⟩
      · simp only [List.head?_nil, found]
        rfl
      · rw [toCome, left, same]
        exact restLeft
  | cons value others =>
      refine ⟨{ walk with members }, rfl, ⟨later, precise.rest⟩, ?_⟩
      rw [toCome, left, same]
      rfl

theorem Exact.gives {walk : UnionWalk T} (precise : walk.Exact) :
    Gives UnionWalk.next walk walk.toCome :=
  gives_of_next Exact.next precise

end UnionWalk

namespace SymmetricWalk

def toCome (walk : SymmetricWalk T) : List T :=
  walk.mine.elim [] SelectingWalk.toCome ++ walk.theirs.toCome

structure Exact (walk : SymmetricWalk T) : Prop where
  mine : ∀ mine, walk.mine = some mine → mine.Exact
  theirs : walk.theirs.Exact

theorem Exact.nextOfTheirs {walk : SymmetricWalk T} (precise : walk.Exact) :
    ∃ after, walk.nextOfTheirs = .ok (walk.theirs.toCome.head?, after) ∧ after.Exact ∧
      after.toCome = walk.theirs.toCome.tail := by
  obtain ⟨theirs, found, later, left⟩ := precise.theirs.next
  refine ⟨⟨none, theirs⟩, ?_, ⟨by simp, later⟩, left⟩
  rw [SymmetricWalk.nextOfTheirs, found]
  rfl

theorem Exact.next {walk : SymmetricWalk T} (precise : walk.Exact) :
    ∃ after, walk.next = .ok (walk.toCome.head?, after) ∧ after.Exact ∧
      after.toCome = walk.toCome.tail := by
  rw [SymmetricWalk.next, toCome]
  cases held : walk.mine with
  | none => exact precise.nextOfTheirs
  | some mine =>
      obtain ⟨after, found, later, left⟩ := (precise.mine mine held).next
      simp only [found, Option.elim_some]
      cases same : mine.toCome with
      | nil => exact precise.nextOfTheirs
      | cons value others =>
          rw [same] at left
          refine ⟨{ walk with mine := some after }, rfl, ⟨?_, precise.theirs⟩, ?_⟩
          · intro _ same
            rwa [← Option.some.inj same]
          · rw [toCome, Option.elim_some, left]
            rfl

theorem Exact.gives {walk : SymmetricWalk T} (precise : walk.Exact) :
    Gives SymmetricWalk.next walk walk.toCome :=
  gives_of_next Exact.next precise

end SymmetricWalk

section Starting

variable (valid : set.table.Valid) (otherListed : other.Listed)

include valid otherListed

theorem selectingWalk_exact (shared : Bool) :
    let walk : SelectingWalk T := { members := set.table.walk, other, shared }
    walk.Exact ∧ walk.toCome = set.toList.filter (SelectingWalk.wants other shared) := by
  obtain ⟨precise, whole⟩ := valid.walk_exact
  refine ⟨⟨precise, otherListed⟩, ?_⟩
  rw [SelectingWalk.toCome, whole]
  rfl

theorem differenceWalk_exact : (set.differenceWalk other).Exact ∧
    (set.differenceWalk other).toCome =
      set.toList.filter fun value => !has other.toList value := by
  have same : SelectingWalk.wants other false = fun value => !has other.toList value :=
    funext fun value => Bool.decide_eq_false
  rw [← same]
  exact selectingWalk_exact valid otherListed false

end Starting

structure WalksAlgebra (set other : HashSet T) : Prop where
  difference : ∃ values, set.difference other = .ok values ∧
    Gives SelectingWalk.next (set.differenceWalk other) values
  intersection : ∃ values, set.intersection other = .ok values ∧
    Gives SelectingWalk.next (set.intersectionWalk other) values
  union : ∃ values, set.union other = .ok values ∧
    Gives UnionWalk.next (set.unionWalk other) values
  symmetricDifference : ∃ values, set.symmetricDifference other = .ok values ∧
    Gives SymmetricWalk.next (set.symmetricDifferenceWalk other) values

theorem Listed.walksAlgebra (valid : set.table.Valid) (listed : set.Listed)
    (otherValid : other.table.Valid) (otherListed : other.Listed) : WalksAlgebra set other := by
  obtain ⟨mine, mineLeft⟩ := differenceWalk_exact valid otherListed
  obtain ⟨theirs, theirsLeft⟩ := differenceWalk_exact otherValid listed
  obtain ⟨precise, whole⟩ := valid.walk_exact
  constructor
  case difference =>
    exact ⟨_, otherListed.difference_eq, mineLeft ▸ mine.gives⟩
  case intersection =>
    have same (asked : HashSet T) : SelectingWalk.wants asked true = has asked.toList :=
      funext fun value => Bool.decide_eq_true
    refine ⟨_, listed.intersection_eq otherListed, ?_⟩
    rw [intersectionWalk, ← same, ← same]
    split
    · obtain ⟨walk, left⟩ := selectingWalk_exact valid otherListed true
      exact left ▸ walk.gives
    · obtain ⟨walk, left⟩ := selectingWalk_exact otherValid listed true
      exact left ▸ walk.gives
  case union =>
    have walk : (set.unionWalk other).Exact := ⟨precise, theirs⟩
    have left : (set.unionWalk other).toCome =
        set.toList ++ other.toList.filter fun value => !has set.toList value :=
      congrArg₂ (· ++ ·) whole theirsLeft
    exact ⟨_, listed.union_eq, left ▸ walk.gives⟩
  case symmetricDifference =>
    have walk : (set.symmetricDifferenceWalk other).Exact :=
      ⟨fun _ same => Option.some.inj same ▸ mine, theirs⟩
    refine ⟨_, listed.symmetricDifference_eq otherListed, ?_⟩
    rw [← mineLeft, ← theirsLeft]
    exact walk.gives

/-- Any two sets that callers can hold are combined by walks as by lists. -/
theorem reachable_walksAlgebra [EquivBEq T] (reachable : (interface T).Reachable set)
    (otherReachable : (interface T).Reachable other) : WalksAlgebra set other := by
  have represented : set.Represented := interface_preserves.of_reachable reachable
  have otherRepresented : other.Represented := interface_preserves.of_reachable otherReachable
  have listed := represented.listed
  have otherListed := otherRepresented.listed
  obtain ⟨finite, represents⟩ := represented
  obtain ⟨otherFinite, otherRepresents⟩ := otherRepresented
  exact listed.walksAlgebra represents.valid otherRepresents.valid otherListed

end HashSet

end RobinHood
