import RobinHood.Proofs.Growing

/-!
What becomes of an attempt that may be refused memory: it is only refused what its table needs, it
leaves what is wanted unless it is refused, or it succeeds once memory is there.
-/

namespace RobinHood

variable {α β : Type}

/-- An outcome is good, or an error that may come. -/
def Ends (mayFail : TableError → Prop) (outcome : Except TableError α) (good : α → Prop) : Prop :=
  (∃ result, outcome = .ok result ∧ good result) ∨ ∃ error, outcome = .error error ∧ mayFail error

namespace Ends

variable {mayFail worse : TableError → Prop} {outcome : Except TableError α} {good better : α → Prop}

theorem of_ok {result : α} (ends : Ends mayFail outcome good) (done : outcome = .ok result) :
    good result := by
  rcases ends with ⟨other, same, holds⟩ | ⟨error, failed, _⟩
  · rw [done, Except.ok.injEq] at same
    rwa [same]
  · simp [done] at failed

theorem imp (ends : Ends mayFail outcome good) (fails : ∀ error, mayFail error → worse error)
    (implies : ∀ result, good result → better result) : Ends worse outcome better := by
  rcases ends with ⟨result, done, holds⟩ | ⟨error, failed, known⟩
  · exact Or.inl ⟨result, done, implies result holds⟩
  · exact Or.inr ⟨error, failed, fails error known⟩

theorem bind {next : α → Except TableError β} {last : β → Prop} (ends : Ends mayFail outcome good)
    (rest : ∀ result, good result → Ends mayFail (next result) last) :
    Ends mayFail (outcome >>= next) last := by
  rcases ends with ⟨result, rfl, holds⟩ | ⟨error, rfl, known⟩
  · exact rest result holds
  · exact Or.inr ⟨error, rfl, known⟩

theorem map {change : α → β} {last : β → Prop} (ends : Ends mayFail outcome good)
    (rest : ∀ result, good result → last (change result)) :
    Ends mayFail (outcome.map change) last := by
  rcases ends with ⟨result, rfl, holds⟩ | ⟨error, rfl, known⟩
  · exact Or.inl ⟨change result, rfl, rest result holds⟩
  · exact Or.inr ⟨error, rfl, known⟩

end Ends

theorem mapError_eq_ok {ε δ : Type} {outcome : Except ε α} {change : ε → δ} {result : α} :
    outcome.mapError change = .ok result ↔ outcome = .ok result := by
  cases outcome <;> simp [Except.mapError]

namespace Memory

variable {memory : Memory} {demand larger : Nat} {outcome : Except TableError α}
  {good better : α → Prop}

/-- An outcome is good, unless memory was refused that a table for so many values needs. -/
def Allows (memory : Memory) (demand : Nat) (outcome : Except TableError α)
    (good : α → Prop) : Prop :=
  (∃ result, outcome = .ok result ∧ good result) ∨
    ∃ error, outcome = .error error ∧ memory.Refusal error ∧ ¬ memory.Provides demand

/-- An outcome is good, unless memory was refused. -/
def Permits (memory : Memory) (outcome : Except TableError α) (good : α → Prop) : Prop :=
  Ends memory.Refusal outcome good

namespace Allows

theorem ends (allowed : memory.Allows demand outcome good) :
    Ends (fun error => memory.Refusal error ∧ ¬ memory.Provides demand) outcome good :=
  allowed

theorem of_ok {result : α} (allowed : memory.Allows demand outcome good)
    (done : outcome = .ok result) : good result :=
  allowed.ends.of_ok done

theorem bind {next : α → Except TableError β} {last : β → Prop}
    (allowed : memory.Allows demand outcome good)
    (rest : ∀ result, good result → memory.Allows demand (next result) last) :
    memory.Allows demand (outcome >>= next) last :=
  allowed.ends.bind rest

theorem map {change : α → β} {last : β → Prop} (allowed : memory.Allows demand outcome good)
    (rest : ∀ result, good result → last (change result)) :
    memory.Allows demand (outcome.map change) last :=
  allowed.ends.map rest

theorem imp (allowed : memory.Allows demand outcome good) (more : demand ≤ larger)
    (implies : ∀ result, good result → better result) : memory.Allows larger outcome better := by
  refine allowed.ends.imp ?_ implies
  rintro error ⟨refusal, missing⟩
  exact ⟨refusal, fun provided => missing fun slots bound => provided slots (by omega)⟩

theorem permits (allowed : memory.Allows demand outcome good)
    (implies : ∀ result, good result → better result) : memory.Permits outcome better :=
  allowed.ends.imp (fun _ failed => failed.1) implies

end Allows

namespace Permits

theorem of_ok {result : α} (permitted : memory.Permits outcome good) (done : outcome = .ok result) :
    good result :=
  Ends.of_ok permitted done

theorem bind {next : α → Except TableError β} {last : β → Prop}
    (permitted : memory.Permits outcome good)
    (rest : ∀ result, good result → memory.Permits (next result) last) :
    memory.Permits (outcome >>= next) last :=
  Ends.bind permitted rest

theorem map {change : α → β} {last : β → Prop} (permitted : memory.Permits outcome good)
    (rest : ∀ result, good result → last (change result)) :
    memory.Permits (outcome.map change) last :=
  Ends.map permitted rest

end Permits

/-- What an attempt gives if it succeeds, and for how many values there must be memory for that. -/
structure Yields {ε α : Type} (memory : Memory) (demand : Nat) (outcome : Except ε α)
    (good : α → Prop) : Prop where
  correct : ∀ result, outcome = .ok result → good result
  succeeds : memory.Provides demand → ∃ result, outcome = .ok result

theorem Yields.imp {ε : Type} {outcome : Except ε α} (yields : memory.Yields demand outcome good)
    (implies : ∀ result, good result → better result) : memory.Yields demand outcome better :=
  ⟨fun result done => implies result (yields.correct result done), yields.succeeds⟩

theorem Yields.mapError {ε δ : Type} {outcome : Except ε α} {change : ε → δ}
    (yields : memory.Yields demand outcome good) :
    memory.Yields demand (outcome.mapError change) good := by
  constructor
  · intro result done
    exact yields.correct result (mapError_eq_ok.mp done)
  · intro provided
    obtain ⟨result, done⟩ := yields.succeeds provided
    exact ⟨result, mapError_eq_ok.mpr done⟩

theorem Allows.yields (allowed : memory.Allows demand outcome good)
    (implies : ∀ result, good result → better result) : memory.Yields demand outcome better := by
  constructor
  · intro result done
    exact implies result (allowed.of_ok done)
  · intro provided
    rcases allowed with ⟨result, done, _⟩ | ⟨error, _, _, missing⟩
    · exact ⟨result, done⟩
    · exact absurd provided missing

end Memory

end RobinHood
