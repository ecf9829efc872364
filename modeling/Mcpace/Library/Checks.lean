import Mathlib

/-!
Owns chains of checks that stop at the first error: what is known when such a chain succeeds.
-/

namespace Mcpace.Library.Checks

variable {ε δ α β : Type}

/-- Fail with the error unless the condition holds. -/
def require (condition : Prop) [Decidable condition] (error : ε) : Except ε Unit :=
  if condition then .ok () else .error error

/-- A property of the items of a fixed list, decided item by item. -/
theorem forall_mem_of_all {items : List α} {holds : α → Prop} [DecidablePred holds]
    (all : items.all (fun item => decide (holds item)) = true) : ∀ item ∈ items, holds item :=
  fun item member => of_decide_eq_true (List.all_eq_true.mp all item member)

variable {condition : Prop} {error : ε}

theorem require_eq_ok [Decidable condition] : require condition error = .ok () ↔ condition := by
  by_cases holds : condition
  · simp [require, holds]
  · simp [require, holds]

variable {first : Except ε α} {result : β}

theorem bind_eq_ok {next : α → Except ε β} :
    (first >>= next) = .ok result ↔ ∃ value, first = .ok value ∧ next value = .ok result := by
  cases first with
  | error reason =>
    constructor
    · intro chained
      cases chained
    · intro ⟨_, succeeded, _⟩
      cases succeeded
  | ok value =>
    constructor
    · intro chained
      exact ⟨value, rfl, chained⟩
    · intro ⟨_, succeeded, chained⟩
      cases succeeded
      exact chained

/-- A check passed, and the chain went on. -/
theorem require_bind_eq_ok [Decidable condition] {next : Unit → Except ε β} :
    (require condition error >>= next) = .ok result ↔ condition ∧ next () = .ok result := by
  rw [bind_eq_ok]
  constructor
  · intro ⟨_, passed, chained⟩
    exact ⟨require_eq_ok.mp passed, chained⟩
  · intro ⟨holds, chained⟩
    exact ⟨(), require_eq_ok.mpr holds, chained⟩

/-- A chain that stops under a condition went on. -/
theorem throwIf_eq_ok [Decidable condition] {next : Unit → Except ε β} :
    (if condition then (throw error >>= next) else next ()) = .ok result ↔
      ¬ condition ∧ next () = .ok result := by
  by_cases stops : condition
  · rw [if_pos stops]
    exact iff_of_false nofun (fun goes => goes.1 stops)
  · rw [if_neg stops, and_iff_right stops]

theorem mapError_eq_ok {change : ε → δ} {result : α} (mapped : first.mapError change = .ok result) :
    first = .ok result := by
  cases first with
  | error reason => cases mapped
  | ok value =>
    cases mapped
    rfl

/-- What every step of a loop keeps holds at its end. -/
theorem foldlM_invariant {step : β → α → Except ε β} (holds : β → Prop) {items : List α}
    (kept : ∀ item ∈ items, ∀ state next, holds state → step state item = .ok next → holds next)
    {start : β} (first : holds start) (done : items.foldlM step start = .ok result) :
    holds result := by
  induction items generalizing start with
  | nil =>
    cases done
    exact first
  | cons item rest ih =>
    obtain ⟨kept, others⟩ := List.forall_mem_cons.mp kept
    rw [List.foldlM_cons, bind_eq_ok] at done
    obtain ⟨next, stepped, done⟩ := done
    exact ih others (kept start next first stepped) done

/-- A chain succeeded when something was observed of its result. -/
theorem exists_ok_of_map {observe : α → β} {seen : β}
    (observed : first.toOption.map observe = some seen) :
    ∃ value, first = .ok value ∧ observe value = seen := by
  cases first with
  | error reason => cases observed
  | ok value => exact ⟨value, rfl, Option.some.inj observed⟩

end Mcpace.Library.Checks
