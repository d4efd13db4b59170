import Mathlib.Data.Nat.Init
import Mathlib.Data.Nat.Notation
import DhNet.Lib.System

/-!
# Executions

An execution goes on forever; at each time it makes a step of the system or pauses.

* `Execution.related`: a transitive relation between the states before and after each step holds
  between the states at any two times.
* `Execution.exists_until`: between a time and the next event the steps are not that event.
* `Eventually`: a property holds at some later time.
-/

namespace Transition

namespace System

variable {σ α : Type*} {M : System σ α}

/-- An infinite execution of a system, `none` being a pause. -/
structure Execution (M : System σ α) where
  state : ℕ → σ
  action : ℕ → Option α
  init : M.init (state 0)
  step : ∀ n a, action n = some a → M.step (state n) a = some (state (n + 1))
  pause : ∀ n, action n = none → state (n + 1) = state n

namespace Execution

variable (e : M.Execution)

theorem reachable (n : ℕ) : M.Reachable (e.state n) := by
  induction n with
  | zero => exact .init e.init
  | succ n ih =>
    cases h : e.action n with
    | none =>
      rw [e.pause n h]
      exact ih
    | some a => exact ih.step (e.step n a h)

/-- What relates the states around each step, and is transitive, relates the states at two times. -/
theorem related {R : σ → σ → Prop} (refl : ∀ s, R s s) (trans : ∀ {s t u}, R s t → R t u → R s u)
    (step : ∀ {s a t}, M.step s a = some t → R s t) {n m : ℕ} (h : n ≤ m) :
    R (e.state n) (e.state m) := by
  induction h with
  | refl => exact refl _
  | @step m _ ih =>
    cases hm : e.action m with
    | none =>
      rw [e.pause m hm]
      exact ih
    | some a => exact trans ih (step (e.step m a hm))

/-- The first time of an event, with what the steps before it have in common. -/
theorem exists_until {R : σ → σ → Prop} (refl : ∀ s, R s s)
    (trans : ∀ {s t u}, R s t → R t u → R s u) {event : σ → α → Prop}
    (step : ∀ {s a t}, ¬ event s a → M.step s a = some t → R s t) {n : ℕ}
    (h : ∃ m, n ≤ m ∧ ∃ a, e.action m = some a ∧ event (e.state m) a) :
    ∃ m, n ≤ m ∧ R (e.state n) (e.state m) ∧ ∃ a, e.action m = some a ∧ event (e.state m) a := by
  obtain ⟨m, hm, hevent⟩ := h
  induction hm using Nat.decreasingInduction with
  | self => exact ⟨m, Nat.le_refl m, refl _, hevent⟩
  | of_succ k hk ih =>
    by_cases hnow : ∃ a, e.action k = some a ∧ event (e.state k) a
    · exact ⟨k, Nat.le_refl k, refl _, hnow⟩
    · obtain ⟨m', hm', hrel, hevent'⟩ := ih
      refine ⟨m', Nat.le_of_succ_le hm', ?_, hevent'⟩
      cases ha : e.action k with
      | none => rwa [← e.pause k ha]
      | some a => exact trans (step (fun h => hnow ⟨a, ha, h⟩) (e.step k a ha)) hrel

/-- The property holds at this time or later. -/
def Eventually (n : ℕ) (P : σ → Prop) : Prop := ∃ m, n ≤ m ∧ P (e.state m)

variable {e} {P : σ → Prop} {n m : ℕ}

theorem Eventually.now (h : P (e.state n)) : e.Eventually n P := ⟨n, Nat.le_refl n, h⟩

theorem Eventually.of_le (hle : n ≤ m) (h : e.Eventually m P) : e.Eventually n P := by
  obtain ⟨k, hk, hP⟩ := h
  exact ⟨k, Nat.le_trans hle hk, hP⟩

end Execution

end System

end Transition
