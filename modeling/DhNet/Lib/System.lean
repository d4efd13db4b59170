import Mathlib.Data.List.Basic

/-!
# Transition systems with a partial step function

A system is a predicate of initial states and a step function: `step s a` is `some t` when the
action `a` is enabled in `s` and leads to `t`, and `none` when it is disabled.  `Reach ok` is
reachability by steps that each satisfy the guard `ok` (a condition on the state before the step
and on the action), and `Reachable` is reachability by arbitrary steps.

* `Reach.invariant`: what holds initially and is kept by every guarded step holds in every state
  reached.
* `run` replays a list of actions, so that a concrete execution is a closed term
  (`reachable_of_run`, `reach_of_run`, `reach_of_runWhen`).
* `Simulation`: a relation that every concrete step keeps, with the abstract system making a finite
  number of steps.
-/

namespace Transition

/-- A transition system with states `σ` and actions `α`. -/
structure System (σ α : Type*) where
  init : σ → Prop
  step : σ → α → Option σ

namespace System

variable {σ α τ β : Type*} (M : System σ α)

/-- Reachability by steps that satisfy the guard `ok`. -/
inductive Reach (ok : σ → α → Prop) : σ → Prop
  | init {s : σ} : M.init s → Reach ok s
  | step {s t : σ} {a : α} : Reach ok s → ok s a → M.step s a = some t → Reach ok t

/-- Reachability by arbitrary steps. -/
def Reachable : σ → Prop := M.Reach fun _ _ => True

variable {M}

theorem Reach.invariant {ok : σ → α → Prop} {P : σ → Prop} (init : ∀ s, M.init s → P s)
    (step : ∀ s a t, M.Reach ok s → P s → ok s a → M.step s a = some t → P t) {s : σ}
    (h : M.Reach ok s) : P s := by
  induction h with
  | init hs => exact init _ hs
  | step hr ha ht ih => exact step _ _ _ hr ih ha ht

theorem Reach.mono {ok ok' : σ → α → Prop} (h : ∀ s a, ok s a → ok' s a) {s : σ}
    (hs : M.Reach ok s) : M.Reach ok' s := by
  induction hs with
  | init hi => exact .init hi
  | step _ ha ht ih => exact .step ih (h _ _ ha) ht

theorem Reach.reachable {ok : σ → α → Prop} {s : σ} (h : M.Reach ok s) : M.Reachable s :=
  h.mono fun _ _ _ => trivial

theorem Reachable.init {s : σ} (h : M.init s) : M.Reachable s := Reach.init h

theorem Reachable.step {s t : σ} {a : α} (h : M.Reachable s) (ht : M.step s a = some t) :
    M.Reachable t :=
  Reach.step h trivial ht

theorem Reachable.invariant {P : σ → Prop} (init : ∀ s, M.init s → P s)
    (step : ∀ s a t, P s → M.step s a = some t → P t) {s : σ} (h : M.Reachable s) : P s :=
  Reach.invariant init (fun _ _ _ _ hp _ ht => step _ _ _ hp ht) h

/-! ## Replaying executions -/

variable (M)

/-- The state after a list of actions, `none` when one of them is disabled. -/
def run : σ → List α → Option σ
  | s, [] => some s
  | s, a :: as => (M.step s a).bind fun t => run t as

/-- The state after a list of actions that all satisfy the guard. -/
def runWhen (ok : σ → α → Bool) : σ → List α → Option σ
  | s, [] => some s
  | s, a :: as => if ok s a then (M.step s a).bind fun t => runWhen ok t as else none

variable {M}

/-- The final state of an execution in which no action is disabled, with what it satisfies. -/
theorem exists_final {P : σ → Prop} {final : Option σ} (h : final.isSome = true)
    (hfinal : P (final.get h)) : ∃ s, final = some s ∧ P s :=
  ⟨final.get h, (Option.some_get h).symm, hfinal⟩

theorem reach_of_run {ok : σ → α → Prop} {s t : σ} {as : List α} (hs : M.Reach ok s)
    (hok : ∀ a ∈ as, ∀ s, ok s a) (h : M.run s as = some t) : M.Reach ok t := by
  induction as generalizing s with
  | nil =>
    obtain rfl : s = t := by simpa [run] using h
    exact hs
  | cons a as ih =>
    obtain ⟨u, hu, hr⟩ := Option.bind_eq_some_iff.1 h
    exact ih (hs.step (hok a List.mem_cons_self s) hu)
      (fun b hb => hok b (List.mem_cons_of_mem a hb)) hr

theorem reachable_of_run {s t : σ} {as : List α} (hs : M.Reachable s) (h : M.run s as = some t) :
    M.Reachable t :=
  reach_of_run hs (fun _ _ _ => trivial) h

/-- A replay whose guard, with what is known of the actions, implies another one. -/
theorem reach_of_runWhen_of {ok : σ → α → Bool} {ok' : σ → α → Prop} {s t : σ} {as : List α}
    (hs : M.Reach ok' s) (hok : ∀ a ∈ as, ∀ s, ok s a = true → ok' s a)
    (h : M.runWhen ok s as = some t) : M.Reach ok' t := by
  induction as generalizing s with
  | nil =>
    obtain rfl : s = t := by simpa [runWhen] using h
    exact hs
  | cons a as ih =>
    simp only [runWhen] at h
    split_ifs at h with ha
    obtain ⟨u, hu, hr⟩ := Option.bind_eq_some_iff.1 h
    exact ih (hs.step (hok a List.mem_cons_self s ha) hu)
      (fun b hb => hok b (List.mem_cons_of_mem a hb)) hr

theorem reach_of_runWhen {ok : σ → α → Bool} {s t : σ} {as : List α}
    (hs : M.Reach (fun s a => ok s a = true) s) (h : M.runWhen ok s as = some t) :
    M.Reach (fun s a => ok s a = true) t :=
  reach_of_runWhen_of hs (fun _ _ _ => id) h

/-! ## Simulation -/

/-- A relation between the states of two systems under which every reachable concrete step is
matched by a finite number of abstract steps. -/
structure Simulation (M : System σ α) (N : System τ β) (R : σ → τ → Prop) : Prop where
  init : ∀ s, M.init s → ∃ t, N.init t ∧ R s t
  step : ∀ s a s' t, M.Reachable s → N.Reachable t → R s t → M.step s a = some s' →
    ∃ bs t', N.run t bs = some t' ∧ R s' t'

end System

end Transition
