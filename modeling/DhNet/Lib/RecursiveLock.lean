import Mathlib.Logic.Function.Basic
import Mathlib.Data.Nat.Notation

/-!
# Recursive locks

A lock that one thread holds at a time and may take again.  A lock that is held is held at least
once: it is given by its owner and by how often it was taken again.

* `times`: how often a thread holds the lock.
* `times_pos_iff`: the thread that holds the lock is its owner.
* `times_acquire`, `times_release`: how the operations change `times`.
-/

/-- A lock that is free, or held once and then `again` times more. -/
inductive RecursiveLock (T : Type*) where
  | free
  | held (owner : T) (again : ℕ)
  deriving DecidableEq, Repr

namespace RecursiveLock

variable {T : Type*} [DecidableEq T]

/-- How often a thread holds the lock. -/
def times : RecursiveLock T → T → ℕ
  | free, _ => 0
  | held owner again, t => if owner = t then again + 1 else 0

/-- Take the lock; `none` while another thread holds it. -/
def acquire (l : RecursiveLock T) (t : T) : Option (RecursiveLock T) :=
  match l with
  | free => some (held t 0)
  | held owner again => if owner = t then some (held owner (again + 1)) else none

/-- Give the lock back once. -/
def release : RecursiveLock T → RecursiveLock T
  | free => free
  | held _ 0 => free
  | held owner (again + 1) => held owner again

variable {l l' : RecursiveLock T} {t u : T}

theorem times_pos_iff : 0 < l.times t ↔ ∃ again, l = held t again := by
  cases l with
  | free => simp [times]
  | held owner again =>
    by_cases h : owner = t
    · simp [times, h]
    · simp [times, h]

theorem times_acquire (h : l.acquire t = some l') (u : T) :
    l'.times u = l.times u + if u = t then 1 else 0 := by
  cases l with
  | free =>
    obtain rfl : held t 0 = l' := by simpa [acquire] using h
    simp [times, eq_comm]
  | held owner again =>
    obtain ⟨rfl, rfl⟩ : owner = t ∧ held owner (again + 1) = l' := by simpa [acquire] using h
    by_cases hu : u = owner
    · simp [times, hu]
    · simp [times, hu, Ne.symm hu]

theorem times_release (h : 0 < l.times t) (u : T) :
    l.release.times u = l.times u - if u = t then 1 else 0 := by
  obtain ⟨again, rfl⟩ := times_pos_iff.1 h
  by_cases hu : u = t
  · cases again <;> simp [release, times, hu]
  · cases again <;> simp [release, times, hu, Ne.symm hu]

end RecursiveLock
