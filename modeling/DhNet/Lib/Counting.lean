import Mathlib

/-!
# Counting the owners of a resource

A resource that is held at most once is described by a sum of natural numbers that is at most one:
each position that holds it contributes a positive term, so two such positions are equal.  The sums
run over the entries of a list and over a finite type of owners, and `sum_update_add` follows such
a sum through the update of one owner.
-/

open Finset

namespace Counting

variable {α ι τ : Type*}

theorem le_sum_map_of_getElem? (f : α → ℕ) {l : List α} {i : ℕ} {a : α} (h : l[i]? = some a) :
    f a ≤ (l.map f).sum := by
  have ha : a ∈ l := List.mem_of_getElem? h
  exact List.single_le_sum (by simp) _ (List.mem_map_of_mem ha)

/-- In a list whose terms sum to at most one, two positions with positive terms are equal. -/
theorem index_eq_of_sum_map_le_one (f : α → ℕ) {l : List α} (h : (l.map f).sum ≤ 1) {i j : ℕ}
    {a b : α} (hi : l[i]? = some a) (hj : l[j]? = some b) (ha : 0 < f a) (hb : 0 < f b) :
    i = j := by
  induction l generalizing i j with
  | nil => simp at hi
  | cons c l ih =>
    rw [List.map_cons, List.sum_cons] at h
    cases i with
    | zero =>
      cases j with
      | zero => rfl
      | succ j =>
        have := le_sum_map_of_getElem? f (by simpa using hj : l[j]? = some b)
        obtain rfl : c = a := by simpa using hi
        omega
    | succ i =>
      cases j with
      | zero =>
        have := le_sum_map_of_getElem? f (by simpa using hi : l[i]? = some a)
        obtain rfl : c = b := by simpa using hj
        omega
      | succ j =>
        have := ih (by omega) (by simpa using hi) (by simpa using hj)
        omega

/-- A positive sum of terms has a positive term. -/
theorem exists_pos_of_sum_map_pos (f : α → ℕ) {l : List α} (h : 0 < (l.map f).sum) :
    ∃ (i : ℕ) (a : α), l[i]? = some a ∧ 0 < f a := by
  by_contra hne
  have hzero : ∀ n ∈ l.map f, n = 0 := by
    intro n hn
    obtain ⟨a, ha, rfl⟩ := List.mem_map.1 hn
    obtain ⟨i, hi⟩ := List.mem_iff_getElem?.1 ha
    by_contra hpos
    exact hne ⟨i, a, hi, Nat.pos_of_ne_zero hpos⟩
  rw [List.sum_eq_zero hzero] at h
  exact absurd h (lt_irrefl 0)

section Owners

variable [DecidableEq ι]

/-- A sum over some owners when one of them is replaced. -/
theorem sum_update_add_of_mem {s : Finset ι} {i : ι} (h : i ∈ s) (x : ι → τ) (f : τ → ℕ) (v : τ) :
    ∑ k ∈ s, f (Function.update x i v k) + f (x i) = ∑ k ∈ s, f (x k) + f v := by
  rw [← Finset.add_sum_erase _ _ h, ← Finset.add_sum_erase (a := i) _ (fun k => f (x k)) h,
    Function.update_self]
  have hrest : ∑ k ∈ s.erase i, f (Function.update x i v k) = ∑ k ∈ s.erase i, f (x k) := by
    refine Finset.sum_congr rfl fun k hk => ?_
    rw [Function.update_of_ne (Finset.ne_of_mem_erase hk)]
  omega

variable [Fintype ι]

/-- A sum over all owners when one of them is replaced. -/
theorem sum_update_add (x : ι → τ) (f : τ → ℕ) (i : ι) (v : τ) :
    ∑ k, f (Function.update x i v k) + f (x i) = ∑ k, f (x k) + f v :=
  sum_update_add_of_mem (Finset.mem_univ i) x f v

/-- Two owners with positive terms of a sum that is at most one are equal. -/
theorem eq_of_sum_le_one (f : ι → ℕ) (h : ∑ i, f i ≤ 1) {i j : ι} (hi : 0 < f i) (hj : 0 < f j) :
    i = j := by
  by_contra hne
  have hsum : f i + f j ≤ ∑ k, f k := by
    rw [← Finset.sum_pair hne]
    exact Finset.sum_le_sum_of_subset (Finset.subset_univ _)
  omega

end Owners

end Counting
