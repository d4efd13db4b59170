import Mathlib.Logic.Function.Basic
import Mathlib.Data.Nat.Notation

/-!
# Leases of intervals

Holders of type `R` lease intervals of `[0, n)`.  That leases are not empty, lie inside and do not
overlap is part of the type, so the operations have to show it: `grant` for an interval of which
nothing is covered, `drop` for any holder.

* `covers_grant`, `covers_drop`: which numbers are covered afterwards.
* `eq_of_covers`: a number is covered by one holder only.
-/

/-- Intervals `[i, i + c)` of `[0, n)`, at most one for each holder. -/
structure Leases (R : Type*) (n : ℕ) where
  lease : R → Option (ℕ × ℕ)
  inside : ∀ r i c, lease r = some (i, c) → 0 < c ∧ i + c ≤ n
  apart : ∀ r r' i c i' c', r ≠ r' → lease r = some (i, c) → lease r' = some (i', c') →
    i + c ≤ i' ∨ i' + c' ≤ i

namespace Leases

variable {R : Type*} {n : ℕ}

/-- No leases. -/
def empty (R : Type*) (n : ℕ) : Leases R n := ⟨fun _ => none, nofun, nofun⟩

/-- A number that belongs to a lease. -/
def Covers (L : Leases R n) (k : ℕ) : Prop :=
  ∃ r i c, L.lease r = some (i, c) ∧ i ≤ k ∧ k < i + c

theorem not_covers_empty (k : ℕ) : ¬ (empty R n).Covers k := by
  rintro ⟨r, i, c, h, -⟩
  cases h

/-- A number is covered by one holder only. -/
theorem eq_of_covers {L : Leases R n} {r r' : R} {i c i' c' k : ℕ}
    (h : L.lease r = some (i, c)) (h' : L.lease r' = some (i', c'))
    (hk : i ≤ k ∧ k < i + c) (hk' : i' ≤ k ∧ k < i' + c') : r = r' := by
  by_contra hne
  have := L.apart r r' i c i' c' hne h h'
  omega

variable [DecidableEq R]

/-- The holder `r` leases an interval that is free. -/
def grant (L : Leases R n) (r : R) (i c : ℕ) (pos : 0 < c) (le : i + c ≤ n)
    (free : ∀ k, i ≤ k → k < i + c → ¬ L.Covers k) : Leases R n where
  lease := Function.update L.lease r (some (i, c))
  inside := by
    intro r' i' c' h
    rcases eq_or_ne r' r with rfl | hne
    · rw [Function.update_self] at h
      cases h
      exact ⟨pos, le⟩
    · rw [Function.update_of_ne hne] at h
      exact L.inside r' i' c' h
  apart := by
    -- Two intervals that overlap share the larger of their left ends.
    have key : ∀ r' i' c', L.lease r' = some (i', c') → i + c ≤ i' ∨ i' + c' ≤ i := by
      intro r' i' c' h
      have hpos := (L.inside r' i' c' h).1
      by_contra hne
      exact free (max i i') (by omega) (by omega) ⟨r', i', c', h, by omega, by omega⟩
    intro r₁ r₂ i₁ c₁ i₂ c₂ hne h₁ h₂
    rcases eq_or_ne r₁ r with rfl | hne₁
    · rw [Function.update_self] at h₁
      rw [Function.update_of_ne hne.symm] at h₂
      cases h₁
      exact key r₂ i₂ c₂ h₂
    · rw [Function.update_of_ne hne₁] at h₁
      rcases eq_or_ne r₂ r with rfl | hne₂
      · rw [Function.update_self] at h₂
        cases h₂
        exact (key r₁ i₁ c₁ h₁).symm
      · rw [Function.update_of_ne hne₂] at h₂
        exact L.apart r₁ r₂ i₁ c₁ i₂ c₂ hne h₁ h₂

/-- The holder `r` gives its lease up. -/
def drop (L : Leases R n) (r : R) : Leases R n where
  lease := Function.update L.lease r none
  inside := by
    intro r' i c h
    rcases eq_or_ne r' r with rfl | hne
    · rw [Function.update_self] at h
      cases h
    · rw [Function.update_of_ne hne] at h
      exact L.inside r' i c h
  apart := by
    intro r₁ r₂ i₁ c₁ i₂ c₂ hne h₁ h₂
    rcases eq_or_ne r₁ r with rfl | hne₁
    · rw [Function.update_self] at h₁
      cases h₁
    · rcases eq_or_ne r₂ r with rfl | hne₂
      · rw [Function.update_self] at h₂
        cases h₂
      · rw [Function.update_of_ne hne₁] at h₁
        rw [Function.update_of_ne hne₂] at h₂
        exact L.apart r₁ r₂ i₁ c₁ i₂ c₂ hne h₁ h₂

theorem grant_lease {L : Leases R n} {r : R} {i c : ℕ} {pos : 0 < c} {le : i + c ≤ n}
    {free : ∀ k, i ≤ k → k < i + c → ¬ L.Covers k} :
    (L.grant r i c pos le free).lease = Function.update L.lease r (some (i, c)) := rfl

theorem drop_lease (L : Leases R n) (r : R) :
    (L.drop r).lease = Function.update L.lease r none := rfl

theorem covers_grant {L : Leases R n} {r : R} {i c : ℕ} {pos : 0 < c} {le : i + c ≤ n}
    {free : ∀ k, i ≤ k → k < i + c → ¬ L.Covers k} (fresh : L.lease r = none) (k : ℕ) :
    (L.grant r i c pos le free).Covers k ↔ i ≤ k ∧ k < i + c ∨ L.Covers k := by
  constructor
  · rintro ⟨r', i', c', h, hk⟩
    rcases eq_or_ne r' r with rfl | hne
    · rw [grant_lease, Function.update_self] at h
      cases h
      exact .inl hk
    · rw [grant_lease, Function.update_of_ne hne] at h
      exact .inr ⟨r', i', c', h, hk⟩
  · rintro (hk | ⟨r', i', c', h, hk⟩)
    · exact ⟨r, i, c, Function.update_self .., hk⟩
    · have hne : r' ≠ r := by
        rintro rfl
        rw [fresh] at h
        cases h
      exact ⟨r', i', c', (Function.update_of_ne hne ..).trans h, hk⟩

theorem covers_drop {L : Leases R n} {r : R} {i c : ℕ} (h : L.lease r = some (i, c)) (k : ℕ) :
    (L.drop r).Covers k ↔ L.Covers k ∧ ¬ (i ≤ k ∧ k < i + c) := by
  constructor
  · rintro ⟨r', i', c', h', hk⟩
    rcases eq_or_ne r' r with rfl | hne
    · rw [drop_lease, Function.update_self] at h'
      cases h'
    · rw [drop_lease, Function.update_of_ne hne] at h'
      exact ⟨⟨r', i', c', h', hk⟩, fun hk' => hne (eq_of_covers h' h hk hk')⟩
  · rintro ⟨⟨r', i', c', h', hk⟩, hnot⟩
    have hne : r' ≠ r := by
      rintro rfl
      rw [h] at h'
      cases h'
      exact hnot hk
    exact ⟨r', i', c', (Function.update_of_ne hne ..).trans h', hk⟩

end Leases
