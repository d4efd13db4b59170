import Mathlib.Logic.Relation
import Mathlib.Algebra.Group.Fin.Basic
import Mathlib.Data.List.Chain
import Mathlib.Data.Set.Insert

/-!
# Cycles of a directed graph

A graph is a relation `r`, and it is `Cyclic` when some node reaches itself by one edge or more.

* `Settled` is what a depth-first search knows of the nodes it is done with: their edges stay among
  them and none of them is on a cycle.  `Settled.insert` adds a node all of whose successors are
  settled, and a graph that is settled as a whole has no cycle.
* `transGen_of_climb`: along a list in which each node is followed by a predecessor, every node
  reaches the first one.
* `cyclic_of_ring`: paths from each node of a ring to the next one make a cycle unless all nodes of
  the ring are the same.
-/

namespace Graph

open Relation

variable {α : Type*} {r : α → α → Prop}

/-- Some node reaches itself. -/
def Cyclic (r : α → α → Prop) : Prop := ∃ a, TransGen r a a

/-! ## Settled nodes -/

/-- The edges of these nodes stay among them, and none of them is on a cycle. -/
structure Settled (r : α → α → Prop) (F : Set α) : Prop where
  closed : ∀ a ∈ F, ∀ b, r a b → b ∈ F
  acyclic : ∀ a ∈ F, ¬ TransGen r a a

theorem settled_empty : Settled r ∅ := ⟨fun _ ha => ha.elim, fun _ ha => ha.elim⟩

theorem Settled.mem_of_transGen {F : Set α} (h : Settled r F) {a b : α} (ha : a ∈ F)
    (hab : TransGen r a b) : b ∈ F := by
  induction hab with
  | single hstep => exact h.closed _ ha _ hstep
  | tail _ hstep ih => exact h.closed _ ih _ hstep

theorem Settled.insert {F : Set α} (h : Settled r F) {a : α} (hnew : a ∉ F)
    (hsucc : ∀ b, r a b → b ∈ F) : Settled r (insert a F) where
  closed b hb c hbc := by
    rcases hb with rfl | hb
    · exact .inr (hsucc c hbc)
    · exact .inr (h.closed b hb c hbc)
  acyclic b hb hcycle := by
    rcases hb with rfl | hb
    · -- A cycle through `a` enters `F` with its first edge and does not come back.
      obtain ⟨c, hbc, hcb⟩ := TransGen.head'_iff.1 hcycle
      rcases reflTransGen_iff_eq_or_transGen.1 hcb with rfl | hcb
      · exact hnew (hsucc _ hbc)
      · exact hnew (h.mem_of_transGen (hsucc c hbc) hcb)
    · exact h.acyclic b hb hcycle

theorem Settled.not_cyclic {F : Set α} (h : Settled r F) (hall : ∀ a b, r a b → a ∈ F) :
    ¬ Cyclic r := by
  rintro ⟨a, ha⟩
  obtain ⟨b, hab, -⟩ := TransGen.head'_iff.1 ha
  exact h.acyclic a (hall a b hab) ha

/-! ## Climbing to predecessors -/

/-- In a list in which each node is followed by itself or a predecessor, every node reaches the
first one. -/
theorem reflTransGen_of_climb {a : α} {l : List α}
    (h : (a :: l).IsChain fun x y => x = y ∨ r y x) {b : α} (hb : b ∈ a :: l) :
    ReflTransGen r b a := by
  induction l generalizing a with
  | nil =>
    obtain rfl : b = a := by simpa using hb
    exact .refl
  | cons c l ih =>
    rw [List.isChain_cons_cons] at h
    rcases List.mem_cons.1 hb with rfl | hb
    · exact .refl
    · rcases h.1 with rfl | hca
      · exact ih h.2 hb
      · exact (ih h.2 hb).tail hca

/-- In a list in which each node is followed by a predecessor, every later node reaches the first
one by an edge or more. -/
theorem transGen_of_climb {a : α} {l : List α} (h : (a :: l).IsChain fun x y => r y x) {b : α}
    (hb : b ∈ l) : TransGen r b a := by
  cases l with
  | nil => simp at hb
  | cons c l =>
    rw [List.isChain_cons_cons] at h
    exact .tail' (reflTransGen_of_climb (h.2.imp fun _ _ => .inr) hb) h.1

/-! ## Rings -/

theorem reflTransGen_ring {n : ℕ} {f : Fin (n + 1) → α}
    (h : ∀ i, ReflTransGen r (f i) (f (i + 1))) (i : Fin (n + 1)) (k : ℕ) :
    ReflTransGen r (f i) (f (i + Fin.ofNat (n + 1) k)) := by
  induction k with
  | zero => simpa using ReflTransGen.refl
  | succ k ih =>
    have hstep := h (i + Fin.ofNat (n + 1) k)
    have hsucc : i + Fin.ofNat (n + 1) k + 1 = i + Fin.ofNat (n + 1) (k + 1) := by
      rw [add_assoc]
      congr 1
      ext
      simp [Fin.val_add]
    rw [hsucc] at hstep
    exact ih.trans hstep

/-- Paths around a ring of nodes that are not all the same make a cycle. -/
theorem cyclic_of_ring {n : ℕ} {f : Fin (n + 1) → α} (h : ∀ i, ReflTransGen r (f i) (f (i + 1)))
    {i j : Fin (n + 1)} (hne : f i ≠ f j) : Cyclic r := by
  have hpath : ∀ i j, ReflTransGen r (f i) (f j) := by
    intro i j
    have := reflTransGen_ring h i (j - i).val
    have hofNat : Fin.ofNat (n + 1) (j - i).val = j - i := by
      ext
      simp [Fin.ofNat, Nat.mod_eq_of_lt (j - i).isLt]
    rwa [hofNat, add_sub_cancel] at this
  refine ⟨f i, ?_⟩
  rcases reflTransGen_iff_eq_or_transGen.1 (hpath i j) with heq | hij
  · exact absurd heq.symm hne
  · exact hij.trans_left (hpath j i)

end Graph
