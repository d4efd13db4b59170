import Mathlib

/-!
# Finite maps sorted by key

A map is the list of its entries in strictly increasing order of the keys, so two maps with the same
entries are equal.  `find?` looks a key up, `insert` sets it and `erase` removes it; the operations
are described by their effect on `find?` and on the size.  `firstKey` and `keyAfter` are the steps
of an iteration.
-/

/-- A finite map, as the list of its entries in increasing order of the keys. -/
structure SortedMap (κ α : Type*) [LinearOrder κ] where
  entries : List (κ × α)
  sorted : entries.Pairwise fun a b => a.1 < b.1

namespace SortedMap

variable {κ α : Type*} [LinearOrder κ] (m : SortedMap κ α) {k j : κ} {v w : α}

instance [DecidableEq α] : DecidableEq (SortedMap κ α) := fun m m' =>
  decidable_of_iff (m.entries = m'.entries) (by cases m; cases m'; simp)

/-- The empty map. -/
def empty : SortedMap κ α := ⟨[], .nil⟩

/-- The number of entries. -/
def size : ℕ := m.entries.length

/-- The value at a key. -/
def find? (k : κ) : Option α := (m.entries.find? fun e => e.1 = k).map Prod.snd

/-- Set the value at a key. -/
def insert (k : κ) (v : α) : SortedMap κ α where
  entries := m.entries.filter (fun e => e.1 < k) ++ (k, v) :: m.entries.filter fun e => k < e.1
  sorted := by
    refine List.pairwise_append.2 ⟨m.sorted.filter _, List.pairwise_cons.2 ⟨?_, m.sorted.filter _⟩,
      ?_⟩
    · intro e he
      exact of_decide_eq_true (List.mem_filter.1 he).2
    · intro a ha b hb
      have hak : a.1 < k := of_decide_eq_true (List.mem_filter.1 ha).2
      rcases List.mem_cons.1 hb with rfl | hb
      · exact hak
      · exact hak.trans (of_decide_eq_true (List.mem_filter.1 hb).2)

/-- The key of the first entry, where an iteration begins. -/
def firstKey : Option κ := (m.entries.head?).map Prod.fst

/-- The key of the next entry of an iteration, `none` at the end. -/
def keyAfter (k : κ) : Option κ := (m.entries.find? fun e => k < e.1).map Prod.fst

/-- Remove a key. -/
def erase (k : κ) : SortedMap κ α where
  entries := m.entries.filter fun e => e.1 ≠ k
  sorted := m.sorted.filter _

variable {m}

theorem mem_insert : (j, w) ∈ (m.insert k v).entries ↔
    j = k ∧ w = v ∨ j ≠ k ∧ (j, w) ∈ m.entries := by
  simp only [insert, List.mem_append, List.mem_cons, List.mem_filter, decide_eq_true_eq,
    Prod.mk.injEq]
  rcases lt_trichotomy j k with h | rfl | h
  · simp [h, h.ne, h.not_gt]
  · simp
  · simp [h, h.ne', h.not_gt]

theorem mem_erase : (j, w) ∈ (m.erase k).entries ↔ j ≠ k ∧ (j, w) ∈ m.entries := by
  simp [erase, and_comm]

theorem nodup_keys : (m.entries.map Prod.fst).Nodup :=
  List.pairwise_map.2 (m.sorted.imp fun h => h.ne)

theorem find?_eq_some_iff : m.find? k = some v ↔ (k, v) ∈ m.entries := by
  unfold find?
  constructor
  · intro h
    obtain ⟨e, he, rfl⟩ := Option.map_eq_some_iff.1 h
    obtain rfl : e.1 = k := by simpa using List.find?_some he
    exact List.mem_of_find?_eq_some he
  · intro h
    obtain ⟨e, he⟩ := Option.isSome_iff_exists.1
      (List.find?_isSome.2 ⟨(k, v), h, decide_eq_true rfl⟩ :
        (m.entries.find? fun e => e.1 = k).isSome)
    have hkey : e.1 = k := by simpa using List.find?_some he
    have heq : e = (k, v) :=
      List.inj_on_of_nodup_map nodup_keys (List.mem_of_find?_eq_some he) h hkey
    rw [he, heq, Option.map_some]

/-- Maps with the same values are equal. -/
theorem ext_find? {m' : SortedMap κ α} (h : ∀ k, m.find? k = m'.find? k) : m = m' := by
  have hmem : ∀ e, e ∈ m.entries ↔ e ∈ m'.entries := by
    rintro ⟨k, v⟩
    rw [← find?_eq_some_iff, ← find?_eq_some_iff, h]
  have hperm : m.entries.Perm m'.entries :=
    (List.perm_ext_iff_of_nodup (List.Nodup.of_map _ nodup_keys)
      (List.Nodup.of_map _ nodup_keys)).2 hmem
  have hentries : m.entries = m'.entries :=
    hperm.eq_of_pairwise (fun _ _ _ _ hab hba => absurd hab hba.not_gt) m.sorted m'.sorted
  cases m
  cases m'
  cases hentries
  rfl

@[simp] theorem size_empty : (empty : SortedMap κ α).size = 0 := rfl

theorem find?_insert : (m.insert k v).find? j = if j = k then some v else m.find? j := by
  ext w
  rw [find?_eq_some_iff, mem_insert]
  split_ifs with h
  · simp [h, eq_comm]
  · simp [h, find?_eq_some_iff]

theorem find?_erase : (m.erase k).find? j = if j = k then none else m.find? j := by
  ext w
  rw [find?_eq_some_iff, mem_erase]
  split_ifs with h
  · simp [h]
  · simp [h, find?_eq_some_iff]

/-- Removing a key that was just added. -/
theorem erase_insert (h : m.find? k = none) : (m.insert k v).erase k = m := by
  refine ext_find? fun j => ?_
  rw [find?_erase, find?_insert]
  split_ifs with hj
  · rw [hj, h]
  · rfl

theorem size_erase (h : m.find? k = some v) : (m.erase k).size + 1 = m.size := by
  have hperm : m.entries.Perm ((k, v) :: (m.erase k).entries) := by
    refine (List.perm_ext_iff_of_nodup (List.Nodup.of_map _ nodup_keys) ?_).2 ?_
    · refine List.nodup_cons.2 ⟨fun hmem => ?_, List.Nodup.of_map _ nodup_keys⟩
      exact (mem_erase.1 hmem).1 rfl
    · rintro ⟨j, w⟩
      rw [List.mem_cons, mem_erase, Prod.mk.injEq, ← find?_eq_some_iff]
      by_cases hj : j = k
      · subst hj
        simp [h, eq_comm]
      · simp [hj]
  exact hperm.length_eq.symm

theorem size_insert (h : m.find? k = none) : (m.insert k v).size = m.size + 1 := by
  have hfind : (m.insert k v).find? k = some v := by rw [find?_insert, if_pos rfl]
  rw [← size_erase hfind, erase_insert h]

/-- An iteration that stands on an entry goes on to the one behind it. -/
theorem keyAfter_of_split {before after : List (κ × α)}
    (h : m.entries = before ++ (k, v) :: after) : m.keyAfter k = after.head?.map Prod.fst := by
  have hsorted := m.sorted
  rw [h, List.pairwise_append, List.pairwise_cons] at hsorted
  obtain ⟨-, ⟨hafter, -⟩, hbefore⟩ := hsorted
  have hskip : before.find? (fun e => k < e.1) = none := by
    refine List.find?_eq_none.2 fun e he => ?_
    simpa using (hbefore e he (k, v) List.mem_cons_self).le
  have hrest : after.find? (fun e => k < e.1) = after.head? := by
    cases after with
    | nil => rfl
    | cons e after => simp [hafter e List.mem_cons_self]
  rw [keyAfter, h, List.find?_append, hskip, Option.none_or, List.find?_cons_of_neg (by simp),
    hrest]

end SortedMap
