import DhNet.Lib.Leases
import DhNet.Core.SendPool

/-!
# Ownership of send chunks

* `getAllocIndex_spec`, `useLoop_spec`, `deAllocLoop_spec`: the three loops of the pool.
* `Represents`: the pool and its references as leases of chunks.  `Alloc` grants a lease,
  `SendPool::DeAlloc` drops one, and every other access keeps them.
* `send_chunk_ownership`: what follows in every run.
-/

namespace DhNet

theorem Sender.setSendDataChunk_of_free {sender : Sender} (hfree : sender.tempChunk = none) (i : ℕ)
    {count : ℕ} (hpos : 0 < count) :
    sender.setSendDataChunk (some i) i count = .ok ⟨some i, i, count⟩ := by
  rw [setSendDataChunk, if_neg nofun, if_neg (by omega), if_neg hpos.ne', if_neg (by simp [hfree])]

namespace SendPool

/-! ## The loops -/

theorem getD_set (flags : List Bool) (i k : ℕ) (b : Bool) : (flags.set i b).getD k false =
    if i = k ∧ k < flags.length then b else flags.getD k false := by
  simp only [List.getD_eq_getElem?_getD, List.getElem?_set]
  split_ifs with h1 h2 h3 h3
  all_goals simp_all

/-- What the search has found so far: the last `maxCount` flags before `flagIndex` are free. -/
theorem searchLoop_spec {count : ℕ} (pos : 0 < count) (all : List Bool) :
    ∀ (flags : List Bool) (flagIndex maxCount : ℕ) (allocIndex : Option ℕ) (i : ℕ),
      all.drop flagIndex = flags → maxCount ≤ flagIndex →
      (allocIndex = if maxCount = 0 then none else some (flagIndex - maxCount)) →
      (∀ k, flagIndex - maxCount ≤ k → k < flagIndex → all.getD k false = false) →
      flagIndex ≤ all.length → maxCount < count →
      searchLoop count flags flagIndex maxCount allocIndex = (count, some i) →
      i + count ≤ all.length ∧ ∀ k, i ≤ k → k < i + count → all.getD k false = false := by
  intro flags
  induction flags with
  | nil =>
    intro flagIndex maxCount allocIndex i _ _ _ _ _ hlt h
    simp only [searchLoop, Prod.mk.injEq] at h
    omega
  | cons flag flags ih =>
    intro flagIndex maxCount allocIndex i hdrop hle hindex hfree hlen hlt h
    have hget : all[flagIndex]? = some flag := by
      rw [← List.head?_drop, hdrop]
      rfl
    have hlen' : flagIndex < all.length := (List.getElem?_eq_some_iff.1 hget).1
    have hdrop' : all.drop (flagIndex + 1) = flags := by
      rw [← List.tail_drop, hdrop]
      rfl
    cases flag with
    | false =>
      have hfree' : ∀ k, flagIndex + 1 - (maxCount + 1) ≤ k → k < flagIndex + 1 →
          all.getD k false = false := by
        intro k h1 h2
        rcases Nat.lt_or_ge k flagIndex with hk | hk
        · exact hfree k (by omega) hk
        · obtain rfl : k = flagIndex := by omega
          simp [List.getD_eq_getElem?_getD, hget]
      have hstart : allocIndex.getD flagIndex = flagIndex - maxCount := by
        rw [hindex]
        split_ifs with h0
        · simp [h0]
        · rfl
      simp only [searchLoop, hstart] at h
      split_ifs at h with hcount
      · simp only [Prod.mk.injEq, Option.some.injEq] at h
        obtain ⟨-, rfl⟩ := h
        refine ⟨by omega, fun k h1 h2 => hfree' k (by omega) (by omega)⟩
      · exact ih (flagIndex + 1) (maxCount + 1) _ i hdrop' (by omega) (by simp) hfree' hlen'
          (by omega) h
    | true =>
      exact ih (flagIndex + 1) 0 none i hdrop' (Nat.zero_le _) rfl
        (fun k h1 h2 => absurd h1 (by omega)) hlen' pos h

/-- The run that `GetAllocIndex` finds lies inside the pool and is free. -/
theorem getAllocIndex_spec {pool : SendPool} {count i : ℕ} (pos : 0 < count)
    (h : pool.getAllocIndex count = some i) : i + count ≤ pool.useFlag.length ∧
      ∀ k, i ≤ k → k < i + count → pool.useFlag.getD k false = false := by
  unfold getAllocIndex at h
  simp only at h
  split_ifs at h with hcount
  refine searchLoop_spec pos pool.useFlag pool.useFlag 0 0 none i rfl (le_refl 0) rfl
    (fun k _ hk => absurd hk (Nat.not_lt_zero k)) (Nat.zero_le _) pos ?_
  exact Prod.ext hcount h

theorem useLoop_spec (n : ℕ) : ∀ (i : ℕ) (flags : List Bool), i + n ≤ flags.length →
    (useLoop i n flags).length = flags.length ∧ ∀ k, (useLoop i n flags).getD k false = true ↔
      i ≤ k ∧ k < i + n ∨ flags.getD k false = true := by
  induction n with
  | zero =>
    intro i flags _
    exact ⟨rfl, fun k => ⟨.inr, fun h => h.resolve_left (by omega)⟩⟩
  | succ n ih =>
    intro i flags hlen
    obtain ⟨h1, h2⟩ := ih (i + 1) (flags.set i true) (by rw [List.length_set]; omega)
    refine ⟨by rw [useLoop, h1, List.length_set], fun k => ?_⟩
    rw [useLoop, h2 k, getD_set]
    split_ifs with hk
    · simp only [or_true, true_iff]
      omega
    · constructor <;> rintro (h | h) <;> first | exact .inr h | omega

theorem deAllocLoop_spec (n : ℕ) : ∀ (i : ℕ) (pool : SendPool),
    (∀ k, i ≤ k → k < i + n → pool.useFlag.getD k false = true) →
    (deAllocLoop i n pool).2 = true ∧
    (deAllocLoop i n pool).1.chunkCount = pool.chunkCount ∧
    (deAllocLoop i n pool).1.senderList = pool.senderList ∧
    (deAllocLoop i n pool).1.useFlag.length = pool.useFlag.length ∧
    ∀ k, (deAllocLoop i n pool).1.useFlag.getD k false = true ↔
      pool.useFlag.getD k false = true ∧ ¬ (i ≤ k ∧ k < i + n) := by
  induction n with
  | zero =>
    intro i pool _
    exact ⟨rfl, rfl, rfl, rfl, fun k => ⟨fun h => ⟨h, by omega⟩, fun h => h.1⟩⟩
  | succ n ih =>
    intro i pool hused
    have hi : pool.useFlag.getD i false = true := hused i (le_refl i) (by omega)
    rw [deAllocLoop, if_neg (by rw [hi]; nofun)]
    obtain ⟨h1, h2, h3, h4, h5⟩ := ih (i + 1) { pool with
        useFlag := pool.useFlag.set i false
        useSize := pool.useSize - UInt16.ofNat sizeofDataChunk } (by
      intro k hk1 hk2
      rw [getD_set, if_neg (by omega)]
      exact hused k (by omega) (by omega))
    refine ⟨h1, h2, h3, h4.trans (List.length_set ..), fun k => ?_⟩
    rw [h5 k, getD_set]
    split_ifs with hk
    · obtain ⟨rfl, -⟩ := hk
      simp
    · constructor
      · rintro ⟨h, hnot⟩
        refine ⟨h, fun hrange => ?_⟩
        have hk' : i = k := by omega
        subst hk'
        refine hk ⟨rfl, ?_⟩
        by_contra hlen
        rw [List.getD_eq_getElem?_getD, List.getElem?_eq_none (by omega)] at h
        cases h
      · rintro ⟨h, hnot⟩
        exact ⟨h, by omega⟩

end SendPool

namespace Senders

variable {R : Type*} {n : ℕ} {s s' : State R} {L : Leases R n} {r : R}

/-! ## References as leases -/

/-- A reference and the lease it has: `Sender` and local variables agree with the lease, and from
the first store on the `Sender` is marked as free. -/
def RefOk (senders : ℕ → Sender) : Ref → Option (ℕ × ℕ) → Prop
  | .unused, lease | .released, lease | .releasing _ (.check true), lease => lease = none
  | .live i, lease | .releasing i .test, lease =>
      lease = some (i, (senders i).count) ∧ (senders i).tempChunk = some i ∧ (senders i).index = i
  | .releasing i (.resetChunk index count), lease => lease = some (i, count) ∧ index = i
  | .releasing i (.resetIndex index count), lease
  | .releasing i (.resetCount index count), lease
  | .releasing i (.deAlloc index count), lease =>
      lease = some (i, count) ∧ index = i ∧ (senders i).tempChunk = none
  | .releasing _ (.check false), _ => False

/-- The pool holds exactly these leases. -/
structure Represents (s : State R) (L : Leases R n) : Prop where
  chunkCount : s.pool.chunkCount = n
  length : s.pool.useFlag.length = n
  flags : ∀ k, s.pool.useFlag.getD k false = true ↔ L.Covers k
  refs : ∀ r, RefOk s.pool.senderList (s.ref r) (L.lease r)
  idle : ∀ k, (s.pool.senderList k).tempChunk ≠ none → ∃ r c, L.lease r = some (k, c)
  crash : s.crash = none

theorem represents_initial : Represents (State.initial n : State R) (.empty R n) where
  chunkCount := rfl
  length := List.length_replicate
  flags k := by
    refine ⟨fun h => ?_, fun h => absurd h (Leases.not_covers_empty k)⟩
    simp only [State.initial, SendPool.init, List.getD_eq_getElem?_getD,
      List.getElem?_replicate] at h
    split_ifs at h <;> cases h
  refs _ := rfl
  idle _ h := absurd rfl h
  crash := rfl

/-- What a reference says depends on its own `Sender` only. -/
theorem RefOk.congr {senders senders' : ℕ → Sender} {ref : Ref} {lease : Option (ℕ × ℕ)}
    (h : RefOk senders ref lease)
    (same : ∀ i c, lease = some (i, c) → senders' i = senders i) : RefOk senders' ref lease := by
  cases ref with
  | unused => exact h
  | released => exact h
  | live i => simpa only [RefOk, same i _ h.1] using h
  | releasing i pc =>
    cases pc with
    | test => simpa only [RefOk, same i _ h.1] using h
    | resetChunk index count => exact h
    | resetIndex index count => exact ⟨h.1, h.2.1, same i _ h.1 ▸ h.2.2⟩
    | resetCount index count => exact ⟨h.1, h.2.1, same i _ h.1 ▸ h.2.2⟩
    | deAlloc index count => exact ⟨h.1, h.2.1, same i _ h.1 ▸ h.2.2⟩
    | check result => cases result <;> exact h

/-- A run of free chunks begins with a `Sender` that is not in use, as it would otherwise belong to
a lease that covers its chunk. -/
theorem Represents.tempChunk_of_free (h : Represents s L) {i : ℕ}
    (hfree : s.pool.useFlag.getD i false = false) : (s.pool.senderList i).tempChunk = none := by
  by_contra hne
  obtain ⟨r', c, hlease⟩ := h.idle i hne
  have hpos := (L.inside r' i c hlease).1
  rw [(h.flags i).2 ⟨r', i, c, hlease, le_refl i, by omega⟩] at hfree
  cases hfree

/-- The chunks of a reference are those of its lease. -/
theorem Represents.mem_chunks (h : Represents s L) (r : R) (z : ℤ) :
    z ∈ s.chunks r ↔ ∃ i c : ℕ, L.lease r = some (i, c) ∧ (i : ℤ) ≤ z ∧ z < i + c := by
  have hnone : L.lease r = none →
      (z ∈ (∅ : Set ℤ) ↔ ∃ i c : ℕ, L.lease r = some (i, c) ∧ (i : ℤ) ≤ z ∧ z < i + c) := by
    intro hlease
    simp [hlease]
  have hsome : ∀ (i c : ℕ) (j : ℤ), L.lease r = some (i, c) → j = i →
      (z ∈ Set.Ico j (j + c) ↔ ∃ i c : ℕ, L.lease r = some (i, c) ∧ (i : ℤ) ≤ z ∧ z < i + c) := by
    rintro i c j hlease rfl
    rw [hlease, Set.mem_Ico]
    constructor
    · exact fun hz => ⟨i, c, rfl, hz⟩
    · rintro ⟨i', c', heq, hz⟩
      cases heq
      exact hz
  have hok := h.refs r
  unfold State.chunks
  cases href : s.ref r with
  | unused =>
    rw [href] at hok
    exact hnone hok
  | released =>
    rw [href] at hok
    exact hnone hok
  | live i =>
    rw [href] at hok
    exact hsome i _ _ hok.1 hok.2.2
  | releasing i pc =>
    rw [href] at hok
    cases pc with
    | test => exact hsome i _ _ hok.1 hok.2.2
    | resetChunk index count => exact hsome i _ _ hok.1 hok.2
    | resetIndex index count => exact hsome i _ _ hok.1 hok.2.1
    | resetCount index count => exact hsome i _ _ hok.1 hok.2.1
    | deAlloc index count => exact hsome i _ _ hok.1 hok.2.1
    | check result =>
      cases result with
      | false => exact hok.elim
      | true => exact hnone hok

variable [DecidableEq R]

/-- A reference goes on without touching the pool. -/
theorem Represents.setRef {ref : Ref} (h : Represents s L)
    (ok : RefOk s.pool.senderList ref (L.lease r)) : Represents (s.setRef r ref) L where
  chunkCount := h.chunkCount
  length := h.length
  flags := h.flags
  refs r' := by
    rcases eq_or_ne r' r with rfl | hne
    · simpa [State.setRef] using ok
    · simpa [State.setRef, hne] using h.refs r'
  idle := h.idle
  crash := h.crash

/-- The holder of a lease stores to its `Sender`. -/
theorem Represents.setSender {i c : ℕ} {sender : Sender} {ref : Ref} (h : Represents s L)
    (lease : L.lease r = some (i, c))
    (ok : RefOk (Function.update s.pool.senderList i sender) ref (some (i, c))) :
    Represents ((s.setSender i sender).setRef r ref) L where
  chunkCount := h.chunkCount
  length := h.length
  flags := h.flags
  refs r' := by
    rcases eq_or_ne r' r with rfl | hne
    · simpa [State.setRef, State.setSender, lease] using ok
    · have hok : RefOk (Function.update s.pool.senderList i sender) (s.ref r') (L.lease r') := by
        refine (h.refs r').congr fun i' c' hlease => Function.update_of_ne ?_ ..
        rintro rfl
        have hpos := (L.inside r i' c lease).1
        have hpos' := (L.inside r' i' c' hlease).1
        exact hne (Leases.eq_of_covers hlease lease ⟨le_refl i', by omega⟩ ⟨le_refl i', by omega⟩)
      simpa [State.setRef, State.setSender, hne] using hok
  idle k hk := by
    rcases eq_or_ne k i with rfl | hne
    · exact ⟨r, c, lease⟩
    · refine h.idle k ?_
      simpa [State.setRef, State.setSender, hne] using hk
  crash := h.crash

/-- `Alloc` grants a lease, if there is a run of free chunks. -/
theorem Represents.alloc (h : Represents s L) (fresh : L.lease r = none) (sendSize : UInt16) :
    (∃ pool, s.pool.alloc sendSize = .ok (pool, none)) ∨
    ∃ pool i, s.pool.alloc sendSize = .ok (pool, some i) ∧
      ∃ L' : Leases R n, Represents ({ s with pool := pool }.setRef r (.live i)) L' := by
  rcases hindex : s.pool.getAllocIndex (SendPool.chunksFor sendSize) with _ | i
  · exact .inl ⟨s.pool, by simp only [SendPool.alloc, hindex]⟩
  · right
    have hpos : 0 < SendPool.chunksFor sendSize := Nat.succ_pos _
    obtain ⟨hle, hfree⟩ := SendPool.getAllocIndex_spec hpos hindex
    have hcover : ∀ k, i ≤ k → k < i + SendPool.chunksFor sendSize → ¬ L.Covers k := by
      intro k h1 h2 hk
      rw [← h.flags k, hfree k h1 h2] at hk
      cases hk
    have hset : (s.pool.senderList i).setSendDataChunk (some i) i (SendPool.chunksFor sendSize) =
        .ok ⟨some i, i, SendPool.chunksFor sendSize⟩ :=
      Sender.setSendDataChunk_of_free (h.tempChunk_of_free (hfree i (le_refl i) (by omega))) i hpos
    obtain ⟨hlen, huse⟩ := SendPool.useLoop_spec (SendPool.chunksFor sendSize) i s.pool.useFlag hle
    refine ⟨_, i, by simp only [SendPool.alloc, hindex, hset]; rfl,
      L.grant r i _ hpos (h.length ▸ hle) hcover, ?_⟩
    refine ⟨h.chunkCount, hlen.trans h.length, fun k => ?_, fun r' => ?_, fun k hk => ?_, h.crash⟩
    · rw [Leases.covers_grant fresh, ← h.flags k]
      exact huse k
    · rw [Leases.grant_lease]
      rcases eq_or_ne r' r with rfl | hne
      · simp [State.setRef, RefOk]
      · have hok : RefOk (Function.update s.pool.senderList i
            ⟨some i, i, SendPool.chunksFor sendSize⟩) (s.ref r') (L.lease r') := by
          refine (h.refs r').congr fun i' c hlease => Function.update_of_ne ?_ ..
          rintro rfl
          have := (L.inside r' i' c hlease).1
          exact hcover i' (le_refl i') (by omega) ⟨r', i', c, hlease, le_refl i', by omega⟩
        simpa [State.setRef, hne] using hok
    · rw [Leases.grant_lease]
      rcases eq_or_ne k i with rfl | hne
      · exact ⟨r, _, Function.update_self ..⟩
      · obtain ⟨r', c, hlease⟩ := h.idle k (by simpa [State.setRef, hne] using hk)
        have hne' : r' ≠ r := by
          rintro rfl
          rw [fresh] at hlease
          cases hlease
        exact ⟨r', c, (Function.update_of_ne hne' ..).trans hlease⟩

/-- `SendPool::DeAlloc` drops the lease and returns true. -/
theorem Represents.deAlloc {i count : ℕ} (h : Represents s L) (lease : L.lease r = some (i, count))
    (null : (s.pool.senderList i).tempChunk = none) :
    ∃ pool, s.pool.deAlloc i count = .ok (pool, true) ∧
      Represents ({ s with pool := pool }.setRef r (.releasing i (.check true))) (L.drop r) := by
  obtain ⟨hpos, hle⟩ := L.inside r i count lease
  obtain ⟨hresult, hcount, hsenders, hlen, hflags⟩ :=
    SendPool.deAllocLoop_spec count i s.pool fun k h1 h2 =>
      (h.flags k).2 ⟨r, i, count, lease, h1, h2⟩
  have hchunks := h.chunkCount
  refine ⟨(SendPool.deAllocLoop i count s.pool).1, ?_, ?_⟩
  · rw [SendPool.deAlloc, if_neg (by omega), if_neg (by omega), Int.toNat_natCast, ← hresult]
  refine ⟨hcount.trans hchunks, hlen.trans h.length, fun k => ?_, fun r' => ?_, fun k hk => ?_,
    h.crash⟩
  · rw [Leases.covers_drop lease, ← h.flags k]
    exact hflags k
  · rw [Leases.drop_lease]
    change RefOk (SendPool.deAllocLoop i count s.pool).1.senderList _ _
    rw [hsenders]
    rcases eq_or_ne r' r with rfl | hne
    · simp [State.setRef, RefOk]
    · simpa [State.setRef, hne] using h.refs r'
  · change ((SendPool.deAllocLoop i count s.pool).1.senderList k).tempChunk ≠ none at hk
    rw [hsenders] at hk
    obtain ⟨r', c, hlease⟩ := h.idle k hk
    have hne : r' ≠ r := by
      rintro rfl
      rw [lease] at hlease
      cases hlease
      exact hk null
    exact ⟨r', c, (Function.update_of_ne hne ..).trans hlease⟩

/-- An access of `Sender::DeAlloc`. -/
theorem Represents.release {i : ℕ} {pc : ReleasePc} (h : Represents s L)
    (ref : s.ref r = .releasing i pc) :
    ∃ L' : Leases R n, Represents (deAllocStep s r i pc) L' := by
  have hok := h.refs r
  rw [ref] at hok
  cases pc with
  | test =>
    obtain ⟨hlease, hchunk, hindex⟩ := hok
    have hpos := (L.inside r i _ hlease).1
    refine ⟨L, ?_⟩
    rw [deAllocStep, if_neg (by simp [hchunk]), if_neg (by omega), if_neg hpos.ne']
    exact h.setRef ⟨hlease, hindex⟩
  | resetChunk index count =>
    obtain ⟨hlease, hindex⟩ := hok
    exact ⟨L, h.setSender hlease ⟨rfl, hindex, by simp⟩⟩
  | resetIndex index count =>
    obtain ⟨hlease, hindex, hnull⟩ := hok
    exact ⟨L, h.setSender hlease ⟨rfl, hindex, by simpa using hnull⟩⟩
  | resetCount index count =>
    obtain ⟨hlease, hindex, hnull⟩ := hok
    exact ⟨L, h.setSender hlease ⟨rfl, hindex, by simpa using hnull⟩⟩
  | deAlloc index count =>
    obtain ⟨hlease, rfl, hnull⟩ := hok
    obtain ⟨pool, hpool, hnew⟩ := h.deAlloc hlease hnull
    exact ⟨L.drop r, by simpa only [deAllocStep, hpool] using hnew⟩
  | check result =>
    cases result with
    | false => exact hok.elim
    | true => exact ⟨L, h.setRef hok⟩

theorem Represents.step {op : Op R} (h : Represents s L) (hstep : step s op = some s') :
    ∃ L' : Leases R n, Represents s' L' := by
  unfold Senders.step at hstep
  rw [if_neg (by simp [h.crash])] at hstep
  cases op with
  | alloc r sendSize =>
    simp only at hstep
    split_ifs at hstep with hunused
    have hfresh := h.refs r
    rw [not_not.1 hunused] at hfresh
    rcases h.alloc hfresh sendSize with ⟨pool, hpool⟩ | ⟨pool, i, hpool, L', hnew⟩
    · simp only [hpool, Option.some.injEq] at hstep
      exact ⟨L, hstep ▸ h⟩
    · simp only [hpool, Option.some.injEq] at hstep
      exact ⟨L', hstep ▸ hnew⟩
  | release r =>
    cases href : s.ref r with
    | live i =>
      simp only [href, Option.some.injEq] at hstep
      have hok := h.refs r
      rw [href] at hok
      exact ⟨L, hstep ▸ h.setRef hok⟩
    | _ =>
      simp only [href] at hstep
      cases hstep
  | next r =>
    cases href : s.ref r with
    | releasing i pc =>
      simp only [href, Option.some.injEq] at hstep
      exact hstep ▸ h.release href
    | _ =>
      simp only [href] at hstep
      cases hstep

theorem represents_of_reachable (h : (system R n).Reachable s) :
    ∃ L : Leases R n, Represents s L := by
  refine Transition.System.Reachable.invariant (P := fun s => ∃ L : Leases R n, Represents s L)
    ?_ ?_ h
  · rintro s rfl
    exact ⟨_, represents_initial⟩
  · rintro s op s' ⟨L, hL⟩ hstep
    exact hL.step hstep

/-- In every state that a pool of any size can reach, the chunks of the references lie inside the
pool and are disjoint, the flags mark exactly the chunks of references that are live or being
released, no two live references share a `Sender`, `SendPool::DeAlloc` has not returned false, and
no check has failed. -/
theorem send_chunk_ownership (h : (system R n).Reachable s) :
    (∀ r, s.chunks r ⊆ Set.Ico 0 (n : ℤ)) ∧
    (∀ r r', r ≠ r' → Disjoint (s.chunks r) (s.chunks r')) ∧
    (∀ k < n, s.pool.useFlag.getD k false = true ↔ ∃ r, (k : ℤ) ∈ s.chunks r) ∧
    (∀ r r' i, s.ref r = .live i → s.ref r' = .live i → r = r') ∧
    (∀ r i, s.ref r ≠ .releasing i (.check false)) ∧
    s.crash = none := by
  obtain ⟨L, hL⟩ := represents_of_reachable h
  refine ⟨fun r z hz => ?_, fun r r' hne => ?_, fun k _ => ?_, fun r r' i hr hr' => ?_,
    fun r i hr => ?_, hL.crash⟩
  · obtain ⟨i, c, hlease, h1, h2⟩ := (hL.mem_chunks r z).1 hz
    have := (L.inside r i c hlease).2
    exact ⟨by omega, by omega⟩
  · refine Set.disjoint_left.2 fun z hz hz' => ?_
    obtain ⟨i, c, hlease, h1, h2⟩ := (hL.mem_chunks r z).1 hz
    obtain ⟨i', c', hlease', h1', h2'⟩ := (hL.mem_chunks r' z).1 hz'
    have := L.apart r r' i c i' c' hne hlease hlease'
    omega
  · rw [hL.flags k]
    simp only [hL.mem_chunks, Leases.Covers]
    norm_cast
  · have hok := hL.refs r
    have hok' := hL.refs r'
    rw [hr] at hok
    rw [hr'] at hok'
    have hpos := (L.inside r i _ hok.1).1
    exact Leases.eq_of_covers hok.1 hok'.1 ⟨le_refl i, by omega⟩ ⟨le_refl i, by omega⟩
  · have hok := hL.refs r
    rw [hr] at hok
    exact hok

/-- A reference to three chunks is being released while the next one is handed out. -/
theorem send_chunk_ownership_overlap : ∃ s : State Bool,
    s.ref false = .releasing 0 (.resetIndex 0 3) ∧ s.ref true = .live 3 ∧
    Disjoint (s.chunks false) (s.chunks true) ∧ s.crash = none := by
  have hrun : ((system Bool 8).run (.initial 8) [.alloc false 2500, .release false, .next false,
      .next false, .alloc true 10]).any (fun s => decide (s.ref false =
        .releasing 0 (.resetIndex 0 3) ∧ s.ref true = .live 3)) = true := by
    decide +kernel
  obtain ⟨s, hs, hprop⟩ := (Option.any_eq_true _ _).1 hrun
  obtain ⟨hfalse, htrue⟩ := of_decide_eq_true hprop
  obtain ⟨-, hdisjoint, -, -, -, hcrash⟩ :=
    send_chunk_ownership (Transition.System.reachable_of_run (.init rfl) hs)
  exact ⟨s, hfalse, htrue, hdisjoint false true nofun, hcrash⟩

end Senders

end DhNet
