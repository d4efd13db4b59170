import DhNet.Core.SendPoolProof

/-!
# The chunks in use

`GetAllocIndex` goes through the flags once, with the length of the current run of free chunks and
its first index.  `m_useSize` is an `unsigned short`: `Alloc` adds the bytes of its chunks to it at
once, `DeAlloc` takes them off chunk by chunk, and both wrap around at 65536, which is 64 chunks.

* `searchLoop_complete`: the loop stops at or before any run that lies ahead of it.
* `getAllocIndex_first_fit`: the search returns the first run that is long enough.
* `Accounted`: `m_useSize` is the size of the chunks in use, modulo 65536.
* `usable_size_iff`: it is that size exactly as long as fewer than 64 chunks are in use.
-/

namespace DhNet

namespace SendPool

/-! ## The search -/

/-- `count` free chunks from `i` on. -/
def FreeRun (pool : SendPool) (i count : ℕ) : Prop :=
  i + count ≤ pool.useFlag.length ∧
    ∀ k, i ≤ k → k < i + count → pool.useFlag.getD k false = false

/-- A run that begins with the current streak of free chunks or behind it is not missed. -/
theorem searchLoop_complete {count i : ℕ} (all : List Bool) (hlen : i + count ≤ all.length)
    (hfree : ∀ k, i ≤ k → k < i + count → all.getD k false = false) :
    ∀ (flags : List Bool) (flagIndex maxCount : ℕ) (allocIndex : Option ℕ),
      all.drop flagIndex = flags → maxCount ≤ flagIndex →
      allocIndex.getD flagIndex = flagIndex - maxCount → maxCount < count →
      flagIndex - maxCount ≤ i →
      ∃ j ≤ i, searchLoop count flags flagIndex maxCount allocIndex = (count, some j) := by
  intro flags
  induction flags with
  | nil =>
    intro flagIndex maxCount allocIndex hdrop hle hindex hlt hi
    have := List.drop_eq_nil_iff.1 hdrop
    omega
  | cons flag flags ih =>
    intro flagIndex maxCount allocIndex hdrop hle hindex hlt hi
    have hdrop' : all.drop (flagIndex + 1) = flags := by
      rw [← List.tail_drop, hdrop]
      rfl
    cases flag with
    | false =>
      rw [searchLoop, hindex]
      split_ifs with hcount
      · exact ⟨flagIndex - maxCount, hi, by rw [hcount]⟩
      · refine ih (flagIndex + 1) (maxCount + 1) _ hdrop' (by omega) ?_ (by omega) (by omega)
        rw [Option.getD_some]
        omega
    | true =>
      have hused : all.getD flagIndex false = true := by
        rw [List.getD_eq_getElem?_getD, ← List.head?_drop, hdrop]
        rfl
      have hbehind : flagIndex < i := by
        by_contra h
        rw [hfree flagIndex (by omega) (by omega)] at hused
        cases hused
      exact ih (flagIndex + 1) 0 none hdrop' (Nat.zero_le _) rfl (by omega) (by omega)

/-- The search returns an index that is not behind any run. -/
theorem FreeRun.exists_le {pool : SendPool} {i count : ℕ} (h : pool.FreeRun i count)
    (hpos : 0 < count) : ∃ j ≤ i, pool.getAllocIndex count = some j := by
  obtain ⟨j, hj, hloop⟩ := searchLoop_complete pool.useFlag h.1 h.2 pool.useFlag 0 0 none rfl le_rfl
    rfl hpos (Nat.zero_le _)
  refine ⟨j, hj, ?_⟩
  rw [getAllocIndex, hloop]
  exact if_pos rfl

/-- `GetAllocIndex` finds a run exactly if there is one. -/
theorem getAllocIndex_isSome_iff {pool : SendPool} {count : ℕ} (hpos : 0 < count) :
    (∃ i, pool.getAllocIndex count = some i) ↔ ∃ i, pool.FreeRun i count := by
  constructor
  · rintro ⟨i, h⟩
    exact ⟨i, getAllocIndex_spec hpos h⟩
  · rintro ⟨i, h⟩
    obtain ⟨j, -, hj⟩ := h.exists_le hpos
    exact ⟨j, hj⟩

/-- `GetAllocIndex` returns the least index from which on enough flags exist and are all false, and
`-1` exactly if there is none. -/
theorem getAllocIndex_first_fit (pool : SendPool) {count : ℕ} (hcount : 1 ≤ count) :
    (∀ i, pool.getAllocIndex count = some i ↔
      pool.FreeRun i count ∧ ∀ j, pool.FreeRun j count → i ≤ j) ∧
    (pool.getAllocIndex count = none ↔ ¬ ∃ i, pool.FreeRun i count) := by
  refine ⟨fun i => ⟨fun h => ⟨getAllocIndex_spec hcount h, fun j hj => ?_⟩, ?_⟩, ?_⟩
  · obtain ⟨i', hle, hi'⟩ := hj.exists_le hcount
    obtain rfl := Option.some.inj (h.symm.trans hi')
    exact hle
  · rintro ⟨hrun, hleast⟩
    obtain ⟨j, hle, hj⟩ := hrun.exists_le hcount
    rw [hj, le_antisymm hle (hleast j (getAllocIndex_spec hcount hj))]
  · rw [← getAllocIndex_isSome_iff hcount, ← Option.ne_none_iff_exists', not_not]

/-- The first run is one short, the second one ends with the flags. -/
theorem getAllocIndex_first_fit_at_end :
    let pool : SendPool := ⟨5, [false, true, true, false, false], fun _ => .init, 3072⟩
    pool.getAllocIndex 2 = some 3 ∧ pool.getAllocIndex 3 = none ∧
      pool.FreeRun 3 2 ∧ (∀ j, pool.FreeRun j 2 → 3 ≤ j) ∧ ¬ ∃ i, pool.FreeRun i 3 := by
  intro pool
  obtain ⟨hrun, hleast⟩ := ((getAllocIndex_first_fit pool (by decide : 1 ≤ 2)).1 3).1 rfl
  exact ⟨rfl, rfl, hrun, hleast, (getAllocIndex_first_fit pool (by decide : 1 ≤ 3)).2.1 rfl⟩

/-! ## The byte counter -/

/-- `SendPool::GetUsableSize`. -/
def getUsableSize (pool : SendPool) : UInt16 := pool.useSize

/-- A call of the pool; `store` is a store to a member of a `Sender`, which `Sender::DeAlloc` makes
before it calls the pool. -/
inductive Call where
  | alloc (sendSize : UInt16)
  | deAlloc (index count : ℕ)
  | store (i : ℕ) (sender : Sender)
  deriving DecidableEq, Repr

/-- The pool after a call; there is none when a check fails. -/
def call (pool : SendPool) : Call → Option SendPool
  | .alloc sendSize =>
      match pool.alloc sendSize with
      | .error _ => none
      | .ok (pool, _) => some pool
  | .deAlloc index count =>
      match pool.deAlloc index count with
      | .error _ => none
      | .ok (pool, _) => some pool
  | .store i sender => some { pool with senderList := Function.update pool.senderList i sender }

/-- Sequences of calls on a pool of this size. -/
def system (count : ℕ) : Transition.System SendPool Call := ⟨(· = .init count), call⟩

/-- `m_useSize` is the size of the chunks in use, modulo 65536. -/
def Accounted (pool : SendPool) : Prop :=
  pool.useSize.toNat = sizeofDataChunk * pool.useFlag.count true % 65536

variable {pool pool' : SendPool}

theorem count_set_true {flags : List Bool} {i : ℕ} (hi : i < flags.length)
    (hfree : flags.getD i false = false) :
    (flags.set i true).count true = flags.count true + 1 := by
  have hget : flags[i] = false := by rwa [List.getD_eq_getElem _ _ hi] at hfree
  simp [List.count_set hi, hget]

theorem count_set_false {flags : List Bool} {i : ℕ} (hused : flags.getD i false = true) :
    (flags.set i false).count true + 1 = flags.count true := by
  have hi : i < flags.length := by
    by_contra hge
    rw [List.getD_eq_default _ _ (not_lt.1 hge)] at hused
    cases hused
  have hget : flags[i] = true := by rwa [List.getD_eq_getElem _ _ hi] at hused
  have hpos : 0 < flags.count true := List.count_pos_iff.2 (hget ▸ List.getElem_mem hi)
  rw [List.count_set hi, hget]
  exact Nat.sub_add_cancel hpos

/-- `Alloc` sets as many flags as it allocates chunks. -/
theorem count_useLoop (n : ℕ) : ∀ (i : ℕ) (flags : List Bool), i + n ≤ flags.length →
    (∀ k, i ≤ k → k < i + n → flags.getD k false = false) →
    (useLoop i n flags).count true = flags.count true + n := by
  induction n with
  | zero => exact fun i flags _ _ => rfl
  | succ n ih =>
    intro i flags hlen hfree
    rw [useLoop, ih (i + 1) (flags.set i true) (by rw [List.length_set]; omega),
      count_set_true (by omega) (hfree i le_rfl (by omega))]
    · omega
    · intro k hik hk
      rw [getD_set, if_neg (by omega)]
      exact hfree k (by omega) (by omega)

theorem Accounted.alloc (h : pool.Accounted) {sendSize : UInt16} {sender : Option ℕ}
    (halloc : pool.alloc sendSize = .ok (pool', sender)) : pool'.Accounted := by
  rw [SendPool.alloc] at halloc
  cases hindex : pool.getAllocIndex (chunksFor sendSize) with
  | none =>
    rw [hindex] at halloc
    cases halloc
    exact h
  | some i =>
    rw [hindex] at halloc
    have hpos : 0 < chunksFor sendSize := Nat.succ_pos _
    obtain ⟨hlen, hfree⟩ := getAllocIndex_spec hpos hindex
    have hcount := count_useLoop _ i pool.useFlag hlen hfree
    cases hset : (pool.senderList i).setSendDataChunk (some i) i (chunksFor sendSize) with
    | error failed => simp [hset, bind, Except.bind] at halloc
    | ok sender =>
      simp only [hset, bind, Except.bind, pure, Except.pure, Except.ok.injEq, Prod.mk.injEq]
        at halloc
      obtain ⟨rfl, -⟩ := halloc
      simp only [Accounted, sizeofDataChunk] at h ⊢
      rw [hcount, UInt16.toNat_add, UInt16.toNat_ofNat', h]
      omega

/-- A chunk that `DeAlloc` gives back is taken off the counter. -/
theorem Accounted.deAllocLoop (n : ℕ) : ∀ (i : ℕ) (pool : SendPool), pool.Accounted →
    (deAllocLoop i n pool).1.Accounted := by
  induction n with
  | zero => exact fun i pool h => h
  | succ n ih =>
    intro i pool h
    rw [SendPool.deAllocLoop]
    split_ifs with hflag
    · exact h
    · refine ih (i + 1) _ ?_
      have hcount := count_set_false (Bool.of_not_eq_false hflag)
      simp only [Accounted, sizeofDataChunk] at h ⊢
      rw [UInt16.toNat_sub, UInt16.toNat_ofNat', h]
      omega

theorem Accounted.deAlloc (h : pool.Accounted) {index : ℤ} {count : ℕ} {result : Bool}
    (hdeAlloc : pool.deAlloc index count = .ok (pool', result)) : pool'.Accounted := by
  rw [SendPool.deAlloc] at hdeAlloc
  split_ifs at hdeAlloc
  have hloop : SendPool.deAllocLoop index.toNat count pool = (pool', result) := by
    simpa using hdeAlloc
  have haccounted := Accounted.deAllocLoop count index.toNat pool h
  rwa [hloop] at haccounted

theorem Accounted.call (h : pool.Accounted) {c : Call} (hcall : pool.call c = some pool') :
    pool'.Accounted := by
  cases c with
  | alloc sendSize =>
    rw [SendPool.call] at hcall
    split at hcall
    · cases hcall
    · next halloc =>
      cases hcall
      exact h.alloc halloc
  | deAlloc index count =>
    rw [SendPool.call] at hcall
    split at hcall
    · cases hcall
    · next hdeAlloc =>
      cases hcall
      exact h.deAlloc hdeAlloc
  | store i sender =>
    cases hcall
    exact h

theorem accounted_of_reachable {count : ℕ} (reach : (system count).Reachable pool) :
    pool.Accounted := by
  refine reach.invariant (P := Accounted) ?_ fun _ _ _ h hcall => h.call hcall
  rintro pool rfl
  simp [Accounted, init, List.count_replicate]

/-- After any calls on a pool of any size, `GetUsableSize` returns 1024 times the number of flags
that are set exactly if fewer than 64 flags are set. -/
theorem usable_size_iff {count : ℕ} (reach : (system count).Reachable pool) :
    pool.getUsableSize.toNat = sizeofDataChunk * pool.useFlag.count true ↔
      pool.useFlag.count true < 64 := by
  have haccounted := accounted_of_reachable reach
  simp only [Accounted, sizeofDataChunk] at haccounted
  rw [getUsableSize, haccounted, sizeofDataChunk]
  omega

/-- A packet of three chunks is allocated and its first two chunks are given back. -/
theorem usable_size_iff_partly_given_back : ∃ pool, (system 100).Reachable pool ∧
    pool.useFlag.count true = 1 ∧ pool.getUsableSize.toNat = sizeofDataChunk * 1 := by
  obtain ⟨pool, hrun, hcount⟩ : ∃ pool, (system 100).run (.init 100)
      [.alloc 3000, .deAlloc 0 2] = some pool ∧ pool.useFlag.count true = 1 :=
    Transition.System.exists_final (by decide +kernel) (by decide +kernel)
  have reach : (system 100).Reachable pool := Transition.System.reachable_of_run (.init rfl) hrun
  have husable := (usable_size_iff reach).2 (by rw [hcount]; decide)
  rw [hcount] at husable
  exact ⟨pool, reach, hcount, husable⟩

/-- In the pool of the server, a packet of 65535 bytes takes 64 chunks, and the counter stays at
zero. -/
theorem usable_size_wraps : ∃ pool, (system 30000).Reachable pool ∧
    pool.useFlag.count true = 64 ∧ pool.getUsableSize = 0 := by
  obtain ⟨pool, hrun, hcount⟩ : ∃ pool, (system 30000).run (.init 30000)
      [.alloc 65535] = some pool ∧ pool.useFlag.count true = 64 ∧ pool.getUsableSize = 0 :=
    Transition.System.exists_final (by decide +kernel) (by decide +kernel)
  exact ⟨pool, Transition.System.reachable_of_run (.init rfl) hrun, hcount⟩

end SendPool

end DhNet
