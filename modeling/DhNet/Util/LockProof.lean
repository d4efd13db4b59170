import DhNet.Lib.Counting
import DhNet.Util.Lock

/-!
# The reader-writer lock excludes

The invariant `Inv` names the owner: the thread whose id the word carries, from the exchange that
put it there to the store that removes it.  The upper half of the word is the owner's id, the lower
half the number of read holds, and `m_writeCount` the owner's depth.  A thread that finds its own id
in the word is the owner and stays it until it acts itself, which is why the recursive paths may act
on a load that is no longer current.

* `Inv.set`: what a step of one thread has to establish for the invariant to be kept.
* `inv_of_reach`: the invariant holds in every state that disciplined callers reach.
* `rwLock_safety`: mutual exclusion, the meaning of the members, and no crash but a timeout.
-/

namespace DhNet

namespace Lock

/-! ## The word -/

theorem toNat_lockThreadId (flag : BitVec 32) : (lockThreadId flag).toNat = flag.toNat / 65536 := by
  have hlt := flag.isLt
  rw [lockThreadId, BitVec.toNat_ushiftRight, BitVec.toNat_and, Nat.shiftRight_and_distrib]
  have hmask : writeThreadMask.toNat >>> 16 = 2 ^ 16 - 1 := by decide
  rw [hmask, Nat.and_two_pow_sub_one_eq_mod, Nat.shiftRight_eq_div_pow]
  omega

theorem toNat_readCount (flag : BitVec 32) :
    (flag &&& readCountMask).toNat = flag.toNat % 65536 := by
  have hmask : readCountMask.toNat = 2 ^ 16 - 1 := by decide
  rw [BitVec.toNat_and, hmask, Nat.and_two_pow_sub_one_eq_mod]

theorem toNat_desired {threadId : BitVec 32} (h : threadId.toNat < 65536) :
    ((threadId <<< 16) &&& writeThreadMask).toNat = threadId.toNat * 65536 := by
  have hmask : writeThreadMask = readCountMask <<< 16 := by decide
  rw [hmask, ← BitVec.shiftLeft_and_distrib, BitVec.toNat_shiftLeft, toNat_readCount,
    Nat.mod_eq_of_lt h, Nat.shiftLeft_eq]
  omega

/-! ## Threads -/

namespace Thread

/-- The word carries the id of this thread. -/
def Owns (th : Thread) : Prop := 0 < th.writes ∨ th.pc = .writeAcquired ∨ th.pc = .unlockStore

/-- What a thread holds at each point of its calls. -/
def AtPoint (th : Thread) : Prop :=
  match th.pc with
  | .idle | .readLoad => True
  | .writeLoad => th.reads = 0
  | .writeNested | .unlockLoad | .unlockCount => th.reads = 0 ∧ 0 < th.writes
  | .writeTick | .writeExchange _ _ | .writeTimeout _ | .writeAcquired | .unlockStore =>
      th.holds = []
  | .readNested => 0 < th.writes
  | .readTick | .readExpected _ _ | .readTimeout _ => th.writes = 0
  | .readExchange _ _ expected => th.writes = 0 ∧ expected.toNat < 65536
  | .readSub => th.holds.head? = some .read

/-- A thread follows the discipline, and owns the word or not. -/
structure Fits (th : Thread) (owns : Prop) : Prop where
  ordered : th.holds.Pairwise fun a b => a = .write → b = .write
  owner : owns ↔ th.Owns
  point : th.AtPoint

/-! ### Acquiring and releasing -/

variable {th : Thread} {pc : Pc} {holds : List Mode}

theorem reads_cons_read : reads ⟨pc, .read :: holds⟩ = reads ⟨pc, holds⟩ + 1 := by simp [reads]

theorem writes_cons_read : writes ⟨pc, .read :: holds⟩ = writes ⟨pc, holds⟩ := by simp [writes]

theorem reads_cons_write : reads ⟨pc, .write :: holds⟩ = reads ⟨pc, holds⟩ := by simp [reads]

theorem writes_cons_write : writes ⟨pc, .write :: holds⟩ = writes ⟨pc, holds⟩ + 1 := by
  simp [writes]

theorem holds_eq_nil_iff : th.holds = [] ↔ th.reads = 0 ∧ th.writes = 0 := by
  unfold reads writes
  rw [List.count_eq_zero, List.count_eq_zero, List.eq_nil_iff_forall_not_mem]
  constructor
  · exact fun h => ⟨h _, h _⟩
  · rintro ⟨hread, hwrite⟩ (_ | _)
    · exact hwrite
    · exact hread

/-- A thread that releases a write first holds no read. -/
theorem reads_of_head (ordered : th.holds.Pairwise fun a b => a = .write → b = .write)
    (h : th.holds.head? = some .write) : th.reads = 0 ∧ 0 < th.writes := by
  rcases th with ⟨pc, _ | ⟨mode, holds⟩⟩
  · cases h
  · obtain rfl : mode = .write := Option.some.inj h
    rw [reads_cons_write, writes_cons_write]
    refine ⟨List.count_eq_zero.2 fun hmem => ?_, Nat.succ_pos _⟩
    cases (List.pairwise_cons.1 ordered).1 _ hmem rfl

/-- Without reads the last acquisition is a write, if there is one. -/
theorem exists_cons_write (hreads : th.reads = 0) (hwrites : 0 < th.writes) :
    ∃ rest, th.holds = .write :: rest := by
  rcases th with ⟨pc, _ | ⟨_ | _, holds⟩⟩
  · cases hwrites
  · exact ⟨holds, rfl⟩
  · rw [reads_cons_read] at hreads
    cases hreads

end Thread

/-! ## The invariant -/

section Owner

variable {T : Type*} {owner : Option T}

/-- The id that the word carries for this owner. -/
def ThreadIds.ofOwner (ids : ThreadIds T) (owner : Option T) : ℕ :=
  owner.elim 0 fun t => (ids.lThreadId t).toNat

theorem ThreadIds.ofOwner_lt (ids : ThreadIds T) (owner : Option T) :
    ids.ofOwner owner < 65536 := by
  cases owner with
  | none =>
    show 0 < 65536
    decide
  | some t => exact ids.lt t

theorem ThreadIds.ofOwner_eq_iff (ids : ThreadIds T) (owner : Option T) (t : T) :
    (ids.lThreadId t).toNat = ids.ofOwner owner ↔ owner = some t := by
  cases owner with
  | none =>
    have hpos := ids.pos t
    simp only [ofOwner, Option.elim_none, reduceCtorEq, iff_false]
    omega
  | some u =>
    rw [Option.some.injEq]
    exact ⟨fun h => (ids.injective (BitVec.eq_of_toNat_eq h)).symm, fun h => by rw [h]; rfl⟩

theorem ThreadIds.ofOwner_eq_zero (ids : ThreadIds T) (h : ids.ofOwner owner = 0) :
    owner = none := by
  cases owner with
  | none => rfl
  | some t => exact absurd h (ids.pos t).ne'

/-- The owner's depth after the step of one thread. -/
theorem writes_set [DecidableEq T] (s : State T) (owner : Option T) (c : Cells) (t : T)
    (th : Thread) (crash : Option Crash) :
    (owner.elim 0 fun u => ((s.set c t th crash).thread u).writes) =
      if owner = some t then th.writes else owner.elim 0 fun u => (s.thread u).writes := by
  cases owner with
  | none => rfl
  | some u =>
    by_cases hu : u = t
    · subst hu
      simp [State.set]
    · simp [State.set, hu]

end Owner

section Invariant

variable {T : Type*} [Fintype T] {ids : ThreadIds T} {s s' : State T} {owner owner' : Option T}
  {t : T}

/-- The meaning of the members, for a given owner. -/
structure Inv (ids : ThreadIds T) (s : State T) (owner : Option T) : Prop where
  flag : s.cells.lockFlag.toNat = ids.ofOwner owner * 65536 + s.readHolds
  count : s.cells.writeCount.toNat = owner.elim 0 fun t => (s.thread t).writes
  bounded : s.Bounded
  fits : ∀ t, (s.thread t).Fits (owner = some t)
  exclusive : ∀ t, owner = some t → ∀ u, u ≠ t → (s.thread u).reads = 0
  crash : s.crash = none ∨ s.crash = some .lockTimeout

theorem Inv.initial : Inv ids .initial none where
  flag := by simp [State.initial, State.readHolds, Thread.reads, ThreadIds.ofOwner, emptyFlag]
  count := rfl
  bounded := by simp [State.Bounded, State.initial, State.readHolds, Thread.reads, Thread.writes]
  fits t := ⟨.nil, by simp [Thread.Owns, Thread.writes, State.initial], trivial⟩
  exclusive t h := by cases h
  crash := .inl rfl

theorem Inv.lockThreadId_eq (inv : Inv ids s owner) :
    (lockThreadId s.cells.lockFlag).toNat = ids.ofOwner owner := by
  have hreads := inv.bounded.1
  rw [toNat_lockThreadId, inv.flag]
  omega

theorem Inv.readCount_eq (inv : Inv ids s owner) :
    (s.cells.lockFlag &&& readCountMask).toNat = s.readHolds := by
  have hreads := inv.bounded.1
  rw [toNat_readCount, inv.flag]
  omega

/-- A thread finds its own id exactly when it is the owner. -/
theorem Inv.own_id_iff (inv : Inv ids s owner) (t : T) :
    ids.lThreadId t = lockThreadId s.cells.lockFlag ↔ owner = some t := by
  rw [← ids.ofOwner_eq_iff, ← inv.lockThreadId_eq, BitVec.toNat_inj]

theorem reads_le_readHolds (s : State T) (t : T) : (s.thread t).reads ≤ s.readHolds :=
  Finset.single_le_sum (f := fun t => (s.thread t).reads) (fun _ _ => Nat.zero_le _)
    (Finset.mem_univ t)

/-- The read holds of the owner are all there are. -/
theorem Inv.readHolds_owner (inv : Inv ids s (some t)) : s.readHolds = (s.thread t).reads :=
  Finset.sum_eq_single t (fun u _ hne => inv.exclusive t rfl u hne)
    fun h => absurd (Finset.mem_univ t) h

variable [DecidableEq T]

theorem readHolds_set (s : State T) (c : Cells) (t : T) (th : Thread) (crash : Option Crash) :
    (s.set c t th crash).readHolds + (s.thread t).reads = s.readHolds + th.reads :=
  Counting.sum_update_add s.thread Thread.reads t th

/-- What the step of one thread has to establish. -/
theorem Inv.set (inv : Inv ids s owner) {c : Cells} {th : Thread} {crash : Option Crash}
    (bounded : (s.set c t th crash).Bounded)
    (others : ∀ u, u ≠ t → (owner' = some u ↔ owner = some u))
    (flag : c.lockFlag.toNat = ids.ofOwner owner' * 65536 + (s.set c t th crash).readHolds)
    (count : c.writeCount.toNat = owner'.elim 0 fun u => ((s.set c t th crash).thread u).writes)
    (fits : th.Fits (owner' = some t))
    (exclusive : owner' = some t → ∀ u, u ≠ t → (s.thread u).reads = 0)
    (quiet : ∀ u, u ≠ t → owner' = some u → th.reads = 0)
    (hcrash : crash = none ∨ crash = some .lockTimeout) : Inv ids (s.set c t th crash) owner' where
  flag := flag
  count := count
  bounded := bounded
  fits u := by
    by_cases hu : u = t
    · subst hu
      simpa [State.set] using fits
    · obtain ⟨hordered, howner, hpoint⟩ := inv.fits u
      simp only [State.set, Function.update_of_ne hu]
      exact ⟨hordered, (others u hu).trans howner, hpoint⟩
  exclusive u hu v hv := by
    by_cases hvt : v = t
    · subst hvt
      simpa [State.set] using quiet u (Ne.symm hv) hu
    · simp only [State.set, Function.update_of_ne hvt]
      by_cases hut : u = t
      · subst hut
        exact exclusive hu v hvt
      · exact inv.exclusive u ((others u hut).1 hu) v hv
  crash := hcrash

/-- A step that keeps the members and the holds. -/
theorem Inv.move (inv : Inv ids s owner) {pc : Pc} {crash : Option Crash}
    (bounded : (s.set s.cells t ⟨pc, (s.thread t).holds⟩ crash).Bounded)
    (owns : Thread.Owns ⟨pc, (s.thread t).holds⟩ ↔ (s.thread t).Owns)
    (point : Thread.AtPoint ⟨pc, (s.thread t).holds⟩)
    (hcrash : crash = none ∨ crash = some .lockTimeout) :
    Inv ids (s.set s.cells t ⟨pc, (s.thread t).holds⟩ crash) owner := by
  obtain ⟨hordered, howner, -⟩ := inv.fits t
  refine inv.set bounded (fun _ _ => Iff.rfl) ?_ ?_ ⟨hordered, howner.trans owns.symm, point⟩
    (fun h => inv.exclusive t h) (fun u hu h => inv.exclusive u h t hu.symm) hcrash
  · have hreads := readHolds_set s s.cells t ⟨pc, (s.thread t).holds⟩ crash
    have hsame : Thread.reads ⟨pc, (s.thread t).holds⟩ = (s.thread t).reads := rfl
    rw [inv.flag]
    omega
  · rw [writes_set, inv.count]
    split_ifs with h
    · subst h
      rfl
    · rfl

theorem toNat_add_one {w : ℕ} {x : BitVec w} (h : x.toNat + 1 < 2 ^ w) :
    (x + 1).toNat = x.toNat + 1 := by
  show (x + BitVec.ofNat w 1).toNat = x.toNat + 1
  rw [BitVec.toNat_add, BitVec.toNat_ofNat, Nat.add_mod_mod, Nat.mod_eq_of_lt h]

theorem toNat_sub_one {w : ℕ} {x : BitVec w} (hw : 0 < w) (h : 0 < x.toNat) :
    (x - 1).toNat = x.toNat - 1 := by
  have hone : (1 : BitVec w).toNat = 1 := Nat.mod_eq_of_lt (Nat.one_lt_two_pow hw.ne')
  rw [BitVec.toNat_sub_of_le (by rw [BitVec.le_def, hone]; exact h), hone]

/-- `m_writeCount++` by the owner. -/
theorem Inv.countUp (inv : Inv ids s (some t)) (reads : (s.thread t).reads = 0)
    (bounded : (s.set ⟨s.cells.lockFlag, s.cells.writeCount + 1⟩ t
      ⟨.idle, .write :: (s.thread t).holds⟩ none).Bounded) :
    Inv ids (s.set ⟨s.cells.lockFlag, s.cells.writeCount + 1⟩ t
      ⟨.idle, .write :: (s.thread t).holds⟩ none) (some t) := by
  obtain ⟨hordered, -, -⟩ := inv.fits t
  have hwrites : Thread.writes ⟨.idle, .write :: (s.thread t).holds⟩ =
      (s.thread t).writes + 1 := Thread.writes_cons_write
  have hreads : Thread.reads ⟨.idle, .write :: (s.thread t).holds⟩ = (s.thread t).reads :=
    Thread.reads_cons_write
  have hdepth : (s.thread t).writes + 1 < 65536 := by
    have hbound := bounded.2 t
    simp only [State.set, Function.update_self] at hbound
    omega
  refine inv.set bounded (fun _ _ => Iff.rfl) ?_ ?_ ⟨?_, ?_, trivial⟩
    (fun h => inv.exclusive t h) (fun u hu h => absurd (Option.some.inj h).symm hu) (.inl rfl)
  · have hset := readHolds_set s ⟨s.cells.lockFlag, s.cells.writeCount + 1⟩ t
      ⟨.idle, .write :: (s.thread t).holds⟩ none
    rw [inv.flag]
    omega
  · have hcount : s.cells.writeCount.toNat = (s.thread t).writes := inv.count
    rw [writes_set, if_pos rfl, hwrites, toNat_add_one (by omega), hcount]
  · refine List.pairwise_cons.2 ⟨fun mode hmem _ => ?_, hordered⟩
    cases mode with
    | write => rfl
    | read => exact absurd hmem (List.count_eq_zero.1 reads)
  · exact iff_of_true rfl (.inl (by omega))

/-- A successful exchange in `WriteLock`. -/
theorem Inv.acquire (inv : Inv ids s owner) (holds : (s.thread t).holds = [])
    (empty : s.cells.lockFlag = emptyFlag)
    (bounded : (s.set ⟨(ids.lThreadId t <<< 16) &&& writeThreadMask, s.cells.writeCount⟩ t
      ⟨.writeAcquired, (s.thread t).holds⟩ none).Bounded) :
    Inv ids (s.set ⟨(ids.lThreadId t <<< 16) &&& writeThreadMask, s.cells.writeCount⟩ t
      ⟨.writeAcquired, (s.thread t).holds⟩ none) (some t) := by
  have hflag := inv.flag
  have hzero : emptyFlag.toNat = 0 := rfl
  rw [empty, hzero] at hflag
  have hnone : owner = none := ids.ofOwner_eq_zero (by omega)
  subst hnone
  refine inv.set bounded (fun u hu => by simp [hu.symm]) ?_ ?_ ⟨?_, ?_, holds⟩ ?_
    (fun u hu h => absurd (Option.some.inj h).symm hu) (.inl rfl)
  · have hset := readHolds_set s ⟨(ids.lThreadId t <<< 16) &&& writeThreadMask,
      s.cells.writeCount⟩ t ⟨.writeAcquired, (s.thread t).holds⟩ none
    have hsame : Thread.reads ⟨.writeAcquired, (s.thread t).holds⟩ = (s.thread t).reads := rfl
    have hid : ids.ofOwner (some t) = (ids.lThreadId t).toNat := rfl
    rw [toNat_desired (ids.lt t), hid]
    omega
  · have hcount : s.cells.writeCount.toNat = 0 := inv.count
    rw [writes_set, if_pos rfl, hcount]
    exact (Thread.holds_eq_nil_iff.1 holds).2.symm
  · rw [holds]
    exact .nil
  · exact iff_of_true rfl (.inr (.inl rfl))
  · intro _ u _
    have hle := reads_le_readHolds s u
    omega

/-- `--m_writeCount` by the owner, which goes on to the store when the count drops to zero. -/
theorem Inv.countDown (inv : Inv ids s (some t)) (reads : (s.thread t).reads = 0)
    (writes : 0 < (s.thread t).writes)
    (bounded : (s.set ⟨s.cells.lockFlag, s.cells.writeCount - 1⟩ t
      ⟨if s.cells.writeCount - 1 = 0 then .unlockStore else .idle,
        (s.thread t).holds.erase .write⟩ none).Bounded) :
    Inv ids (s.set ⟨s.cells.lockFlag, s.cells.writeCount - 1⟩ t
      ⟨if s.cells.writeCount - 1 = 0 then .unlockStore else .idle,
        (s.thread t).holds.erase .write⟩ none) (some t) := by
  obtain ⟨hordered, -, -⟩ := inv.fits t
  obtain ⟨rest, hholds⟩ := Thread.exists_cons_write reads writes
  have hcount : s.cells.writeCount.toNat = (s.thread t).writes := inv.count
  have hdown : (s.cells.writeCount - 1).toNat = (s.thread t).writes - 1 := by
    rw [toNat_sub_one (by decide) (by omega), hcount]
  have herase : (s.thread t).holds.erase .write = rest := by rw [hholds, List.erase_cons_head]
  rw [herase] at bounded ⊢
  generalize hpc : (if s.cells.writeCount - 1 = 0 then Pc.unlockStore else Pc.idle) = pc at *
  have hthread : s.thread t = ⟨(s.thread t).pc, .write :: rest⟩ := by rw [← hholds]
  have hwrites : Thread.writes ⟨pc, rest⟩ + 1 = (s.thread t).writes := by
    rw [hthread, Thread.writes_cons_write]
    rfl
  have hreads : Thread.reads ⟨pc, rest⟩ = (s.thread t).reads := by
    rw [hthread, Thread.reads_cons_write]
    rfl
  -- The depth is zero exactly when the store follows.
  have hzero : pc = .unlockStore ∧ Thread.writes ⟨pc, rest⟩ = 0 ∨
      pc = .idle ∧ 0 < Thread.writes ⟨pc, rest⟩ := by
    have hiff : s.cells.writeCount - 1 = 0 ↔ (s.thread t).writes - 1 = 0 := by
      rw [← BitVec.toNat_inj, hdown]
      rfl
    split_ifs at hpc with h
    · have hdepth := hiff.1 h
      exact .inl ⟨hpc.symm, by omega⟩
    · have hdepth := mt hiff.2 h
      exact .inr ⟨hpc.symm, by omega⟩
  refine inv.set bounded (fun _ _ => Iff.rfl) ?_ ?_ ⟨?_, ?_, ?_⟩
    (fun h => inv.exclusive t h) (fun u hu h => absurd (Option.some.inj h).symm hu) (.inl rfl)
  · have hset := readHolds_set s ⟨s.cells.lockFlag, s.cells.writeCount - 1⟩ t ⟨pc, rest⟩ none
    rw [inv.flag]
    omega
  · rw [writes_set, if_pos rfl, hdown]
    omega
  · rw [hholds] at hordered
    exact hordered.tail
  · refine iff_of_true rfl ?_
    rcases hzero with ⟨h, -⟩ | ⟨-, h⟩
    · exact .inr (.inr h)
    · exact .inl h
  · rcases hzero with ⟨rfl, h⟩ | ⟨rfl, -⟩
    · exact Thread.holds_eq_nil_iff.2 ⟨hreads.trans reads, h⟩
    · trivial

/-- The store that ends the ownership. -/
theorem Inv.store (inv : Inv ids s (some t)) (holds : (s.thread t).holds = [])
    (bounded : (s.set ⟨emptyFlag, s.cells.writeCount⟩ t ⟨.idle, (s.thread t).holds⟩ none).Bounded) :
    Inv ids (s.set ⟨emptyFlag, s.cells.writeCount⟩ t ⟨.idle, (s.thread t).holds⟩ none) none := by
  obtain ⟨hreads, hwrites⟩ := Thread.holds_eq_nil_iff.1 holds
  have hcount : s.cells.writeCount.toNat = (s.thread t).writes := inv.count
  refine inv.set bounded (fun u hu => by simp [hu.symm]) ?_ (hcount.trans hwrites) ⟨?_, ?_, trivial⟩
    (fun h => nomatch h) (fun _ _ h => nomatch h) (.inl rfl)
  · have hset := readHolds_set s ⟨emptyFlag, s.cells.writeCount⟩ t ⟨.idle, (s.thread t).holds⟩ none
    have hsame : Thread.reads ⟨.idle, (s.thread t).holds⟩ = (s.thread t).reads := rfl
    have howner := inv.readHolds_owner
    have hid : ids.ofOwner none = 0 := rfl
    have hempty : emptyFlag.toNat = 0 := rfl
    rw [hid, hempty]
    omega
  · rw [holds]
    exact .nil
  · refine iff_of_false (fun h => nomatch h) ?_
    rintro (h | h | h)
    · exact absurd h (by rw [show Thread.writes ⟨.idle, _⟩ = (s.thread t).writes from rfl]; omega)
    · cases h
    · cases h

/-- A read hold is added by the owner, or by any thread while there is none. -/
theorem Inv.addRead (inv : Inv ids s owner) (howner : owner = none ∨ owner = some t)
    (owns : 0 < (s.thread t).writes ∨ ¬ (s.thread t).Owns) {flag : BitVec 32}
    (hflag : flag = s.cells.lockFlag + 1)
    (bounded : (s.set ⟨flag, s.cells.writeCount⟩ t
      ⟨.idle, .read :: (s.thread t).holds⟩ none).Bounded) :
    Inv ids (s.set ⟨flag, s.cells.writeCount⟩ t
      ⟨.idle, .read :: (s.thread t).holds⟩ none) owner := by
  obtain ⟨hordered, howns, -⟩ := inv.fits t
  have hwrites : Thread.writes ⟨.idle, .read :: (s.thread t).holds⟩ = (s.thread t).writes :=
    Thread.writes_cons_read
  have hreads : Thread.reads ⟨.idle, .read :: (s.thread t).holds⟩ = (s.thread t).reads + 1 :=
    Thread.reads_cons_read
  have hset := readHolds_set s ⟨flag, s.cells.writeCount⟩ t
    ⟨.idle, .read :: (s.thread t).holds⟩ none
  refine inv.set bounded (fun _ _ => Iff.rfl) ?_ ?_ ⟨?_, ?_, trivial⟩
    (fun h => inv.exclusive t h) (fun u hu h => ?_) (.inl rfl)
  · have hlt := ids.ofOwner_lt owner
    have hbound := bounded.1
    have hold := inv.flag
    have hup : flag.toNat = s.cells.lockFlag.toNat + 1 := by
      rw [hflag]
      exact toNat_add_one (by omega)
    show flag.toNat = _
    omega
  · rw [writes_set, hwrites]
    show s.cells.writeCount.toNat = _
    rw [inv.count]
    split_ifs with h
    · subst h
      rfl
    · rfl
  · exact List.pairwise_cons.2 ⟨(fun _ _ h => nomatch h), hordered⟩
  · rw [howns]
    unfold Thread.Owns
    rw [hwrites]
    rcases owns with h | h
    · exact iff_of_true (.inl h) (.inl h)
    · refine iff_of_false h ?_
      rintro (hpos | h' | h')
      · exact h (.inl hpos)
      · cases h'
      · cases h'
  · rcases howner with rfl | rfl
    · cases h
    · exact absurd (Option.some.inj h).symm hu

/-- `ReadUnlock` finds a positive count. -/
theorem Inv.subRead (inv : Inv ids s owner) (pc : (s.thread t).pc = .readSub)
    (head : (s.thread t).holds.head? = some .read) {crash : Option Crash}
    (hcrash : (if s.cells.lockFlag &&& readCountMask = 0 then some Crash.multipleUnlock else none) =
      crash)
    (bounded : (s.set ⟨s.cells.lockFlag - 1, s.cells.writeCount⟩ t
      ⟨.idle, (s.thread t).holds.erase .read⟩ crash).Bounded) :
    Inv ids (s.set ⟨s.cells.lockFlag - 1, s.cells.writeCount⟩ t
      ⟨.idle, (s.thread t).holds.erase .read⟩ crash) owner := by
  obtain ⟨hordered, howns, -⟩ := inv.fits t
  obtain ⟨rest, hholds⟩ := List.head?_eq_some_iff.1 head
  have herase : (s.thread t).holds.erase .read = rest := by rw [hholds, List.erase_cons_head]
  rw [herase] at bounded ⊢
  have hthread : s.thread t = ⟨(s.thread t).pc, .read :: rest⟩ := by rw [← hholds]
  have hwrites : Thread.writes ⟨.idle, rest⟩ = (s.thread t).writes := by
    rw [hthread, Thread.writes_cons_read]
    rfl
  have hreads : Thread.reads ⟨.idle, rest⟩ + 1 = (s.thread t).reads := by
    rw [hthread, Thread.reads_cons_read]
    rfl
  have hle := reads_le_readHolds s t
  have hset := readHolds_set s ⟨s.cells.lockFlag - 1, s.cells.writeCount⟩ t ⟨.idle, rest⟩ crash
  have hflag := inv.flag
  have hpositive : s.cells.lockFlag &&& readCountMask ≠ 0 := by
    intro h
    have hcount := inv.readCount_eq
    rw [h, BitVec.ofNat_eq_ofNat, BitVec.toNat_zero] at hcount
    omega
  rw [if_neg hpositive] at hcrash
  refine inv.set bounded (fun _ _ => Iff.rfl) ?_ ?_ ⟨?_, ?_, trivial⟩
    (fun h => inv.exclusive t h) (fun u hu h => ?_) (.inl hcrash.symm)
  · show (s.cells.lockFlag - 1).toNat = _
    rw [toNat_sub_one (by decide) (by omega)]
    omega
  · rw [writes_set, hwrites]
    show s.cells.writeCount.toNat = _
    rw [inv.count]
    split_ifs with h
    · subst h
      rfl
    · rfl
  · rw [hholds] at hordered
    exact hordered.tail
  · rw [howns]
    unfold Thread.Owns
    rw [hwrites, pc]
    simp
  · have hquiet := inv.exclusive u h t hu.symm
    omega

/-! ## Every step -/

/-- Between the points at which only completed acquisitions count, a thread keeps the word. -/
def Pc.Settled (pc : Pc) : Prop := pc ≠ .writeAcquired ∧ pc ≠ .unlockStore

instance (pc : Pc) : Decidable pc.Settled := inferInstanceAs (Decidable (_ ∧ _))

theorem Thread.owns_iff (th : Thread) (h : th.pc.Settled) : th.Owns ↔ 0 < th.writes := by
  unfold Owns
  simp [h.1, h.2]

theorem Inv.moveTo (inv : Inv ids s owner) {pc : Pc} {crash : Option Crash}
    (settled : (s.thread t).pc.Settled) (settled' : pc.Settled)
    (bounded : (s.set s.cells t ⟨pc, (s.thread t).holds⟩ crash).Bounded)
    (point : Thread.AtPoint ⟨pc, (s.thread t).holds⟩)
    (hcrash : crash = none ∨ crash = some .lockTimeout) :
    ∃ owner', Inv ids (s.set s.cells t ⟨pc, (s.thread t).holds⟩ crash) owner' := by
  refine ⟨owner, inv.move bounded ?_ point hcrash⟩
  rw [Thread.owns_iff _ settled, Thread.owns_iff ⟨pc, (s.thread t).holds⟩ settled']
  rfl

/-- The load with which an acquisition starts. -/
theorem Inv.load (inv : Inv ids s owner) (settled : (s.thread t).pc.Settled) {own other : Pc}
    (hown : own.Settled) (hother : other.Settled)
    (bounded : (s.set s.cells t ⟨if ids.lThreadId t = lockThreadId s.cells.lockFlag then own
      else other, (s.thread t).holds⟩ none).Bounded)
    (pown : 0 < (s.thread t).writes → Thread.AtPoint ⟨own, (s.thread t).holds⟩)
    (pother : (s.thread t).writes = 0 → Thread.AtPoint ⟨other, (s.thread t).holds⟩) :
    ∃ owner', Inv ids (s.set s.cells t ⟨if ids.lThreadId t = lockThreadId s.cells.lockFlag then own
      else other, (s.thread t).holds⟩ none) owner' := by
  have hwrites : ids.lThreadId t = lockThreadId s.cells.lockFlag ↔ 0 < (s.thread t).writes := by
    rw [inv.own_id_iff, (inv.fits t).owner, Thread.owns_iff _ settled]
  split_ifs at bounded ⊢ with h
  · exact inv.moveTo settled hown bounded (pown (hwrites.1 h)) (.inl rfl)
  · exact inv.moveTo settled hother bounded
      (pother (Nat.eq_zero_of_not_pos (mt hwrites.2 h))) (.inl rfl)

/-- A failed exchange: the next attempt, or the look at the clock. -/
theorem Inv.retry (inv : Inv ids s owner) (settled : (s.thread t).pc.Settled) {again timeout : Pc}
    {more : Prop} [Decidable more] {c : Cells} {th : Thread} {crash : Option Crash}
    (hnext : (if more then some (s.cells, (⟨again, (s.thread t).holds⟩ : Thread), none)
      else some (s.cells, ⟨timeout, (s.thread t).holds⟩, none)) = some (c, th, crash))
    (hagain : again.Settled) (htimeout : timeout.Settled)
    (bounded : (s.set c t th crash).Bounded)
    (pagain : Thread.AtPoint ⟨again, (s.thread t).holds⟩)
    (ptimeout : Thread.AtPoint ⟨timeout, (s.thread t).holds⟩) :
    ∃ owner', Inv ids (s.set c t th crash) owner' := by
  split_ifs at hnext
  · obtain ⟨rfl, rfl, rfl⟩ := by simpa using hnext
    exact inv.moveTo settled hagain bounded pagain (.inl rfl)
  · obtain ⟨rfl, rfl, rfl⟩ := by simpa using hnext
    exact inv.moveTo settled htimeout bounded ptimeout (.inl rfl)

/-- The look at the clock: `LOCK_TIMEOUT`, or another round of attempts. -/
theorem Inv.timeout (inv : Inv ids s owner) (settled : (s.thread t).pc.Settled) {again : Pc}
    {late : Prop} [Decidable late] {c : Cells} {th : Thread} {crash : Option Crash}
    (hnext : (if late then some (s.cells, s.thread t, some Crash.lockTimeout)
      else some (s.cells, ⟨again, (s.thread t).holds⟩, none)) = some (c, th, crash))
    (hagain : again.Settled) (bounded : (s.set c t th crash).Bounded)
    (pagain : Thread.AtPoint ⟨again, (s.thread t).holds⟩) :
    ∃ owner', Inv ids (s.set c t th crash) owner' := by
  split_ifs at hnext
  · obtain ⟨rfl, rfl, rfl⟩ := by simpa using hnext
    exact inv.moveTo settled settled bounded (inv.fits t).point (.inr rfl)
  · obtain ⟨rfl, rfl, rfl⟩ := by simpa using hnext
    exact inv.moveTo settled hagain bounded pagain (.inl rfl)

/-- The next access of a thread keeps the invariant. -/
theorem Inv.next (inv : Inv ids s owner) {now : UInt64} {c : Cells} {th : Thread}
    {crash : Option Crash}
    (hnext : Lock.next (ids.lThreadId t) now s.cells (s.thread t) = some (c, th, crash))
    (bounded : (s.set c t th crash).Bounded) :
    ∃ owner', Inv ids (s.set c t th crash) owner' := by
  obtain ⟨hordered, howns, hpoint⟩ := inv.fits t
  unfold Lock.next at hnext
  unfold Thread.AtPoint at hpoint
  have hsettled : ∀ {pc : Pc}, (s.thread t).pc = pc → pc.Settled → (s.thread t).pc.Settled := by
    rintro pc rfl h
    exact h
  cases hpc : (s.thread t).pc with
  | idle =>
    rw [hpc] at hnext
    cases hnext
  | writeLoad =>
    simp only [hpc, Option.some.injEq, Prod.mk.injEq] at hnext hpoint
    obtain ⟨rfl, rfl, rfl⟩ := hnext
    exact inv.load (hsettled hpc (by decide)) (by decide) (by decide) bounded
      (fun h => ⟨hpoint, h⟩) fun h => Thread.holds_eq_nil_iff.2 ⟨hpoint, h⟩
  | writeNested =>
    simp only [hpc, Option.some.injEq, Prod.mk.injEq] at hnext hpoint
    obtain ⟨rfl, rfl, rfl⟩ := hnext
    obtain rfl := howns.2 (.inl hpoint.2)
    exact ⟨_, inv.countUp hpoint.1 bounded⟩
  | writeTick =>
    simp only [hpc, Option.some.injEq, Prod.mk.injEq] at hnext hpoint
    obtain ⟨rfl, rfl, rfl⟩ := hnext
    exact inv.moveTo (hsettled hpc (by decide)) ⟨nofun, nofun⟩ bounded hpoint (.inl rfl)
  | writeExchange beginTick spinCount =>
    simp only [hpc] at hnext hpoint
    by_cases hempty : s.cells.lockFlag = emptyFlag
    · simp only [if_pos hempty, Option.some.injEq, Prod.mk.injEq] at hnext
      obtain ⟨rfl, rfl, rfl⟩ := hnext
      exact ⟨_, inv.acquire hpoint hempty bounded⟩
    · rw [if_neg hempty] at hnext
      exact inv.retry (hsettled hpc ⟨nofun, nofun⟩) hnext ⟨nofun, nofun⟩ ⟨nofun, nofun⟩ bounded
        hpoint hpoint
  | writeAcquired =>
    simp only [hpc, Option.some.injEq, Prod.mk.injEq] at hnext hpoint
    obtain ⟨rfl, rfl, rfl⟩ := hnext
    obtain rfl := howns.2 (.inr (.inl hpc))
    exact ⟨_, inv.countUp (Thread.holds_eq_nil_iff.1 hpoint).1 bounded⟩
  | writeTimeout beginTick =>
    simp only [hpc] at hnext hpoint
    exact inv.timeout (hsettled hpc ⟨nofun, nofun⟩) hnext ⟨nofun, nofun⟩ bounded hpoint
  | unlockLoad =>
    simp only [hpc] at hnext hpoint
    obtain rfl := howns.2 (.inl hpoint.2)
    -- All read holds would be the owner's, which has none.
    have hzero : s.cells.lockFlag &&& readCountMask = 0 := by
      rw [← BitVec.toNat_inj, inv.readCount_eq, inv.readHolds_owner, hpoint.1]
      rfl
    simp only [hzero, ne_eq, not_true_eq_false, if_false, Option.some.injEq, Prod.mk.injEq] at hnext
    obtain ⟨rfl, rfl, rfl⟩ := hnext
    exact inv.moveTo (hsettled hpc (by decide)) (by decide) bounded hpoint (.inl rfl)
  | unlockCount =>
    simp only [hpc, Option.some.injEq, Prod.mk.injEq] at hnext hpoint
    obtain ⟨rfl, rfl, rfl⟩ := hnext
    obtain rfl := howns.2 (.inl hpoint.2)
    exact ⟨_, inv.countDown hpoint.1 hpoint.2 bounded⟩
  | unlockStore =>
    simp only [hpc, Option.some.injEq, Prod.mk.injEq] at hnext hpoint
    obtain ⟨rfl, rfl, rfl⟩ := hnext
    obtain rfl := howns.2 (.inr (.inr hpc))
    exact ⟨_, inv.store hpoint bounded⟩
  | readLoad =>
    simp only [hpc, Option.some.injEq, Prod.mk.injEq] at hnext
    obtain ⟨rfl, rfl, rfl⟩ := hnext
    exact inv.load (hsettled hpc (by decide)) (by decide) (by decide) bounded id id
  | readNested =>
    simp only [hpc, Option.some.injEq, Prod.mk.injEq] at hnext hpoint
    obtain ⟨rfl, rfl, rfl⟩ := hnext
    exact ⟨_, inv.addRead (.inr (howns.2 (.inl hpoint))) (.inl hpoint) rfl bounded⟩
  | readTick =>
    simp only [hpc, Option.some.injEq, Prod.mk.injEq] at hnext hpoint
    obtain ⟨rfl, rfl, rfl⟩ := hnext
    exact inv.moveTo (hsettled hpc (by decide)) ⟨nofun, nofun⟩ bounded hpoint (.inl rfl)
  | readExpected beginTick spinCount =>
    simp only [hpc, Option.some.injEq, Prod.mk.injEq] at hnext hpoint
    obtain ⟨rfl, rfl, rfl⟩ := hnext
    refine inv.moveTo (hsettled hpc ⟨nofun, nofun⟩) ⟨nofun, nofun⟩ bounded ⟨hpoint, ?_⟩ (.inl rfl)
    rw [toNat_readCount]
    exact Nat.mod_lt _ (by decide)
  | readExchange beginTick spinCount expected =>
    simp only [hpc] at hnext hpoint
    by_cases hexpected : s.cells.lockFlag = expected
    · simp only [if_pos hexpected, Option.some.injEq, Prod.mk.injEq] at hnext
      obtain ⟨rfl, rfl, rfl⟩ := hnext
      -- The expected value has no owner in it.
      have hnone : owner = none := by
        have hflag := inv.flag
        rw [hexpected] at hflag
        exact ids.ofOwner_eq_zero (by omega)
      have hfree : ¬ (s.thread t).Owns := by
        rw [← howns, hnone]
        exact nofun
      exact ⟨_, inv.addRead (.inl hnone) (.inr hfree) (by rw [hexpected]) bounded⟩
    · rw [if_neg hexpected] at hnext
      exact inv.retry (hsettled hpc ⟨nofun, nofun⟩) hnext ⟨nofun, nofun⟩ ⟨nofun, nofun⟩ bounded
        hpoint.1 hpoint.1
  | readTimeout beginTick =>
    simp only [hpc] at hnext hpoint
    exact inv.timeout (hsettled hpc ⟨nofun, nofun⟩) hnext ⟨nofun, nofun⟩ bounded hpoint
  | readSub =>
    simp only [hpc, Option.some.injEq, Prod.mk.injEq] at hnext hpoint
    obtain ⟨rfl, rfl, hcrash⟩ := hnext
    exact ⟨_, inv.subRead hpc hpoint hcrash bounded⟩

/-- A disciplined step keeps the invariant. -/
theorem Inv.step (inv : Inv ids s owner) {a : T × Op} (disciplined : Disciplined ids s a)
    (hstep : Lock.step ids s a = some s') : ∃ owner', Inv ids s' owner' := by
  obtain ⟨t, op⟩ := a
  obtain ⟨hop, hbounded⟩ := disciplined
  have bounded := hbounded s' hstep
  obtain ⟨-, hstep⟩ := Option.ite_none_left_eq_some.1 hstep
  obtain ⟨hordered, -, -⟩ := inv.fits t
  have hcall : ∀ pc : Pc, pc.Settled → Thread.AtPoint ⟨pc, (s.thread t).holds⟩ →
      (s.thread t).pc = .idle → s' = s.set s.cells t ⟨pc, (s.thread t).holds⟩ none →
        ∃ owner', Inv ids s' owner' := by
    rintro pc hsettled hpoint hidle rfl
    exact inv.moveTo (by rw [hidle]; decide) hsettled bounded hpoint (.inl rfl)
  match op with
  | .next now =>
    obtain ⟨⟨c, th, crash⟩, hnext, rfl⟩ := Option.map_eq_some_iff.1 hstep
    exact inv.next hnext bounded
  | .lock .write =>
    obtain ⟨hidle, heq⟩ := Option.ite_none_right_eq_some.1 hstep
    exact hcall .writeLoad (by decide) (List.count_eq_zero.2 hop) hidle (Option.some.inj heq).symm
  | .lock .read =>
    obtain ⟨hidle, heq⟩ := Option.ite_none_right_eq_some.1 hstep
    exact hcall .readLoad (by decide) trivial hidle (Option.some.inj heq).symm
  | .unlock .write =>
    obtain ⟨hidle, heq⟩ := Option.ite_none_right_eq_some.1 hstep
    exact hcall .unlockLoad (by decide) (Thread.reads_of_head hordered hop) hidle
      (Option.some.inj heq).symm
  | .unlock .read =>
    obtain ⟨hidle, heq⟩ := Option.ite_none_right_eq_some.1 hstep
    exact hcall .readSub (by decide) hop hidle (Option.some.inj heq).symm

theorem inv_of_reach (h : (system ids).Reach (Disciplined ids) s) : ∃ owner, Inv ids s owner := by
  refine Transition.System.Reach.invariant (P := fun s => ∃ owner, Inv ids s owner) ?_ ?_ h
  · rintro s rfl
    exact ⟨none, .initial⟩
  · rintro s a s' - ⟨owner, inv⟩ ha hstep
    exact inv.step ha hstep

/-- In every state that disciplined callers reach, a thread that holds the lock for writing excludes
all others; the word carries the owner's id and the number of read holds, `m_writeCount` the
owner's depth; and neither `INVALID_UNLOCK_ORDER` nor `MULTIPLE_UNLOCK` has occurred. -/
theorem rwLock_safety (h : (system ids).Reach (Disciplined ids) s) :
    (∀ t, .write ∈ (s.thread t).holds → ∀ u, u ≠ t → (s.thread u).holds = []) ∧
    (∀ t, (s.thread t).Owns →
      lockThreadId s.cells.lockFlag = ids.lThreadId t ∧
      s.cells.writeCount.toNat = (s.thread t).writes ∧
      ∀ u, u ≠ t → ¬ (s.thread u).Owns ∧ (s.thread u).holds = []) ∧
    ((∀ t, ¬ (s.thread t).Owns) →
      lockThreadId s.cells.lockFlag = 0 ∧ s.cells.writeCount = 0) ∧
    (s.cells.lockFlag &&& readCountMask).toNat = s.readHolds ∧
    s.crash ≠ some .invalidUnlockOrder ∧ s.crash ≠ some .multipleUnlock := by
  obtain ⟨owner, inv⟩ := inv_of_reach h
  have hothers : ∀ t, owner = some t → ∀ u, u ≠ t →
      ¬ (s.thread u).Owns ∧ (s.thread u).holds = [] := by
    rintro t rfl u hu
    have hfree : ¬ (s.thread u).Owns := by
      rw [← (inv.fits u).owner]
      exact fun heq => hu (Option.some.inj heq).symm
    have hwrites : (s.thread u).writes = 0 := Nat.eq_zero_of_not_pos fun hpos => hfree (.inl hpos)
    exact ⟨hfree, Thread.holds_eq_nil_iff.2 ⟨inv.exclusive t rfl u hu, hwrites⟩⟩
  refine ⟨?_, ?_, ?_, inv.readCount_eq, ?_, ?_⟩
  · intro t hmem u hu
    have howner := (inv.fits t).owner.2 (.inl (List.count_pos_iff.2 hmem))
    exact (hothers t howner u hu).2
  · intro t howns
    have howner := (inv.fits t).owner.2 howns
    refine ⟨((inv.own_id_iff t).2 howner).symm, ?_, hothers t howner⟩
    subst howner
    exact inv.count
  · intro hfree
    have hnone : owner = none := by
      cases owner with
      | none => rfl
      | some t => exact absurd ((inv.fits t).owner.1 rfl) (hfree t)
    subst hnone
    exact ⟨BitVec.eq_of_toNat_eq inv.lockThreadId_eq, BitVec.eq_of_toNat_eq inv.count⟩
  · rcases inv.crash with hcrash | hcrash <;> simp [hcrash]
  · rcases inv.crash with hcrash | hcrash <;> simp [hcrash]

end Invariant

/-- Two threads with the ids 1 and 2. -/
def twoThreads : ThreadIds (Fin 2) where
  lThreadId t := BitVec.ofNat 32 (t.val + 1)
  injective := by decide
  pos := by decide
  lt := by decide

/-- The first thread nests a read in its write while the second one spins. -/
theorem rwLock_safety_nested_read :
    ∃ s : State (Fin 2), (system twoThreads).Reach (Disciplined twoThreads) s ∧
      (s.thread 0).holds = [.read, .write] ∧ (s.thread 1).pc = .writeExchange 7 1 ∧
      s.cells.lockFlag = 0x00010001 ∧ (s.thread 1).holds = [] := by
  have hrun : (system twoThreads).runWhen (fun s a => decide (Disciplined twoThreads s a)) .initial
      [(0, .lock .write), (0, .next 5), (1, .lock .write), (0, .next 5), (1, .next 6),
        (0, .next 6), (1, .next 7), (0, .next 7), (0, .lock .read), (1, .next 8), (0, .next 8),
        (0, .next 9)] = some _ := rfl
  have hreach := (Transition.System.reach_of_runWhen (.init rfl) hrun).mono
    fun _ _ h => of_decide_eq_true h
  have hsafety := rwLock_safety hreach
  exact ⟨_, hreach, rfl, rfl, rfl, hsafety.1 0 (by decide) 1 (by decide)⟩

end Lock

end DhNet
