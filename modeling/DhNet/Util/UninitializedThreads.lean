import DhNet.Util.LockProof

/-!
# The reader-writer lock on threads without an id

`ThreadManager::InitTLS` gives a worker its `LThreadId`.  On a thread that never called it the id is
0, and 0 is what the upper half of the word reads while nobody writes.  Such a thread takes a free
word for its own: `WriteLock` only raises `m_writeCount`, and `ReadLock` adds its hold without
looking whether a writer has come in since the load.

* `Sheltered`: a thread without an id writes only while nobody else uses the lock, and adds a read
  hold on the recursive path only while no id is in the word.
* `Shadows`: in such runs the lock follows one in which every thread has an id of its own.  A thread
  without an id is behind there where it takes the recursive path, and while it writes its id is in
  the word of the other lock only.
* `exclusive_of_reach`: so the lock excludes as it should, and does not crash but for a timeout.
-/

namespace DhNet

namespace Lock

/-! ## Threads without an id -/

/-- The points of `WriteLock` and `WriteUnlock`. -/
def Pc.writing : Pc → Bool
  | .writeLoad | .writeNested | .writeTick | .writeExchange _ _ | .writeAcquired | .writeTimeout _
  | .unlockLoad | .unlockCount | .unlockStore => true
  | _ => false

/-- The points of `WriteLock` behind the recursive path. -/
def Pc.contending : Pc → Bool
  | .writeTick | .writeExchange _ _ | .writeAcquired | .writeTimeout _ => true
  | _ => false

/-- The thread holds the lock for writing or is in a call of `WriteLock` or `WriteUnlock`. -/
def Thread.Writing (th : Thread) : Prop := .write ∈ th.holds ∨ th.pc.writing = true

instance (th : Thread) : Decidable th.Writing := inferInstanceAs (Decidable (_ ∨ _))

section Model

variable {T : Type*} [DecidableEq T] (ids : ThreadIds T) (initTls : T → Bool)

/-- `LThreadId`: the id given by `InitTLS`, and 0 on a thread that never called it. -/
def localId (t : T) : BitVec 32 := if initTls t then ids.lThreadId t else 0

/-- One step of a thread. -/
def localStep (s : State T) (a : T × Op) : Option (State T) :=
  if s.crash.isSome then none
  else
    match a.2 with
    | .next now =>
        (next (localId ids initTls a.1) now s.cells (s.thread a.1)).map fun r =>
          s.set r.1 a.1 r.2.1 r.2.2
    | op =>
        if (s.thread a.1).pc = .idle then
          op.entry.map fun pc => s.set s.cells a.1 ⟨pc, (s.thread a.1).holds⟩ none
        else none

/-- The threads that use one lock, some of them without an id. -/
def localSystem : Transition.System (State T) (T × Op) := ⟨(· = .initial), localStep ids initTls⟩

/-- What a thread may do while threads without an id are around: no call begins while another one of
them writes, one of them calls `WriteLock` only while nobody else uses the lock, and adds a read
hold on the recursive path only while no id is in the word. -/
def Spared (s : State T) (t : T) : Op → Prop
  | .lock mode =>
      (∀ u, u ≠ t → initTls u = false → ¬ (s.thread u).Writing) ∧
        (initTls t = false → mode = .write → ∀ u, u ≠ t → s.thread u = ⟨.idle, []⟩)
  | .unlock _ => True
  | .next _ =>
      initTls t = false → (s.thread t).pc = .readNested → lockThreadId s.cells.lockFlag = 0

instance [Fintype T] (s : State T) (t : T) : (op : Op) → Decidable (Spared initTls s t op)
  | .lock _ => inferInstanceAs (Decidable (_ ∧ _))
  | .unlock _ => inferInstanceAs (Decidable True)
  | .next _ => inferInstanceAs (Decidable (_ → _ → _))

/-- A step of callers that respect the order and the bounds, and spare the threads without an id. -/
def Sheltered [Fintype T] (s : State T) (a : T × Op) : Prop :=
  a.2.Ordered (s.thread a.1).holds ∧ (∀ s' ∈ localStep ids initTls s a, s'.Bounded) ∧
    Spared initTls s a.1 a.2

instance [Fintype T] (s : State T) (a : T × Op) : Decidable (Sheltered ids initTls s a) :=
  inferInstanceAs (Decidable (_ ∧ _ ∧ _))

end Model

/-! ## The lock with an id for every thread -/

/-- What the id of a thread adds to the word. -/
def idBits (threadId : BitVec 32) : BitVec 32 := (threadId <<< 16) &&& writeThreadMask

theorem readCount_add_idBits {threadId : BitVec 32} (hlt : threadId.toNat < 65536)
    (flag : BitVec 32) : (flag + idBits threadId) &&& readCountMask = flag &&& readCountMask := by
  rw [← BitVec.toNat_inj, toNat_readCount, toNat_readCount, BitVec.toNat_add, idBits,
    toNat_desired hlt]
  omega

/-- A thread without an id and its counterpart: the same, or behind at the start of the loop of
`ReadLock` or `WriteLock` when it has taken the recursive path. -/
inductive Lags : Thread → Thread → Prop
  | same {th : Thread} (fast : th.pc.contending = false) : Lags th th
  | read {holds : List Mode} : Lags ⟨.readNested, holds⟩ ⟨.readTick, holds⟩
  | write {holds : List Mode} : Lags ⟨.writeNested, holds⟩ ⟨.writeTick, holds⟩

theorem Lags.holds {th th' : Thread} (h : Lags th th') : th'.holds = th.holds := by
  cases h <;> rfl

theorem Lags.of_idle {th th' : Thread} (h : Lags th th') (hpc : th.pc = .idle) : th' = th := by
  cases h with
  | same => rfl
  | read | write => cases hpc

theorem Lags.cases {th th' : Thread} (h : Lags th th') :
    (th' = th ∧ th.pc.contending = false) ∨
      (th.pc = .readNested ∧ th' = ⟨.readTick, th.holds⟩) ∨
      (th.pc = .writeNested ∧ th' = ⟨.writeTick, th.holds⟩) := by
  cases h with
  | same fast => exact .inl ⟨rfl, fast⟩
  | read => exact .inr (.inl ⟨rfl, rfl⟩)
  | write => exact .inr (.inr ⟨rfl, rfl⟩)

theorem Lags.writing {th th' : Thread} (h : Lags th th') (owns : th'.Owns) : th.Writing := by
  rcases owns with hwrites | hpc | hpc
  · rw [Thread.writes, h.holds] at hwrites
    exact .inl (List.count_pos_iff.1 hwrites)
  · cases h with
    | same fast =>
      rw [hpc] at fast
      cases fast
    | read | write => cases hpc
  · cases h with
    | same fast => exact .inr (by rw [hpc]; rfl)
    | read | write => cases hpc

section Shadow

variable {T : Type*} {ids : ThreadIds T} {initTls : T → Bool} {s r : State T} {t : T}

/-- The second lock follows the first one, and a thread without an id that writes is alone. -/
structure Shadows (ids : ThreadIds T) (initTls : T → Bool) (s r : State T) : Prop where
  count : r.cells.writeCount = s.cells.writeCount
  crash : r.crash = s.crash
  free : (∀ t, initTls t = false → ¬ (r.thread t).Owns) → r.cells.lockFlag = s.cells.lockFlag
  owned : ∀ t, initTls t = false → (r.thread t).Owns →
    r.cells.lockFlag = s.cells.lockFlag + idBits (ids.lThreadId t)
  worker : ∀ t, initTls t = true → r.thread t = s.thread t
  lags : ∀ t, initTls t = false → Lags (s.thread t) (r.thread t)
  alone : ∀ t, initTls t = false → (s.thread t).Writing → ∀ u, u ≠ t → s.thread u = ⟨.idle, []⟩

theorem Shadows.initial : Shadows ids initTls .initial .initial where
  count := rfl
  crash := rfl
  free _ := rfl
  owned t _ owns := by
    rcases owns with h | h | h
    · cases h
    · cases h
    · cases h
  worker _ _ := rfl
  lags _ _ := .same rfl
  alone t _ writing := by
    rcases writing with h | h
    · cases h
    · cases h

theorem Shadows.holds (sh : Shadows ids initTls s r) (t : T) :
    (r.thread t).holds = (s.thread t).holds := by
  cases h : initTls t with
  | true => rw [sh.worker t h]
  | false => exact (sh.lags t h).holds

theorem Shadows.of_idle (sh : Shadows ids initTls s r) (hpc : (s.thread t).pc = .idle) :
    r.thread t = s.thread t := by
  cases h : initTls t with
  | true => exact sh.worker t h
  | false => exact (sh.lags t h).of_idle hpc

/-- While a thread is in a call or holds the lock, no other one without an id writes. -/
theorem Shadows.spared (sh : Shadows ids initTls s r) (busy : s.thread t ≠ ⟨.idle, []⟩) (u : T)
    (hu : u ≠ t) (huninit : initTls u = false) : ¬ (s.thread u).Writing :=
  fun writing => busy (sh.alone u huninit writing t hu.symm)

/-- The word shows no id while a thread without one writes. -/
theorem Shadows.lockThreadId_of_owns [Fintype T] {owner : Option T}
    (sh : Shadows ids initTls s r) (inv : Inv ids r owner) (huninit : initTls t = false)
    (owns : (r.thread t).Owns) :
    lockThreadId s.cells.lockFlag = 0 := by
  obtain rfl := (inv.fits t).owner.2 owns
  have hflag := inv.flag
  have hreads := inv.bounded.1
  have hid : ids.ofOwner (some t) = (ids.lThreadId t).toNat := rfl
  rw [sh.owned t huninit owns, BitVec.toNat_add, idBits, toNat_desired (ids.lt t), hid] at hflag
  have hlt := s.cells.lockFlag.isLt
  have hidlt := ids.lt t
  rw [← BitVec.toNat_inj, toNat_lockThreadId]
  show _ = 0
  omega

theorem spared_of_alone (alone : ∀ u, u ≠ t → s.thread u = ⟨.idle, []⟩) (u : T) (hu : u ≠ t)
    (_ : initTls u = false) : ¬ (s.thread u).Writing := by
  rw [alone u hu]
  rintro (h | h) <;> cases h

theorem bounded_congr [Fintype T] (h : ∀ t, (r.thread t).holds = (s.thread t).holds) :
    r.Bounded ↔ s.Bounded := by
  simp only [State.Bounded, State.readHolds, Thread.reads, Thread.writes, h]

variable [DecidableEq T]

theorem set_set (s : State T) (c c' : Cells) (t : T) (th th' : Thread)
    (crash crash' : Option Crash) :
    (s.set c t th crash).set c' t th' crash' = s.set c' t th' crash' := by
  simp [State.set]

theorem thread_set (s : State T) (c : Cells) (t : T) (th : Thread) (crash : Option Crash) :
    (s.set c t th crash).thread t = th := by
  simp [State.set]

/-- What the step of one thread and its counterpart have to establish. -/
theorem Shadows.set (sh : Shadows ids initTls s r) {c c' : Cells} {th th' : Thread}
    {crash : Option Crash}
    (spared : ∀ u, u ≠ t → initTls u = false → ¬ (s.thread u).Writing)
    (count : c'.writeCount = c.writeCount)
    (free : initTls t = true ∨ ¬ th'.Owns → c'.lockFlag = c.lockFlag)
    (owned : initTls t = false → th'.Owns →
      c'.lockFlag = c.lockFlag + idBits (ids.lThreadId t))
    (worker : initTls t = true → th' = th) (lags : initTls t = false → Lags th th')
    (alone : initTls t = false → th.Writing → ∀ u, u ≠ t → s.thread u = ⟨.idle, []⟩) :
    Shadows ids initTls (s.set c t th crash) (r.set c' t th' crash) where
  count := count
  crash := rfl
  free h := by
    refine free ?_
    cases htls : initTls t with
    | true => exact .inl rfl
    | false => exact .inr (by simpa [State.set] using h t htls)
  owned u hu owns := by
    by_cases hut : u = t
    · subst hut
      exact owned hu (by simpa [State.set] using owns)
    · simp only [State.set, Function.update_of_ne hut] at owns
      exact absurd ((sh.lags u hu).writing owns) (spared u hut hu)
  worker u hu := by
    by_cases hut : u = t
    · subst hut
      simpa [State.set] using worker hu
    · simpa only [State.set, Function.update_of_ne hut] using sh.worker u hu
  lags u hu := by
    by_cases hut : u = t
    · subst hut
      simpa [State.set] using lags hu
    · simpa only [State.set, Function.update_of_ne hut] using sh.lags u hu
  alone u hu writing v hv := by
    by_cases hut : u = t
    · subst hut
      simp only [State.set, Function.update_self, Function.update_of_ne hv] at writing ⊢
      exact alone hu writing v hv
    · simp only [State.set, Function.update_of_ne hut] at writing
      exact absurd writing (spared u hut hu)

theorem Shadows.cells_eq (sh : Shadows ids initTls s r)
    (spared : ∀ u, u ≠ t → initTls u = false → ¬ (s.thread u).Writing)
    (free : initTls t = true ∨ ¬ (r.thread t).Owns) : r.cells = s.cells := by
  have hflag : r.cells.lockFlag = s.cells.lockFlag := by
    refine sh.free fun u hu owns => ?_
    by_cases hut : u = t
    · subst hut
      rw [hu] at free
      exact free.resolve_left nofun owns
    · exact spared u hut hu ((sh.lags u hu).writing owns)
  show Cells.mk _ _ = Cells.mk _ _
  rw [hflag, sh.count]

/-- A step that keeps the members and the holds. -/
theorem Shadows.move (sh : Shadows ids initTls s r) {pc pc' : Pc} {crash : Option Crash}
    (spared : ∀ u, u ≠ t → initTls u = false → ¬ (s.thread u).Writing)
    (owns : Thread.Owns ⟨pc', (s.thread t).holds⟩ ↔ (r.thread t).Owns)
    (worker : initTls t = true → pc' = pc)
    (lags : initTls t = false → Lags ⟨pc, (s.thread t).holds⟩ ⟨pc', (s.thread t).holds⟩)
    (alone : initTls t = false → pc.writing = true → ∀ u, u ≠ t → s.thread u = ⟨.idle, []⟩) :
    Shadows ids initTls (s.set s.cells t ⟨pc, (s.thread t).holds⟩ crash)
      (r.set r.cells t ⟨pc', (s.thread t).holds⟩ crash) := by
  refine sh.set spared sh.count (fun h => ?_) (fun hu h => sh.owned t hu (owns.1 h))
    (fun h => by rw [worker h]) lags fun hu writing => ?_
  · rw [owns] at h
    rw [sh.cells_eq spared h]
  · rcases writing with hmem | hpc
    · exact sh.alone t hu (.inl hmem)
    · exact alone hu hpc

/-! ## Every step -/

variable [Fintype T] {owner : Option T} {now : UInt64} {c c' : Cells} {th th' : Thread}
  {crash : Option Crash}

/-- The counterpart makes an access. -/
theorem reach_next (now : UInt64) (reach : (system ids).Reach (Disciplined ids) r)
    (running : r.crash = none)
    (hnext : Lock.next (ids.lThreadId t) now r.cells (r.thread t) = some (c, th, crash))
    (bounded : (r.set c t th crash).Bounded) :
    (system ids).Reach (Disciplined ids) (r.set c t th crash) := by
  have hstep : Lock.step ids r (t, .next now) = some (r.set c t th crash) := by
    simp [Lock.step, running, hnext]
  refine reach.step (a := (t, .next now)) ⟨trivial, fun s' hs' => ?_⟩ hstep
  obtain rfl := Option.some.inj (hs'.symm.trans hstep)
  exact bounded

theorem Shadows.bounded_set (sh : Shadows ids initTls s r) (holds : th'.holds = th.holds)
    (bounded : (s.set c t th crash).Bounded) : (r.set c' t th' crash).Bounded := by
  refine (bounded_congr fun u => ?_).2 bounded
  simp only [State.set, Function.update_apply]
  split_ifs
  · exact holds
  · exact sh.holds u

theorem Shadows.bounded_idle (sh : Shadows ids initTls s r) (inv : Inv ids r owner) (pc : Pc) :
    (r.set r.cells t ⟨pc, (s.thread t).holds⟩ none).Bounded := by
  refine (bounded_congr fun u => ?_).2 inv.bounded
  simp only [State.set, Function.update_apply]
  split_ifs with hu
  · rw [hu, sh.holds]
  · rfl

/-- A worker makes an access. -/
theorem Shadows.next_worker (sh : Shadows ids initTls s r)
    (reach : (system ids).Reach (Disciplined ids) r) (running : s.crash = none)
    (htls : initTls t = true)
    (spared : ∀ u, u ≠ t → initTls u = false → ¬ (s.thread u).Writing)
    (hnext : Lock.next (ids.lThreadId t) now s.cells (s.thread t) = some (c, th, crash))
    (bounded : (s.set c t th crash).Bounded) :
    ∃ r', (system ids).Reach (Disciplined ids) r' ∧
      Shadows ids initTls (s.set c t th crash) r' := by
  rw [← sh.worker t htls, ← sh.cells_eq spared (.inl htls)] at hnext
  refine ⟨_, reach_next now reach (sh.crash.trans running) hnext (sh.bounded_set rfl bounded),
    sh.set spared rfl (fun _ => rfl) ?_ (fun _ => rfl) ?_ ?_⟩
  all_goals
    intro hnot
    rw [htls] at hnot
    cases hnot

/-- While a thread is alone and does not own the lock, the word is empty but for its read holds. -/
theorem Inv.flag_of_alone (inv : Inv ids r owner) (alone : ∀ u, u ≠ t → r.thread u = ⟨.idle, []⟩)
    (free : ¬ (r.thread t).Owns) : r.cells.lockFlag.toNat = (r.thread t).reads := by
  have hnone : owner = none := by
    cases owner with
    | none => rfl
    | some u =>
      have owns := (inv.fits u).owner.1 rfl
      by_cases hut : u = t
      · subst hut
        exact absurd owns free
      · rw [alone u hut] at owns
        rcases owns with h | h | h <;> cases h
  subst hnone
  have hreads : r.readHolds = (r.thread t).reads := by
    refine Finset.sum_eq_single t (fun u _ hu => ?_) fun h => absurd (Finset.mem_univ t) h
    rw [alone u hu]
    rfl
  have hflag := inv.flag
  have hzero : ids.ofOwner none = 0 := rfl
  rw [hzero, hreads] at hflag
  omega

/-- The hold of `ReadLock` on the recursive path is added in the loop of the other lock. -/
theorem Shadows.next_readNested (sh : Shadows ids initTls s r) (inv : Inv ids r owner)
    (reach : (system ids).Reach (Disciplined ids) r) (running : s.crash = none)
    (spared : ∀ u, u ≠ t → initTls u = false → ¬ (s.thread u).Writing)
    (hr : r.thread t = ⟨.readTick, (s.thread t).holds⟩)
    (hid : lockThreadId s.cells.lockFlag = 0)
    (bounded : (s.set ⟨s.cells.lockFlag + 1, s.cells.writeCount⟩ t
      ⟨.idle, .read :: (s.thread t).holds⟩ none).Bounded) :
    ∃ r', (system ids).Reach (Disciplined ids) r' ∧
      Shadows ids initTls (s.set ⟨s.cells.lockFlag + 1, s.cells.writeCount⟩ t
        ⟨.idle, .read :: (s.thread t).holds⟩ none) r' := by
  have hpoint := (inv.fits t).point
  have hwrites : Thread.writes ⟨.readTick, (s.thread t).holds⟩ = 0 := by
    rw [hr] at hpoint
    exact hpoint
  have hfree : ¬ (r.thread t).Owns := by
    rw [hr, Thread.owns_iff _ (show Pc.readTick.Settled by decide), hwrites]
    exact lt_irrefl 0
  have hcells : r.cells = s.cells := sh.cells_eq spared (.inr hfree)
  have hmask : r.cells.lockFlag &&& readCountMask = r.cells.lockFlag := by
    have hzero := congrArg BitVec.toNat hid
    rw [← hcells, toNat_lockThreadId] at hzero
    rw [← BitVec.toNat_inj, toNat_readCount]
    exact Nat.mod_eq_of_lt (by simpa using hzero)
  have reach₁ : (system ids).Reach (Disciplined ids)
      (r.set r.cells t ⟨.readExpected 0 0, (s.thread t).holds⟩ none) :=
    reach_next 0 reach (sh.crash.trans running) (by rw [hr]; rfl) (sh.bounded_idle inv _)
  have reach₂ : (system ids).Reach (Disciplined ids)
      (r.set r.cells t ⟨.readExchange 0 0 r.cells.lockFlag, (s.thread t).holds⟩ none) := by
    have hstep := reach_next 0 reach₁ rfl (by rw [thread_set]; rfl)
      (by rw [set_set]; exact sh.bounded_idle inv _)
    rw [set_set] at hstep
    rwa [← hmask]
  have reach₃ : (system ids).Reach (Disciplined ids)
      (r.set ⟨r.cells.lockFlag + 1, r.cells.writeCount⟩ t
        ⟨.idle, .read :: (s.thread t).holds⟩ none) := by
    have hstep := reach_next 0 reach₂ rfl (by rw [thread_set]; exact if_pos rfl)
      (by rw [set_set]; exact sh.bounded_set rfl bounded)
    rwa [set_set] at hstep
  rw [hcells] at reach₃
  refine ⟨_, reach₃, sh.set spared rfl (fun _ => rfl) (fun _ owns => ?_) (fun _ => rfl)
    (fun _ => .same rfl) fun _ writing => ?_⟩
  · rw [Thread.owns_iff _ (show Pc.idle.Settled by decide), Thread.writes_cons_read] at owns
    exact absurd hwrites owns.ne'
  · rcases writing with hmem | hpc
    · simp [List.count_eq_zero.1 hwrites] at hmem
    · cases hpc

/-- The recursive path of `WriteLock` is the exchange of the other lock. -/
theorem Shadows.next_writeNested (sh : Shadows ids initTls s r) (inv : Inv ids r owner)
    (reach : (system ids).Reach (Disciplined ids) r) (running : s.crash = none)
    (spared : ∀ u, u ≠ t → initTls u = false → ¬ (s.thread u).Writing)
    (alone : ∀ u, u ≠ t → s.thread u = ⟨.idle, []⟩)
    (hr : r.thread t = ⟨.writeTick, (s.thread t).holds⟩)
    (bounded : (s.set ⟨s.cells.lockFlag, s.cells.writeCount + 1⟩ t
      ⟨.idle, .write :: (s.thread t).holds⟩ none).Bounded) (huninit : initTls t = false) :
    ∃ r', (system ids).Reach (Disciplined ids) r' ∧
      Shadows ids initTls (s.set ⟨s.cells.lockFlag, s.cells.writeCount + 1⟩ t
        ⟨.idle, .write :: (s.thread t).holds⟩ none) r' := by
  have hholds : (s.thread t).holds = [] := by
    have hpoint := (inv.fits t).point
    rw [hr] at hpoint
    exact hpoint
  have hfree : ¬ (r.thread t).Owns := by
    rw [hr, Thread.owns_iff _ (show Pc.writeTick.Settled by decide), hholds]
    exact lt_irrefl 0
  have hcells : r.cells = s.cells := sh.cells_eq spared (.inr hfree)
  have hempty : r.cells.lockFlag = emptyFlag := by
    have hflag := inv.flag_of_alone
      (fun u hu => (sh.of_idle (by rw [alone u hu])).trans (alone u hu)) hfree
    rw [hr, hholds] at hflag
    exact BitVec.eq_of_toNat_eq hflag
  have reach₁ : (system ids).Reach (Disciplined ids)
      (r.set r.cells t ⟨.writeExchange 0 0, (s.thread t).holds⟩ none) :=
    reach_next 0 reach (sh.crash.trans running) (by rw [hr]; rfl) (sh.bounded_idle inv _)
  have reach₂ : (system ids).Reach (Disciplined ids)
      (r.set ⟨idBits (ids.lThreadId t), r.cells.writeCount⟩ t
        ⟨.writeAcquired, (s.thread t).holds⟩ none) := by
    have hstep := reach_next 0 reach₁ rfl (by rw [thread_set]; exact if_pos hempty)
      (by rw [set_set]; exact sh.bounded_idle inv _)
    rwa [set_set] at hstep
  have reach₃ : (system ids).Reach (Disciplined ids)
      (r.set ⟨idBits (ids.lThreadId t), r.cells.writeCount + 1⟩ t
        ⟨.idle, .write :: (s.thread t).holds⟩ none) := by
    have hstep := reach_next 0 reach₂ rfl (by rw [thread_set]; rfl)
      (by rw [set_set]; exact sh.bounded_set rfl bounded)
    rwa [set_set] at hstep
  have howns : Thread.Owns ⟨.idle, .write :: (s.thread t).holds⟩ := by
    rw [Thread.owns_iff _ (show Pc.idle.Settled by decide), Thread.writes_cons_write]
    exact Nat.succ_pos _
  refine ⟨_, reach₃, sh.set spared ?_ (fun h => ?_) (fun _ _ => ?_) (fun h => ?_)
    (fun _ => .same rfl) fun _ _ => alone⟩
  · rw [hcells]
  · rw [huninit] at h
    exact absurd howns (h.resolve_left nofun)
  · rw [← hcells, hempty]
    exact (BitVec.zero_add _).symm
  · cases huninit.symm.trans h

/-- The accesses at which the id in the word makes no difference. -/
def Pc.Recursive (pc : Pc) : Prop :=
  pc = .writeNested ∨ pc = .readNested ∨ pc = .unlockLoad ∨ pc = .unlockCount ∨ pc = .readSub

theorem next_add_idBits {threadId id id' : BitVec 32} (hlt : threadId.toNat < 65536)
    (hpc : th.pc.Recursive) (now : UInt64) (c : Cells) :
    Lock.next id now ⟨c.lockFlag + idBits threadId, c.writeCount⟩ th =
      (Lock.next id' now c th).map fun q =>
        (⟨q.1.lockFlag + idBits threadId, q.1.writeCount⟩, q.2) := by
  have hmask := readCount_add_idBits hlt c.lockFlag
  have hcomm : ∀ x, c.lockFlag + idBits threadId + x = c.lockFlag + x + idBits threadId := by
    intro x
    rw [BitVec.add_assoc, BitVec.add_comm (idBits threadId), ← BitVec.add_assoc]
  rcases hpc with hpc | hpc | hpc | hpc | hpc
  · simp only [Lock.next, hpc, Option.map_some]
  · simp only [Lock.next, hpc, Option.map_some, hcomm]
  · simp only [Lock.next, hpc, hmask]
    split_ifs <;> rfl
  · simp only [Lock.next, hpc, Option.map_some]
  · have hsub : c.lockFlag + idBits threadId - 1 = c.lockFlag - 1 + idBits threadId := by
      rw [BitVec.sub_eq_add_neg, BitVec.sub_eq_add_neg, hcomm]
    simp only [Lock.next, hpc, hmask, Option.map_some, hsub]

/-- The owner remains the owner at these accesses. -/
theorem Inv.owns_next (inv : Inv ids r (some t)) (hpc : (r.thread t).pc.Recursive)
    (hnext : Lock.next (ids.lThreadId t) now r.cells (r.thread t) = some (c, th, crash))
    (bounded : (r.set c t th crash).Bounded) : th.Owns ∧ th.pc.contending = false := by
  obtain ⟨-, howner, hpoint⟩ := inv.fits t
  have howns := howner.1 rfl
  have hidle : ∀ holds, 0 < Thread.writes ⟨.idle, holds⟩ →
      Thread.Owns ⟨.idle, holds⟩ ∧ Pc.idle.contending = false :=
    fun _ h => ⟨.inl h, rfl⟩
  unfold Thread.AtPoint at hpoint
  rcases hpc with hpc | hpc | hpc | hpc | hpc
  · simp only [Lock.next, hpc, Option.some.injEq, Prod.mk.injEq] at hnext
    obtain ⟨-, rfl, -⟩ := hnext
    exact hidle _ (by rw [Thread.writes_cons_write]; exact Nat.succ_pos _)
  · simp only [Lock.next, hpc, Option.some.injEq, Prod.mk.injEq] at hnext hpoint
    obtain ⟨-, rfl, -⟩ := hnext
    exact hidle _ (by rw [Thread.writes_cons_read]; exact hpoint)
  · simp only [hpc] at hpoint
    simp only [Lock.next, hpc] at hnext
    split_ifs at hnext
    · obtain ⟨-, rfl, -⟩ := by simpa using hnext
      exact ⟨howns, by rw [hpc]; rfl⟩
    · obtain ⟨-, rfl, -⟩ := by simpa using hnext
      exact ⟨.inl hpoint.2, rfl⟩
  · simp only [hpc] at hpoint
    simp only [Lock.next, hpc, Option.some.injEq, Prod.mk.injEq] at hnext
    obtain ⟨rfl, rfl, rfl⟩ := hnext
    have hfits := (inv.countDown hpoint.1 hpoint.2 bounded).fits t
    rw [thread_set] at hfits
    refine ⟨hfits.owner.1 rfl, ?_⟩
    split_ifs <;> rfl
  · simp only [Lock.next, hpc, Option.some.injEq, Prod.mk.injEq] at hnext
    obtain ⟨-, rfl, -⟩ := hnext
    rw [Thread.owns_iff _ (by rw [hpc]; decide)] at howns
    refine hidle _ ?_
    rw [Thread.writes, List.count_erase_of_ne (by decide)]
    exact howns

/-- A thread without an id that writes goes on writing. -/
theorem Shadows.next_owned (sh : Shadows ids initTls s r) (inv : Inv ids r owner)
    (reach : (system ids).Reach (Disciplined ids) r) (running : s.crash = none)
    (huninit : initTls t = false) (owns : (r.thread t).Owns) (hr : r.thread t = s.thread t)
    (hpc : (s.thread t).pc.Recursive)
    (hnext : Lock.next 0 now s.cells (s.thread t) = some (c, th, crash))
    (bounded : (s.set c t th crash).Bounded) :
    ∃ r', (system ids).Reach (Disciplined ids) r' ∧
      Shadows ids initTls (s.set c t th crash) r' := by
  have hcells : r.cells =
      ⟨s.cells.lockFlag + idBits (ids.lThreadId t), s.cells.writeCount⟩ := by
    rw [← sh.owned t huninit owns, ← sh.count]
  have hnext' : Lock.next (ids.lThreadId t) now r.cells (r.thread t) =
      some (⟨c.lockFlag + idBits (ids.lThreadId t), c.writeCount⟩, th, crash) := by
    rw [hr, hcells, next_add_idBits (ids.lt t) hpc, hnext]
    rfl
  have hbounded : (r.set ⟨c.lockFlag + idBits (ids.lThreadId t), c.writeCount⟩ t th
      crash).Bounded := sh.bounded_set rfl bounded
  have halone := sh.alone t huninit ((sh.lags t huninit).writing owns)
  obtain ⟨hafter, hfast⟩ : th.Owns ∧ th.pc.contending = false := by
    obtain rfl := (inv.fits t).owner.2 owns
    exact inv.owns_next (by rwa [hr]) hnext' hbounded
  refine ⟨_, reach_next now reach (sh.crash.trans running) hnext' hbounded,
    sh.set (spared_of_alone halone) rfl (fun h => ?_) (fun _ _ => rfl) (fun _ => rfl)
      (fun _ => .same hfast) fun _ _ => halone⟩
  rw [huninit] at h
  exact absurd hafter (h.resolve_left nofun)

/-- A thread without an id that does not write does the same as its counterpart. -/
theorem Shadows.next_free (sh : Shadows ids initTls s r)
    (reach : (system ids).Reach (Disciplined ids) r) (running : s.crash = none)
    (spared : ∀ u, u ≠ t → initTls u = false → ¬ (s.thread u).Writing)
    (hr : r.thread t = s.thread t) (free : ¬ (r.thread t).Owns)
    (hnext : Lock.next (ids.lThreadId t) now s.cells (s.thread t) = some (c, th, crash))
    (reading : ¬ th.Writing) (bounded : (s.set c t th crash).Bounded) :
    ∃ r', (system ids).Reach (Disciplined ids) r' ∧
      Shadows ids initTls (s.set c t th crash) r' := by
  rw [← hr, ← sh.cells_eq spared (.inr free)] at hnext
  refine ⟨_, reach_next now reach (sh.crash.trans running) hnext (sh.bounded_set rfl bounded),
    sh.set spared rfl (fun _ => rfl) (fun _ owns => ?_) (fun _ => rfl) (fun _ => .same ?_)
      fun _ h => absurd h reading⟩
  · refine absurd ?_ reading
    rcases owns with hwrites | hpc | hpc
    · exact .inl (List.count_pos_iff.1 hwrites)
    · exact .inr (by rw [hpc]; rfl)
    · exact .inr (by rw [hpc]; rfl)
  · cases hpc : th.pc with
    | writeTick | writeExchange | writeAcquired | writeTimeout =>
      exact absurd (.inr (by rw [hpc]; rfl)) reading
    | _ => rfl

/-- The load of a thread without an id, which takes a word without an id for its own. -/
theorem Shadows.next_load (sh : Shadows ids initTls s r) (inv : Inv ids r owner)
    (reach : (system ids).Reach (Disciplined ids) r) (running : s.crash = none)
    (huninit : initTls t = false)
    (spared : ∀ u, u ≠ t → initTls u = false → ¬ (s.thread u).Writing)
    (hr : r.thread t = s.thread t) {own other : Pc} (settled : (s.thread t).pc.Settled)
    (hown : own.Settled) (hother : other.Settled)
    (hnext : ∀ id now c, Lock.next id now c (s.thread t) =
      some (c, ⟨if id = lockThreadId c.lockFlag then own else other, (s.thread t).holds⟩, none))
    (lags : Lags ⟨own, (s.thread t).holds⟩ ⟨other, (s.thread t).holds⟩)
    (fast : own.contending = false)
    (free : lockThreadId s.cells.lockFlag = 0 ∨ other.contending = false)
    (alone : own.writing = true ∨ other.writing = true → ∀ u, u ≠ t → s.thread u = ⟨.idle, []⟩) :
    ∃ r', (system ids).Reach (Disciplined ids) r' ∧
      Shadows ids initTls (s.set s.cells t
        ⟨if 0 = lockThreadId s.cells.lockFlag then own else other, (s.thread t).holds⟩
        none) r' := by
  have howns : ∀ pc : Pc, pc.Settled →
      (Thread.Owns ⟨pc, (s.thread t).holds⟩ ↔ (r.thread t).Owns) := by
    intro pc hpc
    rw [hr, Thread.owns_iff _ settled, Thread.owns_iff _ hpc]
    rfl
  have hreach := reach_next 0 reach (sh.crash.trans running) (by rw [hr]; exact hnext _ _ _)
    (sh.bounded_idle inv _)
  refine ⟨_, hreach, sh.move spared (howns _ (by split_ifs <;> assumption)) ?_ (fun _ => ?_)
    fun _ h => alone ?_⟩
  · intro h
    cases huninit.symm.trans h
  · by_cases owns : (r.thread t).Owns
    · rw [if_pos (sh.lockThreadId_of_owns inv huninit owns).symm,
        if_pos ((inv.own_id_iff t).2 ((inv.fits t).owner.2 owns))]
      exact .same fast
    · rw [if_neg fun h => owns ((inv.fits t).owner.1 ((inv.own_id_iff t).1 h))]
      split_ifs with hid
      · exact lags
      · exact .same (free.resolve_left fun h => hid h.symm)
  · split_ifs at h
    · exact .inl h
    · exact .inr h

/-- A thread without an id makes the same access as its counterpart. -/
theorem Shadows.next_same (sh : Shadows ids initTls s r) (inv : Inv ids r owner)
    (reach : (system ids).Reach (Disciplined ids) r) (running : s.crash = none)
    (huninit : initTls t = false)
    (spared : ∀ u, u ≠ t → initTls u = false → ¬ (s.thread u).Writing)
    (hr : r.thread t = s.thread t) (hfast : (s.thread t).pc.contending = false)
    (hnext : Lock.next 0 now s.cells (s.thread t) = some (c, th, crash))
    (bounded : (s.set c t th crash).Bounded) :
    ∃ r', (system ids).Reach (Disciplined ids) r' ∧
      Shadows ids initTls (s.set c t th crash) r' := by
  have hpoint := (inv.fits t).point
  rw [hr] at hpoint
  unfold Thread.AtPoint at hpoint
  have howned : (r.thread t).Owns → (s.thread t).pc.Recursive →
      ∃ r', (system ids).Reach (Disciplined ids) r' ∧
        Shadows ids initTls (s.set c t th crash) r' :=
    fun owns hpc => sh.next_owned inv reach running huninit owns hr hpc hnext bounded
  have howns : 0 < (s.thread t).writes → (r.thread t).Owns := by
    intro h
    rw [hr]
    exact .inl h
  -- The points of a reader: the holds change by a read, and the id plays no part.
  have hreads : (s.thread t).writes = 0 → (s.thread t).pc.Settled →
      Lock.next (ids.lThreadId t) now s.cells (s.thread t) =
        Lock.next 0 now s.cells (s.thread t) →
      (.write ∈ th.holds → .write ∈ (s.thread t).holds) ∧ th.pc.writing = false →
      ∃ r', (system ids).Reach (Disciplined ids) r' ∧
        Shadows ids initTls (s.set c t th crash) r' := by
    intro hwrites hsettled hsame hth
    refine sh.next_free reach running spared hr ?_ (hsame.trans hnext) ?_ bounded
    · rw [hr, Thread.owns_iff _ hsettled, hwrites]
      exact lt_irrefl 0
    · rintro (hmem | hpc)
      · exact List.count_eq_zero.1 hwrites (hth.1 hmem)
      · rw [hth.2] at hpc
        cases hpc
  cases hpc : (s.thread t).pc with
  | idle =>
    simp only [Lock.next, hpc] at hnext
    cases hnext
  | writeTick | writeExchange | writeAcquired | writeTimeout =>
    rw [hpc] at hfast
    cases hfast
  | writeLoad =>
    simp only [Lock.next, hpc, Option.some.injEq, Prod.mk.injEq] at hnext
    obtain ⟨rfl, rfl, rfl⟩ := hnext
    have halone := sh.alone t huninit (.inr (by rw [hpc]; rfl))
    refine sh.next_load inv reach running huninit spared hr (by rw [hpc]; decide) (by decide)
      (by decide) (by simp only [Lock.next, hpc, implies_true]) .write rfl (.inl ?_) fun _ => halone
    by_cases owns : (r.thread t).Owns
    · exact sh.lockThreadId_of_owns inv huninit owns
    · have hflag := inv.flag_of_alone
        (fun u hu => (sh.of_idle (by rw [halone u hu])).trans (halone u hu)) owns
      simp only [hpc] at hpoint
      rw [sh.cells_eq spared (.inr owns), hr, hpoint] at hflag
      rw [← BitVec.toNat_inj, toNat_lockThreadId, hflag]
      rfl
  | writeNested =>
    simp only [hpc] at hpoint
    exact howned (howns hpoint.2) (.inl hpc)
  | unlockLoad =>
    simp only [hpc] at hpoint
    exact howned (howns hpoint.2) (.inr (.inr (.inl hpc)))
  | unlockCount =>
    simp only [hpc] at hpoint
    exact howned (howns hpoint.2) (.inr (.inr (.inr (.inl hpc))))
  | unlockStore =>
    simp only [hpc] at hpoint
    simp only [Lock.next, hpc, Option.some.injEq, Prod.mk.injEq] at hnext
    obtain ⟨rfl, rfl, rfl⟩ := hnext
    have hidle : ¬ Thread.Owns ⟨.idle, (s.thread t).holds⟩ := by
      rw [Thread.owns_iff _ (show Pc.idle.Settled by decide), hpoint]
      exact lt_irrefl 0
    have hnext' : Lock.next (ids.lThreadId t) 0 r.cells (r.thread t) =
        some (⟨emptyFlag, r.cells.writeCount⟩, ⟨.idle, (s.thread t).holds⟩, none) := by
      simp only [Lock.next, hr, hpc]
    refine ⟨_, reach_next 0 reach (sh.crash.trans running) hnext' (sh.bounded_set rfl bounded),
      sh.set spared sh.count (fun _ => rfl) (fun _ owns => absurd owns hidle) (fun _ => rfl)
        (fun _ => .same rfl) fun _ writing => ?_⟩
    rw [hpoint] at writing
    rcases writing with h | h <;> cases h
  | readLoad =>
    simp only [Lock.next, hpc, Option.some.injEq, Prod.mk.injEq] at hnext
    obtain ⟨rfl, rfl, rfl⟩ := hnext
    exact sh.next_load inv reach running huninit spared hr (by rw [hpc]; decide) (by decide)
      (by decide) (by simp only [Lock.next, hpc, implies_true]) .read rfl (.inr rfl)
      fun h => absurd h (by decide)
  | readNested =>
    simp only [hpc] at hpoint
    exact howned (howns hpoint) (.inr (.inl hpc))
  | readTick =>
    simp only [hpc] at hpoint
    refine hreads hpoint (by rw [hpc]; decide) (by simp only [Lock.next, hpc]) ?_
    simp only [Lock.next, hpc, Option.some.injEq, Prod.mk.injEq] at hnext
    obtain ⟨-, rfl, -⟩ := hnext
    exact ⟨id, rfl⟩
  | readExpected =>
    simp only [hpc] at hpoint
    refine hreads hpoint (by rw [hpc]; exact ⟨nofun, nofun⟩) (by simp only [Lock.next, hpc]) ?_
    simp only [Lock.next, hpc, Option.some.injEq, Prod.mk.injEq] at hnext
    obtain ⟨-, rfl, -⟩ := hnext
    exact ⟨id, rfl⟩
  | readExchange =>
    simp only [hpc] at hpoint
    refine hreads hpoint.1 (by rw [hpc]; exact ⟨nofun, nofun⟩) (by simp only [Lock.next, hpc]) ?_
    simp only [Lock.next, hpc] at hnext
    split_ifs at hnext
    all_goals obtain ⟨-, rfl, -⟩ := by simpa using hnext
    · exact ⟨by simp, rfl⟩
    · exact ⟨id, rfl⟩
    · exact ⟨id, rfl⟩
  | readTimeout =>
    simp only [hpc] at hpoint
    refine hreads hpoint (by rw [hpc]; exact ⟨nofun, nofun⟩) (by simp only [Lock.next, hpc]) ?_
    simp only [Lock.next, hpc] at hnext
    split_ifs at hnext
    all_goals obtain ⟨-, rfl, -⟩ := by simpa using hnext
    · exact ⟨id, by rw [hpc]; rfl⟩
    · exact ⟨id, rfl⟩
  | readSub =>
    have hsettled : (s.thread t).pc.Settled := by rw [hpc]; decide
    by_cases hwrites : 0 < (s.thread t).writes
    · exact howned (howns hwrites) (.inr (.inr (.inr (.inr hpc))))
    · refine hreads (Nat.eq_zero_of_not_pos hwrites) hsettled (by simp only [Lock.next, hpc]) ?_
      simp only [Lock.next, hpc, Option.some.injEq, Prod.mk.injEq] at hnext
      obtain ⟨-, rfl, -⟩ := hnext
      exact ⟨List.mem_of_mem_erase, rfl⟩

/-- A thread without an id makes an access. -/
theorem Shadows.next_uninitialized (sh : Shadows ids initTls s r)
    (reach : (system ids).Reach (Disciplined ids) r) (running : s.crash = none)
    (huninit : initTls t = false)
    (spared : ∀ u, u ≠ t → initTls u = false → ¬ (s.thread u).Writing)
    (hid : (s.thread t).pc = .readNested → lockThreadId s.cells.lockFlag = 0)
    (hnext : Lock.next 0 now s.cells (s.thread t) = some (c, th, crash))
    (bounded : (s.set c t th crash).Bounded) :
    ∃ r', (system ids).Reach (Disciplined ids) r' ∧
      Shadows ids initTls (s.set c t th crash) r' := by
  obtain ⟨owner, inv⟩ := inv_of_reach reach
  rcases (sh.lags t huninit).cases with ⟨hr, hfast⟩ | ⟨hpc, hr⟩ | ⟨hpc, hr⟩
  · exact sh.next_same inv reach running huninit spared hr hfast hnext bounded
  · simp only [Lock.next, hpc, Option.some.injEq, Prod.mk.injEq] at hnext
    obtain ⟨rfl, rfl, rfl⟩ := hnext
    exact sh.next_readNested inv reach running spared hr (hid hpc) bounded
  · simp only [Lock.next, hpc, Option.some.injEq, Prod.mk.injEq] at hnext
    obtain ⟨rfl, rfl, rfl⟩ := hnext
    exact sh.next_writeNested inv reach running spared
      (sh.alone t huninit (.inr (by rw [hpc]; rfl))) hr bounded huninit

/-- A call begins. -/
theorem Shadows.call (sh : Shadows ids initTls s r) {op : Op} {pc : Pc}
    (reach : (system ids).Reach (Disciplined ids) r) (running : s.crash = none)
    (hop : op.Ordered (s.thread t).holds) (hentry : op.entry = some pc)
    (hidle : (s.thread t).pc = .idle)
    (spared : ∀ u, u ≠ t → initTls u = false → ¬ (s.thread u).Writing)
    (alone : initTls t = false → pc.writing = true → ∀ u, u ≠ t → s.thread u = ⟨.idle, []⟩) :
    ∃ r', (system ids).Reach (Disciplined ids) r' ∧
      Shadows ids initTls (s.set s.cells t ⟨pc, (s.thread t).holds⟩ none) r' := by
  obtain ⟨owner, inv⟩ := inv_of_reach reach
  have hr := sh.of_idle hidle
  have hfast : pc.Settled ∧ pc.contending = false := by
    rcases op with (_ | _) | (_ | _) | _ <;> cases hentry <;> decide
  have hstep : Lock.step ids r (t, op) =
      some (r.set r.cells t ⟨pc, (s.thread t).holds⟩ none) := by
    rcases op with (_ | _) | (_ | _) | _ <;> cases hentry <;>
      simp [Lock.step, sh.crash.trans running, hr, hidle, Op.entry]
  refine ⟨_, reach.step (a := (t, op)) ⟨by rw [hr]; exact hop, fun r' hr' => ?_⟩ hstep,
    sh.move spared ?_ (fun _ => rfl) (fun _ => .same hfast.2) alone⟩
  · obtain rfl := Option.some.inj (hr'.symm.trans hstep)
    exact sh.bounded_idle inv pc
  · rw [hr, Thread.owns_iff _ hfast.1, Thread.owns_iff _ (by rw [hidle]; decide)]
    rfl

theorem Shadows.step (sh : Shadows ids initTls s r) {s' : State T} {a : T × Op}
    (reach : (system ids).Reach (Disciplined ids) r) (sheltered : Sheltered ids initTls s a)
    (hstep : localStep ids initTls s a = some s') :
    ∃ r', (system ids).Reach (Disciplined ids) r' ∧ Shadows ids initTls s' r' := by
  obtain ⟨t, op⟩ := a
  obtain ⟨hop, hbounded, hspared⟩ := sheltered
  have bounded := hbounded s' hstep
  obtain ⟨hcrash, hstep⟩ := Option.ite_none_left_eq_some.1 hstep
  have running : s.crash = none := by simpa using hcrash
  have hheld : ∀ {mode : Mode}, (s.thread t).holds.head? = some mode →
      ∀ u, u ≠ t → initTls u = false → ¬ (s.thread u).Writing := by
    intro mode hhead
    refine sh.spared fun hunused => ?_
    rw [hunused] at hhead
    cases hhead
  match op with
  | .next now =>
    obtain ⟨⟨c, th, crash⟩, hnext, rfl⟩ := Option.map_eq_some_iff.1 hstep
    have hothers := sh.spared (t := t) fun hunused => by
      rw [hunused] at hnext
      cases hnext
    cases htls : initTls t with
    | true =>
      simp only [localId, htls, if_true] at hnext
      exact sh.next_worker reach running htls hothers hnext bounded
    | false =>
      simp only [localId, htls, Bool.false_eq_true, if_false] at hnext
      exact sh.next_uninitialized reach running htls hothers (hspared htls) hnext bounded
  | .lock mode =>
    obtain ⟨hidle, heq⟩ := Option.ite_none_right_eq_some.1 hstep
    obtain ⟨pc, hentry, rfl⟩ := Option.map_eq_some_iff.1 heq
    refine sh.call reach running hop hentry hidle hspared.1 fun hu hwriting => hspared.2 hu ?_
    cases mode with
    | write => rfl
    | read =>
      cases hentry
      cases hwriting
  | .unlock mode =>
    obtain ⟨hidle, heq⟩ := Option.ite_none_right_eq_some.1 hstep
    obtain ⟨pc, hentry, rfl⟩ := Option.map_eq_some_iff.1 heq
    refine sh.call reach running hop hentry hidle (hheld hop) fun hu hwriting => ?_
    cases mode with
    | write => exact sh.alone t hu (.inl (List.mem_of_mem_head? hop))
    | read =>
      cases hentry
      cases hwriting

theorem shadows_of_reach (h : (localSystem ids initTls).Reach (Sheltered ids initTls) s) :
    ∃ r, (system ids).Reach (Disciplined ids) r ∧ Shadows ids initTls s r := by
  refine h.invariant (P := fun s => ∃ r, (system ids).Reach (Disciplined ids) r ∧
    Shadows ids initTls s r) ?_ ?_
  · rintro s rfl
    exact ⟨.initial, .init rfl, .initial⟩
  · rintro s a s' - ⟨r, reach, sh⟩ sheltered hstep
    exact sh.step reach sheltered hstep

/-- In every state that sheltered callers reach, a thread that holds the lock for writing excludes
all others, and neither `INVALID_UNLOCK_ORDER` nor `MULTIPLE_UNLOCK` has occurred. -/
theorem exclusive_of_reach (h : (localSystem ids initTls).Reach (Sheltered ids initTls) s) :
    (∀ t u, u ≠ t → (s.thread t).holds ≠ [] → .write ∉ (s.thread u).holds) ∧
      s.crash ≠ some .invalidUnlockOrder ∧ s.crash ≠ some .multipleUnlock := by
  obtain ⟨r, reach, sh⟩ := shadows_of_reach h
  obtain ⟨owner, inv⟩ := inv_of_reach reach
  rw [← sh.crash]
  refine ⟨fun t u hu hholds hwrite => hholds ?_, ?_, ?_⟩
  · have hwrites : 0 < (r.thread u).writes := by
      rw [Thread.writes, sh.holds]
      exact List.count_pos_iff.2 hwrite
    have howner := (inv.fits u).owner.2 (.inl hwrites)
    rw [← sh.holds, Thread.holds_eq_nil_iff]
    refine ⟨inv.exclusive u howner t hu.symm, Nat.eq_zero_of_not_pos fun hpos => ?_⟩
    have hother := (inv.fits t).owner.2 (.inl hpos)
    rw [howner] at hother
    exact hu (Option.some.inj hother)
  · rcases inv.crash with h | h <;> simp [h]
  · rcases inv.crash with h | h <;> simp [h]

end Shadow

end Lock

end DhNet
