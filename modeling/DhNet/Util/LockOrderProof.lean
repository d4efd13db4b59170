import DhNet.Util.DeadLockProfilerProof
import DhNet.Util.LockOrder

/-!
# Circular waits are reported

As long as nothing was reported, the stack of a thread in the profiler has the ids of the names for
which it called `PushLock`, and from each entry to the one above it there is an edge unless they are
the same (`Tracks`).  These are the names of its guards and, on top, of the one it is acquiring.  So
each guard of a waiting thread reaches the lock it waits for, and a circular wait across names is a
cycle.
-/

namespace DhNet

namespace DeadLockProfiler

section Names

variable {T N : Type*} {s : State T N} {name : N}

/-- Registering a name does not give it the id of another one. -/
theorem State.Inv.injective_register (h : s.Inv)
    (hinj : ∀ {name other id}, s.nameToId name = some id → s.nameToId other = some id →
      name = other) {other : N} (hother : s.nameToId other = some (s.lockId name)) :
    other = name := by
  cases hname : s.nameToId name with
  | some id => exact hinj hother (by rw [State.lockId, hname, Option.getD_some])
  | none =>
    have := h.named_lt (h.id_named hother)
    rw [State.lockId, hname, Option.getD_none] at this
    exact absurd this (lt_irrefl _)

variable [DecidableEq N]

theorem nameToId_register (other : N) : (s.register name).nameToId other =
    if other = name then some (s.lockId name) else s.nameToId other := by
  unfold State.register State.lockId
  split_ifs with hother
  · subst hother
    cases hname : s.nameToId other <;> simp [hname]
  · cases s.nameToId name <;> simp [hother]

theorem nameToId_register_of_some {other : N} {id : ℕ} (h : s.nameToId other = some id) :
    (s.register name).nameToId other = some id := by
  rw [nameToId_register]
  split_ifs with hother
  · subst hother
    rw [State.lockId, h, Option.getD_some]
  · exact h

end Names

section Stacks

variable {T N : Type*} [DecidableEq T] {s : State T N} {t : T} {prevId lockId : ℕ}

theorem nameToId_pushOn : (s.pushOn t prevId lockId).nameToId = s.nameToId := by
  unfold State.pushOn
  split_ifs
  · rfl
  · rfl
  · cases checkCycle (s.insertEdge prevId lockId).lockHistory s.lockCount <;> rfl

theorem lockStack_pushOn (hrunning : (s.pushOn t prevId lockId).stop = none) :
    (s.pushOn t prevId lockId).lockStack =
      Function.update s.lockStack t (lockId :: s.lockStack t) := by
  unfold State.pushOn at hrunning ⊢
  split_ifs with hsame hknown
  · rfl
  · rfl
  · rw [if_neg hsame, if_neg hknown] at hrunning
    cases hcheck : checkCycle (s.insertEdge prevId lockId).lockHistory s.lockCount with
    | ok _ => rfl
    | error stop => simp [hcheck] at hrunning

end Stacks

section Tracks

variable {T N : Type*} {s : State T N} {t : T} {name : N} {names : T → List N}

/-- What the profiler knows of the names for which the threads called `PushLock` and not `PopLock`,
the last one first, as long as it has reported nothing. -/
structure Tracks (s : State T N) (names : T → List N) : Prop where
  inv : s.Inv
  running : s.stop = none
  injective : ∀ {name other id}, s.nameToId name = some id → s.nameToId other = some id →
    name = other
  stack : ∀ t, (names t).map s.nameToId = (s.lockStack t).map some
  chain : ∀ t, (s.lockStack t).IsChain fun a b => a = b ∨ s.lockHistory.Edge b a

theorem tracks_initial : Tracks (State.initial : State T N) fun _ => [] :=
  ⟨inv_initial, rfl, by simp [State.initial], fun _ => rfl, fun _ => .nil⟩

theorem Tracks.exists_id (h : Tracks s names) {t : T} {name : N} (hname : name ∈ names t) :
    ∃ id ∈ s.lockStack t, s.nameToId name = some id := by
  have hmem : s.nameToId name ∈ (s.lockStack t).map some := by
    rw [← h.stack t]
    exact List.mem_map_of_mem hname
  obtain ⟨id, hid, heq⟩ := List.mem_map.1 hmem
  exact ⟨id, hid, heq.symm⟩

/-- A thread that asked for `name` last reaches its id from the ids of all its names. -/
theorem Tracks.reflTransGen (h : Tracks s names) {rest : List N} (hnames : names t = name :: rest)
    {other : N} (hother : other ∈ rest) :
    Relation.ReflTransGen s.lockHistory.Edge ((s.nameToId other).getD 0)
      ((s.nameToId name).getD 0) := by
  have hmem : other ∈ names t := hnames ▸ List.mem_cons_of_mem _ hother
  obtain ⟨id, hid, hotherId⟩ := h.exists_id hmem
  have hstack := h.stack t
  rw [hnames, List.map_cons] at hstack
  obtain ⟨top, ids, hids, htop, -⟩ := List.map_eq_cons_iff.1 hstack.symm
  rw [hotherId, ← htop]
  have hchain := h.chain t
  rw [hids] at hid hchain
  exact Graph.reflTransGen_of_climb hchain hid

end Tracks

section Effects

variable {T N : Type*} [DecidableEq T] [DecidableEq N] {s : State T N} {t : T} {name : N}
  {prevId lockId : ℕ}

theorem nameToId_pushLock : (pushLock s t name).nameToId = (s.register name).nameToId := by
  unfold pushLock
  cases s.lockStack t with
  | nil => rfl
  | cons prevId rest => exact nameToId_pushOn

/-- A `PushLock` that returns has pushed the id. -/
theorem lockStack_pushLock (hrunning : (pushLock s t name).stop = none) :
    (pushLock s t name).lockStack =
      Function.update s.lockStack t (s.lockId name :: s.lockStack t) := by
  unfold pushLock at hrunning ⊢
  cases hstack : s.lockStack t with
  | nil => simp [State.push, lockStack_register, hstack]
  | cons prevId rest =>
    rw [hstack] at hrunning
    have := lockStack_pushOn hrunning
    rw [lockStack_register, hstack] at this
    exact this

/-- `PopLock` with the name of the top. -/
theorem popLock_of_top {id : ℕ} {rest : List ℕ} (hstack : s.lockStack t = id :: rest)
    (hname : s.nameToId name = some id) :
    popLock s t name = { s with lockStack := Function.update s.lockStack t rest } := by
  simp [popLock, hstack, hname, State.lookup]

variable {names : T → List N}

/-- `PushLock` returned. -/
theorem Tracks.pushLock (h : Tracks s names) (hrunning : (pushLock s t name).stop = none) :
    Tracks (pushLock s t name) (Function.update names t (name :: names t)) := by
  refine ⟨(h.inv.pushLock h.running t name).1, hrunning, fun {name' other id} hname hother => ?_,
    fun u => ?_, fun u => ?_⟩
  · rw [nameToId_pushLock, nameToId_register] at hname hother
    split_ifs at hname hother with hnew hnew' hnew'
    · rw [hnew, hnew']
    · cases hname
      rw [hnew, h.inv.injective_register h.injective hother]
    · cases hother
      rw [hnew', h.inv.injective_register h.injective hname]
    · exact h.injective hname hother
  · have hmap : (names u).map (s.register name).nameToId = (s.lockStack u).map some := by
      rw [← h.stack u]
      refine List.map_congr_left fun other hother => ?_
      obtain ⟨id, -, hid⟩ := h.exists_id hother
      rw [nameToId_register_of_some hid, hid]
    rw [nameToId_pushLock, lockStack_pushLock hrunning]
    rcases eq_or_ne u t with rfl | hne
    · simp [hmap, nameToId_register]
    · simp [hne, hmap]
  · have hchain : (s.lockStack u).IsChain fun a b =>
        a = b ∨ (DeadLockProfiler.pushLock s t name).lockHistory.Edge b a :=
      (h.chain u).imp fun a b => Or.imp_right fun hab => edge_pushLock.2 (.inl hab)
    rw [lockStack_pushLock hrunning]
    rcases eq_or_ne u t with rfl | hne
    · rw [Function.update_self]
      cases hstack : s.lockStack u with
      | nil => exact List.isChain_singleton _
      | cons prevId rest =>
        refine List.isChain_cons_cons.2 ⟨?_, hstack ▸ hchain⟩
        by_cases hsame : s.lockId name = prevId
        · exact .inl hsame
        · exact .inr (edge_pushLock.2 (.inr ⟨by simp [hstack], rfl, Ne.symm hsame⟩))
    · rw [Function.update_of_ne hne]
      exact hchain

/-- `PopLock` for the last name. -/
theorem Tracks.popLock {rest : List N} (h : Tracks s names) (hnames : names t = name :: rest) :
    Tracks (popLock s t name) (Function.update names t rest) := by
  have hstack := h.stack t
  rw [hnames, List.map_cons] at hstack
  obtain ⟨id, ids, hids, hid, hrest⟩ := List.map_eq_cons_iff.1 hstack.symm
  have hpop := popLock_of_top hids hid.symm
  have hinv := h.inv.popLock t name
  rw [hpop] at hinv ⊢
  refine ⟨hinv, h.running, h.injective, fun u => ?_, fun u => ?_⟩
  · rcases eq_or_ne u t with rfl | hne
    · simp [hrest]
    · simpa [hne] using h.stack u
  · rcases eq_or_ne u t with rfl | hne
    · have hchain := h.chain u
      rw [hids] at hchain
      simpa using hchain.tail
    · simpa [hne] using h.chain u

end Effects

end DeadLockProfiler

namespace LockOrder

variable {L T N : Type*}

/-- The names for which a thread has called `PushLock` and not `PopLock`, the last one first. -/
def State.names (s : State L T N) (t : T) : List N :=
  match s.call t with
  | some (.acquire guard _) => guard.name :: (s.guards t).map (·.name)
  | _ => (s.guards t).map (·.name)

section Names

variable [DecidableEq T] {s s' : State L T N} {t : T}

/-- Only the names of the thread that makes a call change. -/
theorem names_eq_update {names : List N} (hnames : s'.names t = names)
    (hcall : ∀ u ≠ t, s'.call u = s.call u) (hguards : ∀ u ≠ t, s'.guards u = s.guards u) :
    s'.names = Function.update s.names t names := by
  funext u
  rcases eq_or_ne u t with rfl | hne
  · rw [Function.update_self, hnames]
  · rw [Function.update_of_ne hne, State.names, State.names, hcall u hne, hguards u hne]

variable [DecidableEq L]

/-- The accesses to the locks change neither the profiler nor the names. -/
theorem next_spec {lThreadId : T → BitVec 32} {now : UInt64}
    (hnext : s.next lThreadId t now = some s') :
    s'.profiler = s.profiler ∧ s'.names = s.names := by
  have hnames : ∀ s' : State L T N, (∀ u ≠ t, s'.call u = s.call u) →
      (∀ u ≠ t, s'.guards u = s.guards u) → s'.names t = s.names t → s'.names = s.names := by
    intro s' hcall hguards hsame
    rw [names_eq_update hsame hcall hguards, Function.update_eq_self]
  unfold State.next at hnext
  rcases hcall : s.call t with _ | ⟨guard, pc⟩ | ⟨guard, pc⟩
  · simp [hcall] at hnext
  all_goals
    simp only [hcall, Option.map_eq_some_iff] at hnext
    obtain ⟨r, -, rfl⟩ := hnext
    split_ifs
    all_goals
      refine ⟨rfl, hnames _ (fun u hne => ?_) (fun u hne => ?_) ?_⟩ <;>
        simp [State.setCall, State.setGuards, State.names, *]

end Names

/-- The profiler has reported a deadlock. -/
def State.Reported (s : State L T N) : Prop :=
  ∃ search here there log,
    s.profiler.stop = some (.deadlockDetected search here there log)

/-- The profiler follows the threads until it reports a deadlock. -/
def State.Followed (s : State L T N) : Prop :=
  s.Reported ∨ DeadLockProfiler.Tracks s.profiler s.names

section Calls

variable [DecidableEq T] [DecidableEq N] {s : State L T N} {t : T} {guard : Guard L N}

theorem followed_lock {pc : Lock.Pc} (h : DeadLockProfiler.Tracks s.profiler s.names)
    (hcall : s.call t = none) :
    ({ s with profiler := DeadLockProfiler.pushLock s.profiler t guard.name }.setCall t
      (some (.acquire guard pc))).Followed := by
  cases hstop : (DeadLockProfiler.pushLock s.profiler t guard.name).stop with
  | some stop =>
    obtain ⟨search, here, there, log, rfl, -⟩ :=
      (h.inv.pushLock h.running t guard.name).2 stop hstop
    exact .inl ⟨search, here, there, log, hstop⟩
  | none =>
    have hnames : ({ s with profiler := DeadLockProfiler.pushLock s.profiler t guard.name }.setCall
        t (some (.acquire guard pc))).names t = guard.name :: s.names t := by
      simp [State.names, State.setCall, hcall]
    right
    rw [names_eq_update hnames (fun u hne => Function.update_of_ne hne _ _) fun u _ => rfl]
    exact h.pushLock hstop

theorem followed_unlock {pc : Lock.Pc} {guards : List (Guard L N)}
    (h : DeadLockProfiler.Tracks s.profiler s.names) (hcall : s.call t = none)
    (hguards : s.guards t = guard :: guards) :
    (({ s with profiler := DeadLockProfiler.popLock s.profiler t guard.name }.setGuards t
      guards).setCall t (some (.release guard pc))).Followed := by
  have hnames : (({ s with profiler := DeadLockProfiler.popLock s.profiler t guard.name }.setGuards
      t guards).setCall t (some (.release guard pc))).names t = guards.map (·.name) := by
    simp [State.names, State.setCall, State.setGuards]
  right
  rw [names_eq_update (s := s) hnames (fun u hne => Function.update_of_ne hne _ _)
    fun u hne => Function.update_of_ne hne _ _]
  exact h.popLock (by simp [State.names, hcall, hguards])

end Calls

variable [DecidableEq L] [DecidableEq T] [DecidableEq N] {s : State L T N}

theorem followed_of_reachable {lThreadId : T → BitVec 32}
    (hreach : (system lThreadId L N).Reachable s) : s.Followed := by
  refine hreach.invariant (fun s hs => ?_) fun s a s' hinv hstep => ?_
  · subst hs
    exact .inr DeadLockProfiler.tracks_initial
  · obtain ⟨t, op⟩ := a
    simp only [system, step] at hstep
    split_ifs at hstep with hcrash
    have htracks : DeadLockProfiler.Tracks s.profiler s.names := by
      refine hinv.resolve_left ?_
      rintro ⟨search, here, there, log, hstop⟩
      simp [hstop] at hcrash
    split at hstep
    · rename_i guard hop hcall
      cases hstep
      exact followed_lock htracks hcall
    · rename_i guard guards hop hcall hguards
      cases hstep
      exact followed_unlock htracks hcall hguards
    · obtain ⟨hprofiler, hnames⟩ := next_spec hstep
      right
      rw [hprofiler, hnames]
      exact htracks
    · cases hstep

/-- If threads wait for each other in a ring, each for a lock that the next one holds, and the names
of these locks are not all the same, then the profiler has reported a deadlock. -/
theorem circular_wait_detected {lThreadId : T → BitVec 32} {s : State L T N}
    (hreach : (system lThreadId L N).Reachable s) {n : ℕ} {thread : Fin (n + 1) → T}
    {lock : Fin (n + 1) → L} {name : Fin (n + 1) → N}
    (hholds : ∀ i, s.Holds (thread i) (lock i) (name i))
    (hacquires : ∀ i, s.Acquires (thread i) (lock (i + 1)) (name (i + 1)))
    {i j : Fin (n + 1)} (hnames : name i ≠ name j) :
    s.Reported := by
  refine (followed_of_reachable hreach).resolve_right fun htracks => ?_
  have hwait : ∀ i, ∃ rest, s.names (thread i) = name (i + 1) :: rest ∧ name i ∈ rest := by
    intro i
    obtain ⟨held, hheld, -, hname⟩ := hholds i
    obtain ⟨guard, pc, hcall, -, hguard⟩ := hacquires i
    refine ⟨(s.guards (thread i)).map (·.name), by simp [State.names, hcall, hguard], ?_⟩
    exact hname ▸ List.mem_map_of_mem hheld
  have hring : ∀ i, Relation.ReflTransGen s.profiler.lockHistory.Edge
      ((s.profiler.nameToId (name i)).getD 0) ((s.profiler.nameToId (name (i + 1))).getD 0) := by
    intro i
    obtain ⟨rest, hrest, hmem⟩ := hwait i
    exact htracks.reflTransGen hrest hmem
  have hid : ∀ i, ∃ id, s.profiler.nameToId (name i) = some id := by
    intro i
    obtain ⟨rest, hrest, hmem⟩ := hwait i
    have hname : name i ∈ s.names (thread i) := hrest ▸ List.mem_cons_of_mem _ hmem
    obtain ⟨id, -, hid⟩ := htracks.exists_id hname
    exact ⟨id, hid⟩
  refine htracks.inv.acyclic htracks.running (Graph.cyclic_of_ring hring (i := i) (j := j) ?_)
  obtain ⟨a, ha⟩ := hid i
  obtain ⟨b, hb⟩ := hid j
  rw [ha, hb, Option.getD_some, Option.getD_some]
  rintro rfl
  exact hnames (htracks.injective ha hb)

/-- Two threads hold a lock each and ask for the other one. -/
theorem circular_wait_detected_two_threads : ∃ s : State (Fin 2) (Fin 2) ℕ,
    (∀ i : Fin 2, s.Holds i i i.val ∧ s.Acquires i (i + 1) (i + 1).val) ∧ s.Reported := by
  have hrun : ((system (fun t : Fin 2 => BitVec.ofNat 32 (t.val + 1)) (Fin 2) ℕ).run .initial
      (List.flatten [[(0, .lock ⟨0, 0, .write⟩)], List.replicate 4 (0, .next 0),
        [(1, .lock ⟨1, 1, .write⟩)], List.replicate 4 (1, .next 0),
        [(0, .lock ⟨1, 1, .read⟩), (1, .lock ⟨0, 0, .write⟩)]])).any (fun s =>
          decide (s.guards 0 = [⟨0, 0, .write⟩] ∧ s.guards 1 = [⟨1, 1, .write⟩] ∧
            s.call 0 = some (.acquire ⟨1, 1, .read⟩ .readLoad) ∧
            s.call 1 = some (.acquire ⟨0, 0, .write⟩ .writeLoad))) = true := by
    decide +kernel
  obtain ⟨s, hs, hprop⟩ := (Option.any_eq_true _ _).1 hrun
  obtain ⟨hguards0, hguards1, hcall0, hcall1⟩ := of_decide_eq_true hprop
  have hholds : ∀ i : Fin 2, s.Holds i i i.val :=
    Fin.forall_fin_two.2 ⟨⟨⟨0, 0, .write⟩, by simp [hguards0], rfl, rfl⟩,
      ⟨⟨1, 1, .write⟩, by simp [hguards1], rfl, rfl⟩⟩
  have hacquires : ∀ i : Fin 2, s.Acquires i (i + 1) (i + 1).val :=
    Fin.forall_fin_two.2 ⟨⟨_, _, hcall0, rfl, rfl⟩, ⟨_, _, hcall1, rfl, rfl⟩⟩
  exact ⟨s, fun i => ⟨hholds i, hacquires i⟩,
    circular_wait_detected (Transition.System.reachable_of_run (.init rfl) hs) hholds hacquires
      (i := 0) (j := 1) (by decide)⟩

end LockOrder

end DhNet
