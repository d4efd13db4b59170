import DhNet.Lib.Counting
import DhNet.Db.DbSystem

/-!
# Connections of the database pool

A connection that `Init` has put into the pool is in the queue or in one live `DbConnection` until
`Shutdown` closes it.

* `Inv`: every connection is counted once, in the queue, by a worker or among the closed ones.
* `connections_exclusive`: what this says about every reachable state.
* `acquire_succeeds_iff`: a task that holds no connection gets one exactly when `Init` has opened
  all connections or none.
-/

namespace DhNet

namespace Db

/-! ## The pool -/

namespace Pool

variable (server : Server)

/-- `Init` puts this connection into the pool. -/
def opens (i : ℕ) : Bool := server.mysqlInit i && connected server i

/-- `Init` closes this connection again. -/
def refuses (i : ℕ) : Bool := server.mysqlInit i && !connected server i

theorem foldl_openConnection (l : List ℕ) (p : Pool) :
    l.foldl (openConnection server) p =
      ⟨p.connections ++ l.filter (opens server), p.poolSize + (l.filter (opens server)).length,
        p.closed ++ l.filter (refuses server)⟩ := by
  induction l generalizing p with
  | nil => simp
  | cons i l ih =>
    rw [List.foldl_cons, ih]
    cases hinit : server.mysqlInit i <;> cases hconnected : connected server i <;>
      simp [openConnection, opens, refuses, hinit, hconnected, Nat.add_assoc, Nat.add_comm]

theorem init_eq (n : ℕ) :
    init server n = ⟨(List.range n).filter (opens server),
      ((List.range n).filter (opens server)).length, (List.range n).filter (refuses server)⟩ := by
  simp [init, foldl_openConnection, empty]

theorem init_nodup (n : ℕ) : (init server n).connections.Nodup := by
  rw [init_eq]
  exact List.nodup_range.filter _

theorem init_disjoint {n i : ℕ} (h : i ∈ (init server n).connections) :
    i ∉ (init server n).closed := by
  rw [init_eq] at h ⊢
  simp only [List.mem_filter, opens, refuses, Bool.and_eq_true, Bool.not_eq_true'] at h ⊢
  rintro ⟨-, -, hrefused⟩
  rw [h.2.2] at hrefused
  cases hrefused

theorem isReady_iff (n : ℕ) : (init server n).isReady ↔ (init server n).connections ≠ [] := by
  rw [init_eq]
  simp only [isReady, decide_eq_true_eq, List.length_pos_iff]

theorem closeLoop_eq (connections closed : List ℕ) :
    closeLoop connections closed = closed ++ connections := by
  induction connections generalizing closed with
  | nil => simp [closeLoop]
  | cons conn rest ih => simp [closeLoop, ih]

/-- Who gets a connection and what stays. -/
theorem acquire_count (p : Pool) (c : ℕ) :
    p.acquire.2.connections.count c + [p.acquire.1].reduceOption.count c =
      p.connections.count c := by
  cases hp : p.connections with
  | nil => simp [acquire, hp]
  | cons conn rest => simp [acquire, hp, List.count_cons]

theorem acquire_closed (p : Pool) : p.acquire.2.closed = p.closed := by
  cases hp : p.connections with
  | nil => simp [acquire, hp]
  | cons conn rest => simp [acquire, hp]

theorem release_count (p : Pool) (conn : Option ℕ) (c : ℕ) :
    (p.release conn).connections.count c =
      p.connections.count c + [conn].reduceOption.count c := by
  cases conn with
  | none => simp [release]
  | some conn => simp [release]

theorem release_closed (p : Pool) (conn : Option ℕ) : (p.release conn).closed = p.closed := by
  cases conn with
  | none => rfl
  | some conn => rfl

end Pool

/-! ## The invariant -/

section Invariant

variable {n : ℕ} {K T : Type*} {server : Server} {code : K → Task} {bound : K → ℕ}
variable {s s' : State n K T}

/-- How often a connection is in the queue or in a live `DbConnection`. -/
def State.owned (s : State n K T) (c : ℕ) : ℕ :=
  s.pool.connections.count c + ∑ w, (s.worker w).held.count c

/-- The owner has joined this worker. -/
def OwnerPc.Joined : OwnerPc → Fin n → Prop
  | .joining count, w => w < count
  | .closing, _ => True
  | .shutDown, _ => True
  | .destroyed, _ => True
  | _, _ => False

/-- `Shutdown` has not been called. -/
def OwnerPc.Open : OwnerPc → Prop
  | .starting _ => True
  | .serving => True
  | _ => False

/-- `Shutdown` has closed the pool. -/
structure Shut (server : Server) (s : State n K T) : Prop where
  stopped : s.running = false
  done : ∀ w, (s.worker w).Done
  empty : s.pool.connections = []
  closed : ∀ c, s.pool.closed.count c =
    (Pool.init server n).closed.count c + (Pool.init server n).connections.count c

/-- Every connection that `Init` has put into the pool is in one place. -/
structure Owned (server : Server) (s : State n K T) : Prop where
  closed : s.pool.closed = (Pool.init server n).closed
  owned : ∀ c, s.owned c = (Pool.init server n).connections.count c

/-- Tasks destroy what they construct, joined workers have ended, and every connection has one place
until `Shutdown` closes it. -/
structure Inv (server : Server) (bound : K → ℕ) (s : State n K T) : Prop where
  balanced : ∀ w k task conns, s.worker w = .running k task conns →
    conns.length ≤ bound k ∧ task.Scoped (bound k) conns.length
  joined : ∀ w, s.owner.Joined w → (s.worker w).Done
  running : s.owner.Open ↔ s.running = true
  pool : Owned server s ∨ Shut server s
  shut : s.owner = .shutDown ∨ s.owner = .destroyed → Shut server s

theorem Worker.Done.held {w : Worker K} (h : w.Done) : w.held = [] := by
  rcases h with rfl | rfl <;> rfl

theorem Inv.initial : Inv (T := T) server bound (.initial (n := n) server) where
  balanced _ _ _ _ h := by cases h
  joined _ h := h.elim
  running := iff_of_true trivial rfl
  pool := .inl ⟨rfl, fun c => by simp [State.owned, State.initial, Worker.held]⟩
  shut h := by rcases h with h | h <;> cases h

/-- A live worker moves, and what it takes from the pool it holds. -/
theorem Inv.update (inv : Inv server bound s) {w : Fin n} {th : Worker K}
    (live : ¬ (s.worker w).Done) (hworker : s'.worker = Function.update s.worker w th)
    (howner : s'.owner = s.owner) (hrunning : s'.running = s.running)
    (balanced : ∀ k task conns, th = .running k task conns →
      conns.length ≤ bound k ∧ task.Scoped (bound k) conns.length)
    (hclosed : s'.pool.closed = s.pool.closed)
    (hcount : ∀ c, s'.pool.connections.count c + th.held.count c =
      s.pool.connections.count c + (s.worker w).held.count c) : Inv server bound s' where
  balanced := by
    intro w' k task conns h
    rw [hworker] at h
    rcases eq_or_ne w' w with rfl | hne
    · rw [Function.update_self] at h
      exact balanced k task conns h
    · rw [Function.update_of_ne hne] at h
      exact inv.balanced w' k task conns h
  joined := by
    intro w' h
    rw [howner] at h
    rcases eq_or_ne w' w with rfl | hne
    · exact absurd (inv.joined w' h) live
    · rw [hworker, Function.update_of_ne hne]
      exact inv.joined w' h
  running := by
    rw [hrunning, howner]
    exact inv.running
  pool := by
    have howned := inv.pool.resolve_right fun hshut => live (hshut.done w)
    refine .inl ⟨hclosed.trans howned.closed, fun c => ?_⟩
    have hsum := Counting.sum_update_add s.worker (fun th => th.held.count c) w th
    have hcount := hcount c
    rw [← howned.owned c, State.owned, State.owned, hworker]
    omega
  shut h := absurd ((inv.shut (howner ▸ h)).done w) live

/-- The owner goes on and the workers are what they were. -/
theorem Inv.setOwner (inv : Inv server bound s) (hworker : s'.worker = s.worker)
    (hpool : s'.pool = s.pool) (running : s'.owner.Open ↔ s'.running = true)
    (hrunning : s.running = false → s'.running = false)
    (joined : ∀ w, s'.owner.Joined w → (s.worker w).Done)
    (shut : s'.owner = .shutDown ∨ s'.owner = .destroyed → Shut server s) :
    Inv server bound s' := by
  have hshut : Shut server s → Shut server s' := fun h =>
    ⟨hrunning h.stopped, hworker ▸ h.done, hpool ▸ h.empty, hpool ▸ h.closed⟩
  refine ⟨hworker ▸ inv.balanced, hworker ▸ joined, running, ?_, fun h => hshut (shut h)⟩
  refine inv.pool.imp (fun h => ⟨hpool ▸ h.closed, fun c => ?_⟩) hshut
  rw [← h.owned c, State.owned, State.owned, hworker, hpool]

/-- The pool, the workers and the owner are what they were. -/
theorem Inv.same (inv : Inv server bound s) (hworker : s'.worker = s.worker)
    (hpool : s'.pool = s.pool) (howner : s'.owner = s.owner) (hrunning : s'.running = s.running) :
    Inv server bound s' := by
  obtain ⟨pool, worker, tasks, running, notifying, owner, pushed, ran, answers⟩ := s
  obtain ⟨pool', worker', tasks', running', notifying', owner', pushed', ran', answers'⟩ := s'
  subst hworker hpool howner hrunning
  exact ⟨inv.balanced, inv.joined, inv.running,
    inv.pool.imp (fun h => ⟨h.closed, h.owned⟩) fun h => ⟨h.stopped, h.done, h.empty, h.closed⟩,
    fun h => ⟨(inv.shut h).stopped, (inv.shut h).done, (inv.shut h).empty, (inv.shut h).closed⟩⟩

theorem Inv.taskStep (inv : Inv server bound s) {w : Fin n} {outcome : Bool} {k : K} {task : Task}
    {conns : List (Option ℕ)} (running : s.worker w = .running k task conns) :
    Inv server bound (taskStep s w outcome k conns task) := by
  have live : ¬ (s.worker w).Done := by
    rw [running]
    rintro (h | h) <;> cases h
  obtain ⟨hbound, hbalanced⟩ := inv.balanced w k task conns running
  have hheld : (s.worker w).held = conns.reduceOption := by rw [running, Worker.held]
  cases task with
  | ret =>
    obtain rfl : conns = [] := List.length_eq_zero_iff.1 hbalanced
    refine inv.update live rfl rfl rfl nofun rfl fun c => ?_
    rw [hheld]
    rfl
  | construct body =>
    refine inv.update live rfl rfl rfl ?_ (Pool.acquire_closed _) fun c => ?_
    · rintro k' task' conns' ⟨⟩
      exact ⟨hbalanced.1, hbalanced.2 _⟩
    · have hacquire := Pool.acquire_count s.pool c
      rw [hheld, Worker.held, ← List.singleton_append, List.reduceOption_append, List.count_append]
      show s.pool.acquire.2.connections.count c + _ = _
      omega
  | destruct next =>
    obtain ⟨hpos, hnext⟩ := hbalanced
    obtain ⟨conn, rest, rfl⟩ := List.exists_cons_of_length_pos hpos
    refine inv.update live rfl rfl rfl ?_ (Pool.release_closed _ _) fun c => ?_
    · rintro k' task' conns' ⟨⟩
      exact ⟨(Nat.le_succ _).trans hbound, hnext⟩
    · have hrelease := Pool.release_count s.pool conn c
      rw [hheld, ← List.singleton_append, List.reduceOption_append, List.count_append]
      show (s.pool.release conn).connections.count c + rest.reduceOption.count c = _
      omega
  | branch next =>
    refine inv.update live rfl rfl rfl ?_ rfl fun c => ?_
    · rintro k' task' conns' ⟨⟩
      exact ⟨hbound, hbalanced outcome⟩
    · rw [hheld]
      rfl
  | onLoginResult ok next =>
    refine inv.update live rfl rfl rfl ?_ rfl fun c => ?_
    · rintro k' task' conns' ⟨⟩
      exact ⟨hbound, hbalanced⟩
    · rw [hheld]
      rfl

theorem Worker.notified_held (w : Worker K) : w.notified.held = w.held := by
  cases w with
  | _ => rfl

theorem Worker.Done.notified {w : Worker K} (h : w.Done) : w.notified.Done := by
  rcases h with rfl | rfl
  · exact .inl rfl
  · exact .inr rfl

theorem Worker.notified_eq_running {w : Worker K} {k : K} {task : Task} {conns : List (Option ℕ)}
    (h : w.notified = .running k task conns) : w = .running k task conns := by
  cases w with
  | waiting => cases h
  | _ => exact h

theorem Inv.stopped (inv : Inv server bound s) (h : ¬ s.owner.Open) : s.running = false :=
  Bool.eq_false_of_not_eq_true fun hrunning => h (inv.running.2 hrunning)

theorem Inv.notifyAll (inv : Inv server bound s) (howner : s.owner = .notifyAll) :
    Inv server bound
      { s with worker := fun w => (s.worker w).notified, owner := .joining 0 } where
  balanced w k task conns h := inv.balanced w k task conns (Worker.notified_eq_running h)
  joined w h := absurd h (Nat.not_lt_zero w)
  running := by
    rw [inv.stopped (by rw [howner]; exact id)]
    exact iff_of_false id nofun
  pool := by
    refine inv.pool.imp (fun h => ⟨h.closed, fun c => ?_⟩) fun h =>
      ⟨h.stopped, fun w => (h.done w).notified, h.empty, h.closed⟩
    rw [← h.owned c]
    simp only [State.owned, Worker.notified_held]
  shut h := by rcases h with h | h <;> cases h

/-- `DbConnectionPool::Shutdown` finds every connection in the queue. -/
theorem Inv.close (inv : Inv server bound s) (howner : s.owner = .closing) :
    Inv server bound { s with pool := s.pool.shutdown, owner := .shutDown } := by
  have hdone : ∀ w, (s.worker w).Done := fun w => inv.joined w (by rw [howner]; trivial)
  have hstopped : s.running = false := inv.stopped (by rw [howner]; exact id)
  have hclosed : ∀ c, s.pool.shutdown.closed.count c =
      (Pool.init server n).closed.count c + (Pool.init server n).connections.count c := by
    intro c
    rw [Pool.shutdown, Pool.closeLoop_eq, List.count_append]
    rcases inv.pool with h | h
    · have howned := h.owned c
      simp only [State.owned, (hdone _).held, List.count_nil, Finset.sum_const_zero,
        Nat.add_zero] at howned
      rw [h.closed, howned]
    · rw [h.empty, h.closed c, List.count_nil, Nat.add_zero]
  have hshut : Shut server { s with pool := s.pool.shutdown, owner := .shutDown } :=
    ⟨hstopped, hdone, rfl, hclosed⟩
  refine ⟨inv.balanced, fun w _ => hdone w, ?_, .inr hshut, fun _ => hshut⟩
  rw [hstopped]
  exact iff_of_false id nofun

/-- `Init` starts a worker. -/
theorem Inv.start (inv : Inv server bound s) {w : Fin n} (howner : s.owner = .starting w)
    (hnew : s.worker w = .notStarted) :
    Inv server bound ({ s with owner := .starting (w + 1) }.setWorker w .ready) := by
  have hopen : s.owner.Open := by rw [howner]; trivial
  have howned : Owned server s := inv.pool.resolve_right fun hshut => by
    have hrunning := inv.running.1 hopen
    rw [hshut.stopped] at hrunning
    cases hrunning
  refine ⟨?_, fun _ h => h.elim, iff_of_true trivial (inv.running.1 hopen),
    .inl ⟨howned.closed, fun c => ?_⟩, ?_⟩
  · intro w' k task conns h
    simp only [State.setWorker] at h
    rcases eq_or_ne w' w with rfl | hne
    · rw [Function.update_self] at h
      cases h
    · rw [Function.update_of_ne hne] at h
      exact inv.balanced w' k task conns h
  · have hsum := Counting.sum_update_add s.worker (fun th => th.held.count c) w .ready
    rw [hnew] at hsum
    rw [← howned.owned c]
    exact congrArg (s.pool.connections.count c + ·) hsum
  · rintro (h | h) <;> cases h

theorem Inv.moves [DecidableEq T] (inv : Inv server bound s)
    (balanced : ∀ k, (code k).Scoped (bound k) 0) (hreach : (system n T server code).Reachable s)
    (h : Moves server code s s') : Inv server bound s' := by
  have hlive : ∀ {w : Fin n}, s.worker w = .ready ∨ s.worker w = .waiting →
      ¬ (s.worker w).Done := by
    rintro w (h | h) <;> rw [h] <;> rintro (h | h) <;> cases h
  cases h with
  | start w owner ready => exact inv.start owner (notStarted_of_starting hreach owner le_rfl)
  | started owner all =>
    have hrunning := inv.running.1 (by rw [owner]; trivial)
    refine inv.setOwner rfl rfl (iff_of_true trivial hrunning) id (fun w h => h.elim) ?_
    rintro (h | h) <;> cases h
  | stop owner =>
    refine inv.setOwner rfl rfl (iff_of_false id nofun) (fun _ => rfl)
      (fun w h => h.elim) ?_
    rintro (h | h) <;> cases h
  | destroy owner running =>
    have hshut : Shut server s := by
      refine inv.shut (.inl ?_)
      cases howner : s.owner with
      | shutDown => rfl
      | serving =>
        have hrunning := inv.running.1 (by rw [howner]; trivial)
        rw [running] at hrunning
        cases hrunning
      | _ =>
        rw [howner] at owner
        cases owner
    refine inv.setOwner rfl rfl (iff_of_false id ?_) id (fun w _ => hshut.done w)
      fun _ => hshut
    exact fun h => nomatch running.symm.trans h
  | notifyAll owner => exact inv.notifyAll owner
  | join w owner done =>
    have hstopped := inv.stopped (by rw [owner]; exact id)
    refine inv.setOwner rfl rfl (iff_of_false id ?_) id (fun w' h => ?_) ?_
    · exact fun h => nomatch hstopped.symm.trans h
    · rcases Nat.lt_succ_iff_lt_or_eq.1 h with hlt | heq
      · exact inv.joined w' (by rw [owner]; exact hlt)
      · rwa [Fin.ext heq]
    · rintro (h | h) <;> cases h
  | joined owner all =>
    have hstopped := inv.stopped (by rw [owner]; exact id)
    refine inv.setOwner rfl rfl (iff_of_false id ?_) id (fun w _ => ?_) ?_
    · exact fun h => nomatch hstopped.symm.trans h
    · exact inv.joined w (by rw [owner]; exact w.isLt.trans_le all)
    · rintro (h | h) <;> cases h
  | close owner => exact inv.close owner
  | push t k starting running => exact inv.same rfl rfl rfl rfl
  | reject running => exact inv
  | notifyNobody t awake => exact inv.same rfl rfl rfl rfl
  | notifyOne t w waiting =>
    refine inv.update (hlive (.inr waiting)) rfl rfl rfl nofun rfl fun c => ?_
    rw [waiting]
    rfl
  | wake w waiting =>
    refine inv.update (hlive (.inr waiting)) rfl rfl rfl nofun rfl fun c => ?_
    rw [waiting]
    rfl
  | wait w ready tasks running =>
    refine inv.update (hlive (.inl ready)) rfl rfl rfl nofun rfl fun c => ?_
    rw [ready]
    rfl
  | exit w ready tasks running =>
    refine inv.update (hlive (.inl ready)) rfl rfl rfl nofun rfl fun c => ?_
    rw [ready]
    rfl
  | take w k rest ready tasks =>
    refine inv.update (hlive (.inl ready)) rfl rfl rfl ?_ rfl fun c => ?_
    · rintro k' task' conns' ⟨⟩
      exact ⟨Nat.zero_le _, balanced k⟩
    · rw [ready]
      rfl
  | task w outcome running => exact inv.taskStep running

theorem inv_of_reachable [DecidableEq T] (balanced : ∀ k, (code k).Scoped (bound k) 0)
    (h : (system n T server code).Reachable s) : Inv server bound s :=
  invariant_of_moves .initial (fun _ _ hreach inv => inv.moves balanced hreach) h

/-! ## Exclusive connections -/

theorem Owned.count_le (h : Owned server s) (c : ℕ) :
    s.pool.connections.count c + ∑ w, (s.worker w).held.count c ≤ 1 := by
  have howned := h.owned c
  have hnodup := List.nodup_iff_count_le_one.1 (Pool.init_nodup server n) c
  rw [State.owned] at howned
  omega

/-- A connection that has not been closed is in the queue or in one live `DbConnection`. -/
theorem Owned.one_place (h : Owned server s) {c : ℕ}
    (hc : c ∈ (Pool.init server n).connections) :
    c ∈ s.pool.connections ∧ (∀ w, c ∉ (s.worker w).held) ∨
      c ∉ s.pool.connections ∧ ∃! w, c ∈ (s.worker w).held := by
  have howned : s.pool.connections.count c + ∑ w, (s.worker w).held.count c = 1 := by
    rw [← List.count_eq_one_of_mem (Pool.init_nodup server n) hc]
    exact h.owned c
  by_cases hqueue : c ∈ s.pool.connections
  · have hpos := List.count_pos_iff.2 hqueue
    refine .inl ⟨hqueue, fun w hw => ?_⟩
    have hterm := Finset.single_le_sum (f := fun w => (s.worker w).held.count c)
      (fun _ _ => Nat.zero_le _) (Finset.mem_univ w)
    have hheld := List.count_pos_iff.2 hw
    omega
  · rw [List.count_eq_zero.2 hqueue, Nat.zero_add] at howned
    obtain ⟨w, -, hw⟩ := Finset.exists_ne_zero_of_sum_ne_zero (howned.trans_ne one_ne_zero)
    refine .inr ⟨hqueue, w, List.count_pos_iff.1 (Nat.pos_of_ne_zero hw), fun w' hw' => ?_⟩
    exact Counting.eq_of_sum_le_one (fun w => (s.worker w).held.count c) howned.le
      (List.count_pos_iff.2 hw') (Nat.pos_of_ne_zero hw)

/-- In every reachable state, a connection that `Init` has put into the pool is, until it is closed,
in the queue or in one live `DbConnection`; a closed one is in neither; and when `Shutdown` has
returned each of them has been closed once and no task is left. -/
theorem connections_exclusive [DecidableEq T] (balanced : ∀ k, ∃ bound, (code k).Scoped bound 0)
    (h : (system n T server code).Reachable s) :
    s.pool.connections.Nodup ∧ (∀ w, (s.worker w).held.Nodup) ∧
    (∀ c ∈ (Pool.init server n).connections,
      (c ∉ s.pool.closed →
        c ∈ s.pool.connections ∧ (∀ w, c ∉ (s.worker w).held) ∨
          c ∉ s.pool.connections ∧ ∃! w, c ∈ (s.worker w).held) ∧
      (c ∈ s.pool.closed → c ∉ s.pool.connections ∧ ∀ w, c ∉ (s.worker w).held) ∧
      s.pool.closed.count c ≤ 1) ∧
    (s.owner = .shutDown ∨ s.owner = .destroyed →
      (∀ c ∈ (Pool.init server n).connections, s.pool.closed.count c = 1) ∧
        ∀ w, (s.worker w).Done) := by
  choose bound hbound using balanced
  have inv := inv_of_reachable hbound h
  have hshut : Shut server s → ∀ c ∈ (Pool.init server n).connections,
      s.pool.closed.count c = 1 := by
    intro hshut c hc
    rw [hshut.closed c, List.count_eq_zero.2 (Pool.init_disjoint server hc),
      List.count_eq_one_of_mem (Pool.init_nodup server n) hc]
  refine ⟨?_, ?_, ?_, fun howner => ⟨hshut (inv.shut howner), (inv.shut howner).done⟩⟩
  · rcases inv.pool with howned | hs
    · refine List.nodup_iff_count_le_one.2 fun c => ?_
      exact (Nat.le_add_right _ _).trans (howned.count_le c)
    · rw [hs.empty]
      exact List.nodup_nil
  · intro w
    rcases inv.pool with howned | hs
    · refine List.nodup_iff_count_le_one.2 fun c => ?_
      have hterm := Finset.single_le_sum (f := fun w => (s.worker w).held.count c)
        (fun _ _ => Nat.zero_le _) (Finset.mem_univ w)
      exact hterm.trans ((Nat.le_add_left _ _).trans (howned.count_le c))
    · rw [(hs.done w).held]
      exact List.nodup_nil
  · intro c hc
    rcases inv.pool with howned | hs
    · have hopen : c ∉ s.pool.closed := by
        rw [howned.closed]
        exact Pool.init_disjoint server hc
      refine ⟨fun _ => howned.one_place hc, fun hclosed => absurd hclosed hopen, ?_⟩
      rw [List.count_eq_zero.2 hopen]
      exact Nat.zero_le 1
    · have hone := hshut hs c hc
      refine ⟨fun hopen => ?_, fun _ => ⟨?_, fun w => ?_⟩, hone.le⟩
      · rw [List.count_eq_zero.2 hopen] at hone
        cases hone
      · rw [hs.empty]
        exact List.not_mem_nil
      · rw [(hs.done w).held]
        exact List.not_mem_nil

end Invariant

/-- A database that accepts the connections with these numbers. -/
def Server.accepting (p : ℕ → Bool) : Server := ⟨fun _ => true, fun i _ => p i⟩

/-- Two connections, of which the first is in use. -/
theorem connections_exclusive_in_use :
    ∃ s : State 2 Unit Unit,
      (system 2 Unit (.accepting fun _ => true) fun _ => Task.login).Reachable s ∧
      (s.worker 0).held = [0] ∧ s.pool.connections = [1] ∧ 0 ∉ s.pool.connections := by
  have hrun : (system 2 Unit (.accepting fun _ => true) fun _ => Task.login).run
      (.initial (.accepting fun _ => true))
      [.owner, .owner, .owner, .worker 0 false, .execute () (), .notifyOne () (some 0),
        .worker 0 false, .worker 0 false] = some _ := rfl
  have hreach := Transition.System.reachable_of_run (.init rfl) hrun
  have hexclusive := connections_exclusive (fun _ => ⟨1, Task.login_scoped⟩) hreach
  refine ⟨_, hreach, rfl, rfl, fun hqueue => ?_⟩
  obtain ⟨-, hnone⟩ | ⟨hnot, -⟩ := (hexclusive.2.2.1 0 (by decide)).1 (by decide)
  · exact hnone 0 (by decide)
  · exact hnot hqueue

/-! ## A connection for every task -/

section Acquire

variable {n : ℕ} {K T : Type*} {server : Server} {code : K → Task} {s : State n K T}

theorem eq_of_length_le_one {l : List ℕ} (h : l.length ≤ 1) {c c' : ℕ} (hc : c ∈ l)
    (hc' : c' ∈ l) : c = c' := by
  cases l with
  | nil => cases hc
  | cons a l =>
    obtain rfl : l = [] := List.length_eq_zero_iff.1 (Nat.le_zero.1 (Nat.succ_le_succ_iff.1 h))
    rw [List.mem_singleton.1 hc, List.mem_singleton.1 hc']

/-- With as many connections as workers and one connection for each task, the queue is not empty
when a task constructs a `DbConnection`. -/
theorem Inv.connections_ne_nil (inv : Inv server (fun _ => 1) s)
    (hall : (Pool.init server n).connections.length = n) {w : Fin n} {k : K} {body : Bool → Task}
    {conns : List (Option ℕ)} (running : s.worker w = .running k (.construct body) conns) :
    s.pool.connections ≠ [] := by
  intro hempty
  have hlive : ¬ (s.worker w).Done := by
    rw [running]
    rintro (h | h) <;> cases h
  have howned := inv.pool.resolve_right fun hshut => hlive (hshut.done w)
  have hown : (s.worker w).held = [] := by
    have hnone := (inv.balanced w k _ conns running).2.1
    rw [running, Worker.held, List.length_eq_zero_iff.1 (Nat.lt_one_iff.1 hnone)]
    rfl
  have hone : ∀ w, (s.worker w).held.length ≤ 1 := by
    intro w'
    cases hw : s.worker w' with
    | running k task conns =>
      exact (List.reduceOption_length_le conns).trans (inv.balanced w' k task conns hw).1
    | _ => exact Nat.zero_le 1
  -- Each of the `n` connections is held by one of the other `n - 1` workers.
  have hplace : ∀ c ∈ (Pool.init server n).connections.toFinset,
      ∃ w' ∈ Finset.univ.erase w, c ∈ (s.worker w').held := by
    intro c hc
    rcases howned.one_place (List.mem_toFinset.1 hc) with ⟨hqueue, -⟩ | ⟨-, w', hw', -⟩
    · rw [hempty] at hqueue
      cases hqueue
    · refine ⟨w', Finset.mem_erase.2 ⟨?_, Finset.mem_univ w'⟩, hw'⟩
      rintro rfl
      rw [hown] at hw'
      cases hw'
  have : Nonempty (Fin n) := ⟨w⟩
  choose! place hothers hheld using hplace
  have hcard : (Pool.init server n).connections.toFinset.card ≤ (Finset.univ.erase w).card := by
    refine Finset.card_le_card_of_injOn place hothers fun c hc c' hc' heq => ?_
    have h := hheld c hc
    have h' := hheld c' hc'
    rw [← heq] at h'
    exact eq_of_length_le_one (hone _) h h'
  rw [List.toFinset_card_of_nodup (Pool.init_nodup server n), hall,
    Finset.card_erase_of_mem (Finset.mem_univ w), Finset.card_univ, Fintype.card_fin] at hcard
  have := w.isLt
  omega

variable [DecidableEq T]

/-- `Init` has started this number of workers. -/
theorem exists_starting (code : K → Task) (ready : (Pool.init server n).isReady) {count : ℕ}
    (h : count ≤ n) :
    ∃ s : State n K T, (system n T server code).Reachable s ∧ s.owner = .starting count ∧
      s.pool = .init server n ∧ s.tasks = [] ∧ s.running = true ∧ (∀ t, s.notifying t = false) ∧
      ∀ w : Fin n, w < count → s.worker w = .ready := by
  induction count with
  | zero => exact ⟨_, .init rfl, rfl, rfl, rfl, rfl, fun _ => rfl, nofun⟩
  | succ count ih =>
    obtain ⟨s, hreach, howner, hpool, htasks, hrunning, hnotifying, hworker⟩ := ih (by omega)
    have hstep : step server code s .owner =
        some ({ s with owner := .starting (count + 1) }.setWorker ⟨count, h⟩ .ready) := by
      simp only [step, ownerStep, howner]
      rw [dif_pos ⟨h, ready⟩]
    refine ⟨_, reachable_step hreach hstep, rfl, hpool, htasks, hrunning, hnotifying,
      fun w hw => ?_⟩
    rcases eq_or_ne w ⟨count, h⟩ with rfl | hne
    · exact Function.update_self ..
    · refine (Function.update_of_ne hne ..).trans (hworker w ?_)
      have : w.val ≠ count := fun heq => hne (Fin.ext heq)
      omega

/-- The first `m` workers hold the first `m` connections, and the others have nothing to do. -/
structure Busy (server : Server) (m : ℕ) (s : State n K T) : Prop where
  owner : s.owner = .serving
  running : s.running = true
  quiet : ∀ t, s.notifying t = false
  tasks : s.tasks = []
  awake : ∀ w, (s.worker w).isWaiting = false
  connections : s.pool.connections = (Pool.init server n).connections.drop m
  ready : ∀ w : Fin n, m ≤ w → s.worker w = .ready

theorem exists_busy_zero (ready : (Pool.init server n).isReady) :
    ∃ s : State n K T, (system n T server code).Reachable s ∧ Busy server 0 s := by
  obtain ⟨s, hreach, howner, hpool, htasks, hrunning, hnotifying, hworker⟩ :=
    exists_starting (T := T) code ready le_rfl
  have hstep : step server code s .owner = some { s with owner := .serving } := by
    simp only [step, ownerStep, howner]
    rw [dif_neg fun h => lt_irrefl n h.1]
  refine ⟨_, reachable_step hreach hstep, rfl, hrunning, hnotifying, htasks, fun w => ?_, ?_,
    fun w _ => hworker w w.isLt⟩
  · show (s.worker w).isWaiting = false
    rw [hworker w w.isLt]
    rfl
  · show s.pool.connections = _
    rw [hpool]
    rfl

/-- One more worker takes a login. -/
theorem Busy.take [Inhabited T] {k : K} (hlogin : code k = .login) {m : ℕ} (hm : m < n)
    (busy : Busy server m s) (hreach : (system n T server code).Reachable s) :
    ∃ s' : State n K T, (system n T server code).Reachable s' ∧
      s'.worker ⟨m, hm⟩ = .running k .login [] ∧ s'.pool = s.pool ∧ s'.owner = .serving ∧
      s'.running = true ∧ (∀ t, s'.notifying t = false) ∧ s'.tasks = [] ∧
      ∀ w, w ≠ ⟨m, hm⟩ → s'.worker w = s.worker w := by
  let s₁ : State n K T := { s with
    tasks := s.tasks ++ [k]
    pushed := s.pushed ++ [k]
    notifying := Function.update s.notifying default true }
  let s₂ : State n K T := { s₁ with notifying := Function.update s₁.notifying default false }
  let s₃ : State n K T := { s₂ with tasks := [], ran := s₂.ran ++ [k] }.setWorker ⟨m, hm⟩
    (.running k (code k) [])
  have h₁ : step server code s (.execute default k) = some s₁ := by
    simp [step, busy.owner, busy.quiet, busy.running, s₁]
  have h₂ : step server code s₁ (.notifyOne default none) = some s₂ := by
    simp [step, s₁, s₂, busy.awake]
  have h₃ : step server code s₂ (.worker ⟨m, hm⟩ false) = some s₃ := by
    simp [step, workerStep, s₁, s₂, s₃, busy.tasks, busy.ready]
  have hreach₃ := reachable_step (reachable_step (reachable_step hreach h₁) h₂) h₃
  refine ⟨s₃, hreach₃, ?_, rfl, busy.owner, busy.running, fun t => ?_, rfl,
    fun w hne => Function.update_of_ne hne ..⟩
  · rw [← hlogin]
    exact Function.update_self ..
  · show Function.update (Function.update s.notifying default true) default false t = false
    rw [Function.update_idem]
    rcases eq_or_ne t default with rfl | hne
    · exact Function.update_self ..
    · rw [Function.update_of_ne hne]
      exact busy.quiet t

theorem exists_busy [Inhabited T] {k : K} (hlogin : code k = .login)
    (ready : (Pool.init server n).isReady) {m : ℕ} (hm : m < n)
    (hlen : m ≤ (Pool.init server n).connections.length) :
    ∃ s : State n K T, (system n T server code).Reachable s ∧ Busy server m s := by
  induction m with
  | zero => exact exists_busy_zero ready
  | succ m ih =>
    have hlt : m < n := by omega
    obtain ⟨s, hreach, busy⟩ := ih hlt (by omega)
    obtain ⟨s', hreach', hworker, hpool, howner, hrunning, hquiet, htasks, hothers⟩ :=
      busy.take hlogin hlt hreach
    have hdrop : s'.pool.connections =
        (Pool.init server n).connections[m] :: (Pool.init server n).connections.drop (m + 1) := by
      rw [hpool, busy.connections, List.drop_eq_getElem_cons]
    have hstep : step server code s' (.worker ⟨m, hlt⟩ false) =
        some (taskStep s' ⟨m, hlt⟩ false k [] .login) := by
      simp only [step, workerStep, hworker]
    refine ⟨_, reachable_step hreach' hstep, howner, hrunning, hquiet, htasks, fun w => ?_, ?_,
      fun w hw => ?_⟩
    · rcases eq_or_ne w ⟨m, hlt⟩ with rfl | hne
      · show (Function.update s'.worker _ _ _).isWaiting = false
        rw [Function.update_self]
        rfl
      · refine (congrArg Worker.isWaiting (Function.update_of_ne hne ..)).trans ?_
        rw [hothers w hne]
        exact busy.awake w
    · show s'.pool.acquire.2.connections = _
      rw [Pool.acquire, hdrop]
    · have hne : w ≠ ⟨m, hlt⟩ := by
        rintro rfl
        exact absurd hw (Nat.not_succ_le_self m)
      refine (Function.update_of_ne hne ..).trans ((hothers w hne).trans (busy.ready w ?_))
      omega

/-- With a connection missing, the last worker that takes a login finds the queue empty. -/
theorem exists_exhausted [Inhabited T] {k : K} (hlogin : code k = .login)
    (ready : (Pool.init server n).isReady) (hlen : (Pool.init server n).connections.length < n) :
    ∃ s : State n K T, (system n T server code).Reachable s ∧ ∃ w body,
      s.worker w = .running k (.construct body) [] ∧ s.pool.acquire.1 = none := by
  obtain ⟨s, hreach, busy⟩ := exists_busy (T := T) hlogin ready hlen le_rfl
  obtain ⟨s', hreach', hworker, hpool, -⟩ := busy.take hlogin hlen hreach
  refine ⟨s', hreach', ⟨_, hlen⟩, _, hworker, ?_⟩
  rw [Pool.acquire, hpool, busy.connections, List.drop_length]

/-- Without a connection, no worker is started. -/
theorem notStarted_of_not_ready (ready : (Pool.init server n).isReady = false)
    (h : (system n T server code).Reachable s) (w : Fin n) : s.worker w = .notStarted := by
  revert w
  refine invariant_of_moves (P := fun s => ∀ w, s.worker w = .notStarted) (fun _ => rfl) ?_ h
  intro s s' _ ih hmoves w'
  cases hmoves with
  | start w owner hready =>
    rw [ready] at hready
    cases hready
  | notifyAll owner =>
    show (s.worker w').notified = _
    rw [ih w']
    rfl
  | notifyOne t w hw => exact nomatch (ih w).symm.trans hw
  | wake w hw => exact nomatch (ih w).symm.trans hw
  | wait w hw => exact nomatch (ih w).symm.trans hw
  | exit w hw => exact nomatch (ih w).symm.trans hw
  | take w k rest hw => exact nomatch (ih w).symm.trans hw
  | task w outcome hw => exact nomatch (ih w).symm.trans hw
  | _ => exact ih w'

/-- The tasks hold one connection at a time.  Then `Acquire` never returns `nullptr` in a task if
and only if `Init` has opened all connections or none. -/
theorem acquire_succeeds_iff [Inhabited T] (single : ∀ k, (code k).Scoped 1 0) {k : K}
    (hlogin : code k = .login) :
    (∀ s : State n K T, (system n T server code).Reachable s → ∀ w k body conns,
      s.worker w = .running k (.construct body) conns → s.pool.acquire.1 ≠ none) ↔
    (∀ i < n, Pool.opens server i = true) ∨ ∀ i < n, Pool.opens server i = false := by
  have hinit : (Pool.init server n).connections = (List.range n).filter (Pool.opens server) := by
    rw [Pool.init_eq]
  constructor
  · intro hsucceeds
    by_contra hne
    simp only [not_or, not_forall, Bool.not_eq_true, Bool.not_eq_false] at hne
    obtain ⟨⟨i, hi, hrefused⟩, j, hj, hopened⟩ := hne
    have hready : (Pool.init server n).isReady := by
      rw [Pool.isReady_iff, hinit]
      exact List.ne_nil_of_mem (List.mem_filter.2 ⟨List.mem_range.2 hj, hopened⟩)
    have hlen : (Pool.init server n).connections.length < n := by
      have hlt : ((List.range n).filter (Pool.opens server)).length < (List.range n).length :=
        List.length_filter_lt_length_iff_exists.2 ⟨i, List.mem_range.2 hi, by simp [hrefused]⟩
      rwa [List.length_range, ← hinit] at hlt
    obtain ⟨s, hreach, w, body, hworker, hnone⟩ :=
      exists_exhausted (T := T) hlogin hready hlen
    exact hsucceeds s hreach w k body [] hworker hnone
  · rintro (hall | hnone) s hreach w k body conns hworker
    · have hlen : (Pool.init server n).connections.length = n := by
        rw [hinit, List.filter_eq_self.2 fun i hi => hall i (List.mem_range.1 hi),
          List.length_range]
      have hne := (inv_of_reachable single hreach).connections_ne_nil hlen hworker
      obtain ⟨conn, rest, hconns⟩ := List.exists_cons_of_ne_nil hne
      rw [Pool.acquire, hconns]
      exact Option.some_ne_none conn
    · have hready : (Pool.init server n).isReady = false := by
        refine Bool.eq_false_of_not_eq_true fun h => (Pool.isReady_iff server n).1 h ?_
        rw [hinit]
        refine List.filter_eq_nil_iff.2 fun i hi => ?_
        rw [hnone i (List.mem_range.1 hi)]
        exact Bool.false_ne_true
      rw [notStarted_of_not_ready hready hreach w] at hworker
      cases hworker

/-- Both connections are open, and both workers get one. -/
theorem acquire_succeeds_two_logins :
    ∃ s : State 2 Unit Unit,
      (system 2 Unit (.accepting fun _ => true) fun _ => Task.login).Reachable s ∧
      (s.worker 0).held = [0] ∧ (∃ body, s.worker 1 = .running () (.construct body) []) ∧
      s.pool.acquire.1 ≠ none := by
  have hrun : (system 2 Unit (.accepting fun _ => true) fun _ => Task.login).run
      (.initial (.accepting fun _ => true))
      [.owner, .owner, .owner, .execute () (), .notifyOne () none, .execute () (),
        .notifyOne () none, .worker 0 false, .worker 0 false, .worker 1 false] = some _ := rfl
  have hreach := Transition.System.reachable_of_run (.init rfl) hrun
  have hsucceeds := (acquire_succeeds_iff (fun _ => Task.login_scoped) (k := ()) rfl).2
    (.inl fun _ _ => rfl) _ hreach
  exact ⟨_, hreach, rfl, ⟨_, rfl⟩, hsucceeds 1 () _ [] rfl⟩

/-- One of two connections fails, but `Init` starts two workers: the second login finds the pool
exhausted while the first one uses the only connection. -/
theorem acquire_fails_after_partial_connect :
    ∃ s : State 2 Unit Unit,
      (system 2 Unit (.accepting fun i => i == 0) fun _ => Task.login).Reachable s ∧
      (Pool.init (.accepting fun i => i == 0) 2).isReady = true ∧ (s.worker 0).held = [0] ∧
      (∃ body, s.worker 1 = .running () (.construct body) []) ∧ s.pool.acquire.1 = none := by
  have hrun : (system 2 Unit (.accepting fun i => i == 0) fun _ => Task.login).run
      (.initial (.accepting fun i => i == 0))
      [.owner, .owner, .owner, .execute () (), .notifyOne () none, .execute () (),
        .notifyOne () none, .worker 0 false, .worker 0 false, .worker 1 false] = some _ := rfl
  exact ⟨_, Transition.System.reachable_of_run (.init rfl) hrun, rfl, rfl, ⟨_, rfl⟩, rfl⟩

end Acquire

end Db

end DhNet
