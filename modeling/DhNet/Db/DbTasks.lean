import DhNet.Db.DbConnections

/-!
# Tasks of the database system

Tasks leave `_tasks` in the order in which `Execute` entered them, so none is lost or run twice as
long as a worker comes to take them.

* `Queued`: a task in the queue has a worker that is awake or a notification that is on its way.
* `Served`: what this means for a state in which no worker can go on.
* `tasks_served_iff`: this holds in every reachable state exactly when `Init` has opened a
  connection.  Without one there is no worker, but `Execute` accepts tasks.
-/

namespace DhNet

namespace Db

namespace Task

/-- The calls of `OnLoginResult` on the path of the negative outcomes. -/
def calls : Task → ℕ
  | .ret => 0
  | .construct body => (body false).calls
  | .destruct next => next.calls
  | .branch next => (next false).calls
  | .onLoginResult _ next => next.calls + 1

/-- The number of calls of `OnLoginResult` does not depend on the outcomes. -/
def Steady : Task → Prop
  | .ret => True
  | .construct body => ∀ isValid, (body isValid).calls = (body false).calls ∧ (body isValid).Steady
  | .destruct next => next.Steady
  | .branch next => ∀ outcome, (next outcome).calls = (next false).calls ∧ (next outcome).Steady
  | .onLoginResult _ next => next.Steady

/-- The length of the longest path. -/
def size : Task → ℕ
  | .ret => 0
  | .construct body => max (body false).size (body true).size + 1
  | .destruct next => next.size + 1
  | .branch next => max (next false).size (next true).size + 1
  | .onLoginResult _ next => next.size + 1

theorem login_calls : login.calls = 1 := rfl

theorem login_steady : login.Steady := by
  intro isValid
  cases isValid with
  | false => exact ⟨rfl, trivial⟩
  | true => exact ⟨rfl, fun _ => ⟨rfl, trivial⟩⟩

end Task

section Progress

variable {n : ℕ} {K T : Type*} {code : K → Task} {s s' : State n K T}

/-- The steps that a worker can still make by itself. -/
def Worker.work : Worker K → ℕ
  | .ready => 1
  | .running _ task _ => task.size + 2
  | _ => 0

/-- The steps that the workers can still make. -/
def State.work (code : K → Task) (s : State n K T) : ℕ :=
  ∑ w, (s.worker w).work + (s.tasks.map fun k => (code k).size + 2).sum

theorem work_setWorker (code : K → Task) (s : State n K T) (w : Fin n) (th : Worker K) :
    (s.setWorker w th).work code + (s.worker w).work = s.work code + th.work := by
  have hsum := Counting.sum_update_add s.worker Worker.work w th
  simp only [State.work, State.setWorker]
  omega

theorem work_taskStep {w : Fin n} {outcome : Bool} {k : K} {task : Task}
    {conns : List (Option ℕ)} (running : s.worker w = .running k task conns) :
    (taskStep s w outcome k conns task).work code < s.work code := by
  have hlt : ∀ (s' : State n K T) (th : Worker K), s'.worker = s.worker → s'.tasks = s.tasks →
      th.work < task.size + 2 → (s'.setWorker w th).work code < s.work code := by
    intro s' th hworker htasks hth
    have hset := work_setWorker code s' w th
    have hsame : s'.work code = s.work code := by rw [State.work, hworker, htasks, State.work]
    rw [hworker, running, hsame, Worker.work] at hset
    omega
  cases task with
  | ret => exact hlt s _ rfl rfl Nat.one_lt_two
  | construct body =>
    refine hlt _ _ rfl rfl (Nat.add_lt_add_right (Nat.lt_succ_of_le ?_) 2)
    cases s.pool.acquire.1.isSome with
    | false => exact le_max_left _ _
    | true => exact le_max_right _ _
  | destruct next => exact hlt _ _ rfl rfl (Nat.lt_succ_self _)
  | branch next =>
    refine hlt _ _ rfl rfl (Nat.add_lt_add_right (Nat.lt_succ_of_le ?_) 2)
    cases outcome with
    | false => exact le_max_left _ _
    | true => exact le_max_right _ _
  | onLoginResult ok next => exact hlt _ _ rfl rfl (Nat.lt_succ_self _)

/-- Left to themselves, the workers come to rest. -/
theorem work_workerStep {w : Fin n} {outcome : Bool}
    (h : workerStep code s w outcome = some s') : s'.work code < s.work code := by
  unfold workerStep at h
  split at h
  · cases h
  · cases h
  · cases h
  · next ready =>
    split at h
    · next tasks =>
      obtain rfl := Option.some.inj h
      have hset := work_setWorker code s w (if s.running then .waiting else .exited)
      have hrest : (if s.running then Worker.waiting else Worker.exited : Worker K).work = 0 := by
        split <;> rfl
      rw [ready, hrest, Worker.work] at hset
      omega
    · next k rest tasks =>
      obtain rfl := Option.some.inj h
      have hset := work_setWorker code
        { s with tasks := rest, ran := s.ran ++ [k] } w (.running k (code k) [])
      have htake : s.work code = State.work code
          { s with tasks := rest, ran := s.ran ++ [k] } + ((code k).size + 2) := by
        simp only [State.work, tasks, List.map_cons, List.sum_cons]
        omega
      simp only [ready, Worker.work] at hset
      omega
  · next k task conns running =>
    obtain rfl := Option.some.inj h
    exact work_taskStep running

end Progress

/-! ## The invariant -/

section Invariant

variable {n : ℕ} {K T : Type*} {server : Server} {code : K → Task} {s s' : State n K T}

/-- A worker that comes back to the queue by itself. -/
def Worker.Awake (w : Worker K) : Prop := w = .ready ∨ ∃ k task conns, w = .running k task conns

/-- Tasks are taken in order, workers end when there is nothing left to do, and a task in the queue
has a worker that is awake or a notification that is on its way. -/
structure Queued (s : State n K T) : Prop where
  order : s.ran ++ s.tasks = s.pushed
  started : ∀ w : Fin n, (∀ count, s.owner = .starting count → w < count) →
    s.worker w ≠ .notStarted
  empty : ∀ count, s.owner = .starting count → s.tasks = []
  exited : ∀ w, s.worker w = .exited → s.running = false ∧ s.tasks = []
  heard : s.tasks ≠ [] → (∃ w, (s.worker w).Awake) ∨ ∃ t, s.notifying t = true

theorem Queued.initial : Queued (T := T) (K := K) (.initial (n := n) server) where
  order := rfl
  started w h := absurd (h 0 rfl) (Nat.not_lt_zero w)
  empty _ _ := rfl
  exited _ h := nomatch h
  heard h := absurd rfl h

/-- A worker moves and is awake afterwards. -/
theorem Queued.setAwake (q : Queued s) {w : Fin n} {th : Worker K} (awake : th.Awake)
    (hworker : s'.worker = Function.update s.worker w th) (howner : s'.owner = s.owner)
    (hrunning : s'.running = s.running) (horder : s'.ran ++ s'.tasks = s'.pushed)
    (htasks : s.tasks = [] → s'.tasks = []) : Queued s' where
  order := horder
  started := by
    intro w' h
    rw [hworker]
    rcases eq_or_ne w' w with rfl | hne
    · rw [Function.update_self]
      rcases awake with rfl | ⟨k, task, conns, rfl⟩ <;> nofun
    · rw [Function.update_of_ne hne]
      exact q.started w' (howner ▸ h)
  empty count h := htasks (q.empty count (howner ▸ h))
  exited := by
    intro w' h
    rw [hworker] at h
    rcases eq_or_ne w' w with rfl | hne
    · rw [Function.update_self] at h
      subst h
      rcases awake with h | ⟨k, task, conns, h⟩ <;> cases h
    · rw [Function.update_of_ne hne] at h
      obtain ⟨hstopped, hempty⟩ := q.exited w' h
      exact ⟨hrunning.trans hstopped, htasks hempty⟩
  heard _ := by
    refine .inl ⟨w, ?_⟩
    rw [hworker, Function.update_self]
    exact awake

/-- A worker finds the queue empty. -/
theorem Queued.setResting (q : Queued s) {w : Fin n} {th : Worker K} (hempty : s.tasks = [])
    (hth : th = .waiting ∨ th = .exited ∧ s.running = false) : Queued (s.setWorker w th) where
  order := q.order
  started := by
    intro w' h
    simp only [State.setWorker]
    rcases eq_or_ne w' w with rfl | hne
    · rw [Function.update_self]
      rcases hth with rfl | ⟨rfl, -⟩ <;> simp
    · rw [Function.update_of_ne hne]
      exact q.started w' h
  empty _ _ := hempty
  exited := by
    intro w' h
    simp only [State.setWorker] at h
    rcases eq_or_ne w' w with rfl | hne
    · rw [Function.update_self] at h
      exact ⟨(hth.resolve_left fun hw => by cases h.symm.trans hw).2, hempty⟩
    · rw [Function.update_of_ne hne] at h
      exact q.exited w' h
  heard h := absurd hempty h

/-- The owner goes on after `Init`. -/
theorem Queued.setOwner (q : Queued s) (hworker : s'.worker = s.worker)
    (htasks : s'.tasks = s.tasks) (hnotifying : s'.notifying = s.notifying)
    (horder : s'.ran ++ s'.tasks = s'.pushed)
    (started : ∀ w, s.worker w ≠ .notStarted) (howner : ∀ count, s'.owner ≠ .starting count)
    (hrunning : s.running = false → s'.running = false) : Queued s' where
  order := horder
  started w _ := hworker ▸ started w
  empty count h := absurd h (howner count)
  exited w h := by
    obtain ⟨hstopped, hempty⟩ := q.exited w (hworker ▸ h)
    exact ⟨hrunning hstopped, htasks.trans hempty⟩
  heard h := by
    rw [hworker, hnotifying]
    exact q.heard (htasks ▸ h)

theorem taskStep_awake (s : State n K T) (w : Fin n) (outcome : Bool) (k : K)
    (conns : List (Option ℕ)) (task : Task) :
    ∃ th : Worker K, th.Awake ∧
      (taskStep s w outcome k conns task).worker = Function.update s.worker w th := by
  cases task with
  | ret => exact ⟨_, .inl rfl, rfl⟩
  | _ => exact ⟨_, .inr ⟨_, _, _, rfl⟩, rfl⟩

theorem Queued.taskStep (q : Queued s) {w : Fin n} {outcome : Bool} {k : K} {task : Task}
    {conns : List (Option ℕ)} : Queued (taskStep s w outcome k conns task) := by
  obtain ⟨th, awake, hworker⟩ := taskStep_awake s w outcome k conns task
  cases task with
  | _ => exact q.setAwake awake hworker rfl rfl q.order id

/-- `Init` starts a worker. -/
theorem Queued.start (q : Queued s) {w : Fin n} (howner : s.owner = .starting w) :
    Queued ({ s with owner := .starting (w + 1) }.setWorker w .ready) where
  order := q.order
  started := by
    intro w' h
    simp only [State.setWorker]
    rcases eq_or_ne w' w with rfl | hne
    · rw [Function.update_self]
      simp
    · rw [Function.update_of_ne hne]
      refine q.started w' fun count hcount => ?_
      rw [howner] at hcount
      cases hcount
      have hlt : w'.val < w + 1 := h (w + 1) rfl
      have : w'.val ≠ w := fun heq => hne (Fin.ext heq)
      omega
  empty _ _ := q.empty w howner
  exited := by
    intro w' h
    simp only [State.setWorker] at h
    rcases eq_or_ne w' w with rfl | hne
    · rw [Function.update_self] at h
      cases h
    · rw [Function.update_of_ne hne] at h
      exact q.exited w' h
  heard h := absurd (q.empty w howner) h

theorem Queued.notifyAll (q : Queued s) (howner : s.owner = .notifyAll) :
    Queued { s with worker := fun w => (s.worker w).notified, owner := .joining 0 } where
  order := q.order
  started w _ := by
    have hstarted := q.started w fun count h => nomatch howner.symm.trans h
    show (s.worker w).notified ≠ .notStarted
    cases hw : s.worker w with
    | notStarted => exact absurd hw hstarted
    | _ => nofun
  empty _ h := nomatch h
  exited w h := by
    refine q.exited w ?_
    cases hw : s.worker w with
    | exited => rfl
    | _ =>
      simp only [hw] at h
      cases h
  heard h := by
    refine (q.heard h).imp_left fun ⟨w, hw⟩ => ⟨w, ?_⟩
    rcases hw with hw | ⟨k, task, conns, hw⟩
    · exact .inl (congrArg Worker.notified hw)
    · exact .inr ⟨k, task, conns, congrArg Worker.notified hw⟩

/-- A notification is lost only when a worker is awake. -/
theorem Queued.notifyNobody [DecidableEq T] (q : Queued s) (t : T) (hpos : 0 < n)
    (hwaiting : ∀ w, (s.worker w).isWaiting = false) :
    Queued { s with notifying := Function.update s.notifying t false } := by
  refine ⟨q.order, q.started, q.empty, q.exited, fun h => .inl ⟨⟨0, hpos⟩, ?_⟩⟩
  have hstarted := q.started ⟨0, hpos⟩ fun count howner => absurd (q.empty count howner) h
  show (s.worker ⟨0, hpos⟩).Awake
  cases hw : s.worker ⟨0, hpos⟩ with
  | notStarted => exact absurd hw hstarted
  | ready => exact .inl rfl
  | waiting =>
    have := hwaiting ⟨0, hpos⟩
    rw [hw] at this
    cases this
  | running k task conns => exact .inr ⟨k, task, conns, rfl⟩
  | exited => exact absurd (q.exited _ hw).2 h

/-- `Execute` enters a task and is going to notify a worker. -/
theorem Queued.push [DecidableEq T] (q : Queued s) (t : T) (k : K)
    (howner : ∀ count, s.owner ≠ .starting count) (hrunning : s.running = true) :
    Queued { s with
      tasks := s.tasks ++ [k]
      pushed := s.pushed ++ [k]
      notifying := Function.update s.notifying t true } where
  order := by rw [← q.order, List.append_assoc]
  started := q.started
  empty count h := absurd h (howner count)
  exited w h := nomatch hrunning.symm.trans (q.exited w h).1
  heard _ := .inr ⟨t, Function.update_self ..⟩

theorem OwnerPc.isIdle.ne_starting {owner : OwnerPc} (h : owner.isIdle = true) (count : ℕ) :
    owner ≠ .starting count := by
  rintro rfl
  cases h

theorem Queued.moves [DecidableEq T] (q : Queued s) (ready : (Pool.init server n).isReady)
    (h : Moves server code s s') : Queued s' := by
  have hstarted : (∀ count, s.owner ≠ .starting count) → ∀ w, s.worker w ≠ .notStarted :=
    fun howner w => q.started w fun count h => absurd h (howner count)
  cases h with
  | start w owner _ => exact q.start owner
  | started owner all =>
    refine q.setOwner rfl rfl rfl q.order (fun w => q.started w fun count h => ?_) nofun id
    rw [owner] at h
    cases h
    exact w.isLt.trans_le (all ready)
  | stop owner =>
    exact q.setOwner rfl rfl rfl q.order
      (hstarted (OwnerPc.isIdle.ne_starting owner)) nofun fun _ => rfl
  | destroy owner running =>
    exact q.setOwner rfl rfl rfl q.order (hstarted (OwnerPc.isIdle.ne_starting owner)) nofun id
  | notifyAll owner => exact q.notifyAll owner
  | join w owner done =>
    exact q.setOwner rfl rfl rfl q.order (hstarted fun _ => by rw [owner]; nofun) nofun id
  | joined owner all =>
    exact q.setOwner rfl rfl rfl q.order (hstarted fun _ => by rw [owner]; nofun) nofun id
  | close owner =>
    exact q.setOwner rfl rfl rfl q.order (hstarted fun _ => by rw [owner]; nofun) nofun id
  | push t k starting running => exact q.push t k starting running
  | reject running => exact q
  | notifyNobody t awake =>
    have hpos : 0 < n := by
      by_contra hn
      obtain rfl : n = 0 := by omega
      cases ready
    exact q.notifyNobody t hpos awake
  | notifyOne t w waiting => exact q.setAwake (.inl rfl) rfl rfl rfl q.order id
  | wake w waiting => exact q.setAwake (.inl rfl) rfl rfl rfl q.order id
  | wait w ready tasks running => exact q.setResting tasks (.inl rfl)
  | exit w ready tasks running => exact q.setResting tasks (.inr ⟨rfl, running⟩)
  | take w k rest ready tasks =>
    refine q.setAwake (.inr ⟨_, _, _, rfl⟩) rfl rfl rfl ?_ fun h => nomatch tasks.symm.trans h
    rw [← q.order, tasks]
    exact List.append_assoc s.ran [k] rest
  | task w outcome running => exact q.taskStep

/-! ## Answers -/

section Answers

variable [DecidableEq K]

/-- The calls of `OnLoginResult` that a worker still makes for this task. -/
def Worker.owes (k : K) : Worker K → ℕ
  | .running k' task _ => if k' = k then task.calls else 0
  | _ => 0

/-- Every run of this task has called `OnLoginResult` as often as its code says, or still does. -/
structure Answered (code : K → Task) (k : K) (s : State n K T) : Prop where
  steady : ∀ w task conns, s.worker w = .running k task conns → task.Steady
  count : (s.answers.map Prod.fst).count k + ∑ w, (s.worker w).owes k =
    s.ran.count k * (code k).calls

/-- A worker moves, and its calls are counted. -/
theorem Answered.update {k : K} (a : Answered code k s) {w : Fin n} {th : Worker K}
    (hworker : s'.worker = Function.update s.worker w th)
    (steady : ∀ task conns, th = .running k task conns → task.Steady)
    (hcount : (s'.answers.map Prod.fst).count k + th.owes k + s.ran.count k * (code k).calls =
      (s.answers.map Prod.fst).count k + (s.worker w).owes k + s'.ran.count k * (code k).calls) :
    Answered code k s' where
  steady := by
    intro w' task conns h
    rw [hworker] at h
    rcases eq_or_ne w' w with rfl | hne
    · rw [Function.update_self] at h
      exact steady task conns h
    · rw [Function.update_of_ne hne] at h
      exact a.steady w' task conns h
  count := by
    have hsum := Counting.sum_update_add s.worker (Worker.owes k) w th
    have hold := a.count
    rw [hworker]
    omega

theorem Answered.taskStep {k : K} (a : Answered code k s) {w : Fin n} {outcome : Bool} {k' : K}
    {task : Task} {conns : List (Option ℕ)} (running : s.worker w = .running k' task conns) :
    Answered code k (taskStep s w outcome k' conns task) := by
  have howes : (s.worker w).owes k = if k' = k then task.calls else 0 := by
    rw [running, Worker.owes]
  have hsteady : k' = k → task.Steady := by
    rintro rfl
    exact a.steady w task conns running
  cases task with
  | ret =>
    refine a.update rfl nofun ?_
    rw [howes]
    simp [Db.taskStep, State.setWorker, Worker.owes, Task.calls]
  | construct body =>
    refine a.update rfl ?_ ?_
    · rintro task conns ⟨⟩
      exact (hsteady rfl _).2
    · rw [howes]
      by_cases hk : k' = k
      · simp [Db.taskStep, State.setWorker, Worker.owes, Task.calls, hk, (hsteady hk _).1]
      · simp [Db.taskStep, State.setWorker, Worker.owes, hk]
  | destruct next =>
    refine a.update rfl ?_ ?_
    · rintro task conns ⟨⟩
      exact hsteady rfl
    · rw [howes]
      rfl
  | branch next =>
    refine a.update rfl ?_ ?_
    · rintro task conns ⟨⟩
      exact (hsteady rfl _).2
    · rw [howes]
      by_cases hk : k' = k
      · simp [Db.taskStep, State.setWorker, Worker.owes, Task.calls, hk, (hsteady hk _).1]
      · simp [Db.taskStep, State.setWorker, Worker.owes, hk]
  | onLoginResult ok next =>
    refine a.update rfl ?_ ?_
    · rintro task conns ⟨⟩
      exact hsteady rfl
    · rw [howes]
      by_cases hk : k' = k
      · simp [Db.taskStep, State.setWorker, Worker.owes, Task.calls, hk, Nat.add_assoc,
          Nat.add_left_comm]
      · simp [Db.taskStep, State.setWorker, Worker.owes, hk, List.count_append]

/-- Nothing about the runs of this task changes. -/
theorem Answered.same {k : K} (a : Answered code k s)
    (hsteady : ∀ w task conns, s'.worker w = .running k task conns →
      s.worker w = .running k task conns)
    (howes : ∀ w, (s'.worker w).owes k = (s.worker w).owes k) (hanswers : s'.answers = s.answers)
    (hran : s'.ran = s.ran) : Answered code k s' where
  steady w task conns h := a.steady w task conns (hsteady w task conns h)
  count := by
    rw [hanswers, hran, Finset.sum_congr rfl fun w _ => howes w]
    exact a.count

theorem Worker.notified_owes (k : K) (w : Worker K) : w.notified.owes k = w.owes k := by
  cases w with
  | _ => rfl

theorem Answered.moves [DecidableEq T] {k : K} (hcode : (code k).Steady) (a : Answered code k s)
    (hreach : (system n T server code).Reachable s) (h : Moves server code s s') :
    Answered code k s' := by
  have hrest : ∀ {w : Fin n} {th : Worker K}, (s.worker w).owes k = 0 → th.owes k = 0 →
      (s.answers.map Prod.fst).count k + th.owes k + s.ran.count k * (code k).calls =
        (s.answers.map Prod.fst).count k + (s.worker w).owes k +
          s.ran.count k * (code k).calls := by
    intro w th hold hnew
    rw [hold, hnew]
  cases h with
  | start w owner _ =>
    refine a.update rfl nofun (hrest ?_ rfl)
    rw [notStarted_of_starting hreach owner le_rfl]
    rfl
  | notifyAll owner =>
    exact a.same (fun w task conns => Worker.notified_eq_running)
      (fun w => Worker.notified_owes k _) rfl rfl
  | notifyOne t w waiting =>
    refine a.update rfl nofun (hrest ?_ rfl)
    rw [waiting]
    rfl
  | wake w waiting =>
    refine a.update rfl nofun (hrest ?_ rfl)
    rw [waiting]
    rfl
  | wait w ready tasks running =>
    refine a.update rfl nofun (hrest ?_ rfl)
    rw [ready]
    rfl
  | exit w ready tasks running =>
    refine a.update rfl nofun (hrest ?_ rfl)
    rw [ready]
    rfl
  | take w k' rest ready tasks =>
    refine a.update rfl ?_ ?_
    · rintro task conns ⟨⟩
      exact hcode
    · rw [ready]
      by_cases hk : k' = k
      · simp only [State.setWorker, Worker.owes, hk, if_true, List.count_append,
          List.count_singleton_self, Nat.add_mul, Nat.one_mul]
        omega
      · simp [State.setWorker, Worker.owes, hk, List.count_append]
  | task w outcome running => exact a.taskStep running
  | _ => exact a.same (fun _ _ _ => id) (fun _ => rfl) rfl rfl

theorem answered_of_reachable [DecidableEq T] {k : K} (hcode : (code k).Steady)
    (h : (system n T server code).Reachable s) : Answered code k s := by
  refine invariant_of_moves (P := Answered code k) ⟨nofun, ?_⟩ ?_ h
  · simp [State.initial, Worker.owes]
  · exact fun _ _ hreach a => a.moves hcode hreach

end Answers

/-! ## Every task is served -/

/-- No worker thread can go on: each of them waits or has ended. -/
def State.Resting (code : K → Task) (s : State n K T) : Prop :=
  ∀ w outcome, workerStep code s w outcome = none

theorem Worker.Awake.step {w : Fin n} (h : (s.worker w).Awake) (outcome : Bool) :
    workerStep code s w outcome ≠ none := by
  rcases h with h | ⟨k, task, conns, h⟩
  · simp only [workerStep, h]
    split <;> simp
  · simp [workerStep, h]

/-- Without a connection, a task stays in the queue. -/
theorem exists_unserved [DecidableEq T] [Inhabited T] [Inhabited K] (code : K → Task)
    (ready : ¬ (Pool.init server n).isReady) :
    ∃ s : State n K T, (system n T server code).Reachable s ∧ s.tasks = [default] ∧
      ∀ t, s.notifying t = false := by
  let s₁ : State n K T := { State.initial server with owner := .serving }
  let s₂ : State n K T := { s₁ with
    tasks := [default]
    pushed := [default]
    notifying := Function.update (fun _ => false) default true }
  let s₃ : State n K T := { s₂ with notifying := Function.update s₂.notifying default false }
  have h₁ : step server code (.initial server) .owner = some s₁ := by
    simp only [step, ownerStep, State.initial]
    rw [dif_neg fun h => ready h.2]
    rfl
  have h₂ : step server code s₁ (.execute default default) = some s₂ := rfl
  have h₃ : step server code s₂ (.notifyOne default none) = some s₃ := by
    simp [step, s₁, s₂, s₃, State.initial, Worker.isWaiting]
  refine ⟨s₃, reachable_step (reachable_step (reachable_step (.init rfl) h₁) h₂) h₃, rfl,
    fun t => ?_⟩
  show Function.update (Function.update (fun _ => false) default true) default false t = false
  rw [Function.update_idem]
  rcases eq_or_ne t default with rfl | hne
  · exact Function.update_self ..
  · exact Function.update_of_ne hne ..

variable [DecidableEq K]

/-- What `Execute` promises: the tasks are run once and in order; when no worker can go on, the
queue is empty or a caller of `Execute` has yet to notify a worker, and with an empty queue each
login has been answered once; when all workers have ended, the queue is empty; and the workers do
come to rest. -/
structure Served (code : K → Task) (s : State n K T) : Prop where
  once : s.ran ++ s.tasks = s.pushed
  drained : s.Resting code → s.tasks = [] ∨ ∃ t, s.notifying t = true
  answered : s.Resting code → s.tasks = [] → ∀ k, code k = .login →
    (s.answers.map Prod.fst).count k = s.pushed.count k
  joined : (∀ w, (s.worker w).Done) → s.tasks = []
  progress : ∀ w outcome s', workerStep code s w outcome = some s' → s'.work code < s.work code

theorem State.Resting.owes (h : s.Resting code) (w : Fin n) (k : K) :
    (s.worker w).owes k = 0 := by
  cases hw : s.worker w with
  | running k' task conns =>
    exact absurd (h w false) (Worker.Awake.step (.inr ⟨k', task, conns, hw⟩) false)
  | _ => rfl

theorem Queued.served [DecidableEq T] (q : Queued s) (hpos : 0 < n)
    (hreach : (system n T server code).Reachable s) : Served code s where
  once := q.order
  drained hrest := by
    by_contra hne
    obtain ⟨htasks, hquiet⟩ := not_or.1 hne
    obtain ⟨w, hw⟩ := (q.heard htasks).resolve_right hquiet
    exact hw.step false (hrest w false)
  answered hrest hempty k hk := by
    have hcode : (code k).Steady := hk ▸ Task.login_steady
    have hcount := (answered_of_reachable hcode hreach).count
    rw [Finset.sum_eq_zero fun w _ => hrest.owes w k, hk, Task.login_calls, Nat.mul_one,
      Nat.add_zero] at hcount
    rw [hcount, ← q.order, hempty, List.append_nil]
  joined hdone := by
    rcases hdone ⟨0, hpos⟩ with hnew | hexited
    · by_contra hne
      refine q.started ⟨0, hpos⟩ (fun count howner => ?_) hnew
      exact absurd (q.empty count howner) hne
    · exact (q.exited _ hexited).2
  progress _ _ _ := work_workerStep

/-- Every task that `Execute` has entered is run once and every login is answered once, in every
reachable state, if and only if `Init` has opened a connection. -/
theorem tasks_served_iff [DecidableEq T] [Inhabited T] [Inhabited K] :
    (∀ s : State n K T, (system n T server code).Reachable s → Served code s) ↔
      ∃ i < n, Pool.opens server i = true := by
  have hready : (Pool.init server n).isReady ↔ ∃ i < n, Pool.opens server i = true := by
    rw [Pool.isReady_iff, Pool.init_eq, ne_eq, List.filter_eq_nil_iff]
    simp only [List.mem_range, not_forall, not_not, exists_prop]
  rw [← hready]
  constructor
  · intro hserved
    by_contra hnot
    obtain ⟨s, hreach, htasks, hquiet⟩ := exists_unserved (T := T) code hnot
    have hrest : s.Resting code := by
      intro w outcome
      have hworker := notStarted_of_not_ready (Bool.eq_false_of_not_eq_true hnot) hreach w
      simp only [workerStep, hworker]
    rcases (hserved s hreach).drained hrest with hempty | ⟨t, ht⟩
    · rw [htasks] at hempty
      cases hempty
    · rw [hquiet t] at ht
      cases ht
  · intro ready s hreach
    have hpos : 0 < n := by
      obtain ⟨i, hi, -⟩ := hready.1 ready
      omega
    have q : Queued s := invariant_of_moves .initial (fun _ _ _ q => q.moves ready) hreach
    exact q.served hpos hreach

end Invariant

/-- No connection could be opened: `Execute` accepts a login, but no worker exists to answer it. -/
theorem login_unanswered_without_connection :
    ∃ s : State 4 Unit Unit,
      (system 4 Unit (.accepting fun _ => false) fun _ => Task.login).Reachable s ∧
      s.running = true ∧ s.pushed = [()] ∧ s.ran = [] ∧ s.answers = [] ∧ s.tasks = [()] ∧
      s.notifying () = false ∧ ∀ w, s.worker w = .notStarted := by
  have hrun : (system 4 Unit (.accepting fun _ => false) fun _ => Task.login).run
      (.initial (.accepting fun _ => false))
      [.owner, .execute () (), .notifyOne () none] = some _ := rfl
  exact ⟨_, Transition.System.reachable_of_run (.init rfl) hrun, rfl, rfl, rfl, rfl, rfl, rfl,
    fun _ => rfl⟩

end Db

end DhNet
