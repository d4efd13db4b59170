import DhNet.Util.ThreadManager
import DhNet.Util.UninitializedThreads

/-!
# Admin requests and the locks of the server

A handler thread of the administration calls `DispatchToLogicThreadWithTimeout`, which hands a job
to `PushGlobalQueue`.  As the `DoAsync` in there runs the job on the calling thread, the job takes
the locks of the server on a thread that never called `InitTLS`.

The system here has the job queues and the threads of `DhNet.Util.ThreadManager` and one of the
locks that the jobs take.  A thread is in one call at a time, of the job queues or of the lock.

* `admin_jobs_respect_lock`: if the threads without an id are spared, a job that was handed over
  never is inside a section of the lock while another thread holds it for writing, and nobody runs
  into a crash for a wrong unlock.
-/

namespace DhNet

namespace Admin

/-- The queues and threads, and a lock that the threads use. -/
structure State (Q J T : Type*) where
  manager : ThreadManager.State Q J T
  lock : Lock.State T

/-- What a thread does next: a step of its job queues, or one of the lock. -/
inductive Op (Q J : Type*) where
  | manager (op : ThreadManager.Op Q J)
  | lock (op : Lock.Op)
  deriving DecidableEq

section Model

variable {Q J T : Type*} [DecidableEq Q] [DecidableEq T] (ids : Lock.ThreadIds T)
  (initTls : T → Bool)

/-- `DispatchToLogicThreadWithTimeout` up to the wait for the future. -/
def dispatchToLogicThreadWithTimeout (job : J) : Op Q J := .manager (.pushGlobalQueue job)

/-- One step of thread `a.1`. -/
def step (s : State Q J T) (a : T × Op Q J) : Option (State Q J T) :=
  match a.2 with
  | .manager op =>
      if s.lock.crash = none ∧ (s.lock.thread a.1).pc = .idle then
        (ThreadManager.step s.manager (a.1, op)).map fun manager => { s with manager := manager }
      else none
  | .lock op =>
      (Lock.localStep ids initTls s.lock (a.1, op)).map fun lock => { s with lock := lock }

/-- No queue has a job and nobody holds the lock. -/
def State.initial : State Q J T := ⟨.initial, .initial⟩

/-- The threads with the job queues and the lock. -/
def system : Transition.System (State Q J T) (T × Op Q J) := ⟨(· = .initial), step ids initTls⟩

/-- The job of the `i`-th call of `PushGlobalQueue` runs on a thread. -/
def State.Executes (s : State Q J T) (i : ℕ) (t : T) : Prop :=
  ∃ job jobs jobCount,
    .execute (.temporary i) (.running job jobs jobCount) ∈ (s.manager.queues.thread t).stack

/-- The threads without an id are spared. -/
def Sheltered [Fintype T] (s : State Q J T) (a : T × Op Q J) : Prop :=
  match a.2 with
  | .manager _ => True
  | .lock op => Lock.Sheltered ids initTls s.lock (a.1, op)

instance [Fintype T] (s : State Q J T) : (a : T × Op Q J) → Decidable (Sheltered ids initTls s a)
  | (_, .manager _) => inferInstanceAs (Decidable True)
  | (t, .lock op) => inferInstanceAs (Decidable (Lock.Sheltered ids initTls s.lock (t, op)))

end Model

section Runs

variable {Q J T : Type*} [DecidableEq Q] [DecidableEq T] [Fintype T] {ids : Lock.ThreadIds T}
  {initTls : T → Bool} {s : State Q J T}

/-- The job queues leave the lock alone. -/
theorem lock_reach (h : (system ids initTls).Reach (Sheltered ids initTls) s) :
    (Lock.localSystem ids initTls).Reach (Lock.Sheltered ids initTls) s.lock := by
  refine h.invariant (P := fun s : State Q J T =>
    (Lock.localSystem ids initTls).Reach (Lock.Sheltered ids initTls) s.lock) ?_ ?_
  · rintro s rfl
    exact .init rfl
  · rintro s ⟨t, op⟩ s' - reach sheltered hstep
    cases op with
    | manager op =>
      obtain ⟨-, heq⟩ := Option.ite_none_right_eq_some.1 hstep
      obtain ⟨manager, -, rfl⟩ := Option.map_eq_some_iff.1 heq
      exact reach
    | lock op =>
      obtain ⟨lock, hlock, rfl⟩ := Option.map_eq_some_iff.1 hstep
      exact reach.step sheltered hlock

/-- In every run that spares the threads without an id, a job that was handed to `PushGlobalQueue`
is never inside a section of the lock while another thread holds it for writing, and no thread has
run into `INVALID_UNLOCK_ORDER` or `MULTIPLE_UNLOCK`. -/
theorem admin_jobs_respect_lock (h : (system ids initTls).Reach (Sheltered ids initTls) s) :
    (∀ i t, s.Executes i t → (s.lock.thread t).holds ≠ [] →
      ∀ u, u ≠ t → .write ∉ (s.lock.thread u).holds) ∧
    s.lock.crash ≠ some .invalidUnlockOrder ∧ s.lock.crash ≠ some .multipleUnlock := by
  obtain ⟨hexclusive, hcrash⟩ := Lock.exclusive_of_reach (lock_reach h)
  exact ⟨fun i t _ hholds u hu => hexclusive t u hu hholds, hcrash⟩

/-- The job of a request holds the lock for reading while a worker waits for it. -/
theorem admin_jobs_respect_lock_reader :
    ∃ s : State Unit Unit (Fin 2),
      (system Lock.twoThreads (· = 1)).Reach (Sheltered Lock.twoThreads (· = 1)) s ∧
      s.Executes 0 0 ∧ (s.lock.thread 0).holds = [.read] ∧
      (s.lock.thread 1).pc = .writeExchange 7 1 ∧ .write ∉ (s.lock.thread 1).holds := by
  obtain ⟨s, hrun, hexecutes, hholds, hpc⟩ : ∃ s : State Unit Unit (Fin 2),
      (system Lock.twoThreads (· = 1)).runWhen
        (fun s a => decide (Sheltered Lock.twoThreads (· = 1) s a)) .initial
        (List.flatten [[(0, dispatchToLogicThreadWithTimeout ())],
          List.replicate 6 (0, .manager (.next false)),
          [(0, .lock (.lock .read)), (0, .lock (.next 5)), (0, .lock (.next 6))],
          [(1, .lock (.lock .write)), (1, .lock (.next 7)), (1, .lock (.next 7)),
            (1, .lock (.next 8))]]) = some s ∧
        s.Executes 0 0 ∧ (s.lock.thread 0).holds = [.read] ∧
        (s.lock.thread 1).pc = .writeExchange 7 1 :=
    Transition.System.exists_final (by decide +kernel)
      ⟨⟨(), [], 1, by decide +kernel⟩, by decide +kernel, by decide +kernel⟩
  have hreach := (Transition.System.reach_of_runWhen (.init rfl) hrun).mono
    fun _ _ => of_decide_eq_true
  refine ⟨s, hreach, hexecutes, hholds, hpc, ?_⟩
  exact (admin_jobs_respect_lock hreach).1 0 0 hexecutes (by rw [hholds]; exact nofun) 1 (by decide)

/-- The job of a request loads the free word, a worker takes the lock for writing, and the job adds
its read hold all the same: it is inside with the writer, whose unlock then crashes. -/
theorem admin_job_inside_with_writer :
    ∃ s : State Unit Unit (Fin 2), (system Lock.twoThreads (· = 1)).Reachable s ∧
      s.manager.calls 0 = some ⟨0, false, false⟩ ∧ s.Executes 0 0 ∧
      (s.lock.thread 0).holds = [.read] ∧ (s.lock.thread 1).holds = [.write] ∧
      s.lock.crash = some .invalidUnlockOrder := by
  obtain ⟨s, hrun, hfacts⟩ : ∃ s : State Unit Unit (Fin 2),
      (system Lock.twoThreads (· = 1)).run .initial
        (List.flatten [[(0, dispatchToLogicThreadWithTimeout ())],
          List.replicate 6 (0, .manager (.next false)),
          [(0, .lock (.lock .read)), (0, .lock (.next 5))],
          (1, .lock (.lock .write)) :: List.replicate 4 (1, .lock (.next 6)),
          [(0, .lock (.next 7))],
          [(1, .lock (.unlock .write)), (1, .lock (.next 8))]]) = some s ∧
        s.manager.calls 0 = some ⟨0, false, false⟩ ∧ s.Executes 0 0 ∧
        (s.lock.thread 0).holds = [.read] ∧ (s.lock.thread 1).holds = [.write] ∧
        s.lock.crash = some .invalidUnlockOrder :=
    Transition.System.exists_final (by decide +kernel)
      ⟨by decide +kernel, ⟨(), [], 1, by decide +kernel⟩, by decide +kernel, by decide +kernel,
        by decide +kernel⟩
  exact ⟨s, Transition.System.reachable_of_run (.init rfl) hrun, hfacts⟩

end Runs

end Admin

end DhNet
