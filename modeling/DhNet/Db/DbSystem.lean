import Mathlib.Data.Fintype.Basic
import Mathlib.Logic.Function.Basic
import DhNet.Lib.System

/-!
# The database system and its connection pool

`DbSystem::Init` opens the connections of the pool and starts the worker threads, `Execute` enters a
task into `_tasks`, the workers run the tasks, and `Shutdown` lets them drain the queue, joins them
and closes the connections.

* `Pool`: `DbConnectionPool`.  A connection is named by its number in the loop of `Init`.
* `Task`: the code of a task, as far as it uses the pool or answers a login.
* `State`, `step`: the object, its workers, the callers of `Execute` and the thread that calls
  `Init`, `Shutdown` and the destructor.

The sections under `_mutex` and the functions of the pool, which run under its lock, are one step
each.  A worker that waits for `_cv` is woken by a notification or for no reason at all.  The worker
threads are outside of any job, so `PushGlobalQueue` runs its job before it returns and a task that
hands `OnLoginResult` to it calls `OnLoginResult` itself.
-/

namespace DhNet

namespace Db

/-! ## The pool -/

/-- What the database answers in `Init`: whether `mysql_init` succeeds for a connection, and whether
an attempt of `mysql_real_connect` does. -/
structure Server where
  mysqlInit : ℕ → Bool
  mysqlRealConnect : ℕ → ℕ → Bool

/-- `DbConnectionPool`, with the connections given to `mysql_close` so far. -/
structure Pool where
  connections : List ℕ
  poolSize : ℕ
  closed : List ℕ
  deriving DecidableEq, Repr

namespace Pool

def empty : Pool := ⟨[], 0, []⟩

/-- The attempts to connect that are left. -/
def connectLoop (server : Server) (i : ℕ) : ℕ → ℕ → Bool
  | _, 0 => false
  | retry, left + 1 =>
      if server.mysqlRealConnect i retry then true else connectLoop server i (retry + 1) left

/-- Whether one of the three attempts succeeds. -/
def connected (server : Server) (i : ℕ) : Bool := connectLoop server i 0 3

/-- The body of the loop of `Init`. -/
def openConnection (server : Server) (p : Pool) (i : ℕ) : Pool :=
  if server.mysqlInit i then
    if connected server i then
      { p with connections := p.connections ++ [i], poolSize := p.poolSize + 1 }
    else { p with closed := p.closed ++ [i] }
  else p

/-- `DbConnectionPool::Init`. -/
def init (server : Server) (poolSize : ℕ) : Pool :=
  (List.range poolSize).foldl (openConnection server) empty

/-- `DbConnectionPool::IsReady`. -/
def isReady (p : Pool) : Bool := 0 < p.poolSize

/-- `DbConnectionPool::Acquire`. -/
def acquire (p : Pool) : Option ℕ × Pool :=
  match p.connections with
  | [] => (none, p)
  | conn :: rest => (some conn, { p with connections := rest })

/-- `DbConnectionPool::Release`. -/
def release (p : Pool) : Option ℕ → Pool
  | none => p
  | some conn => { p with connections := p.connections ++ [conn] }

/-- The loop of `Shutdown`: the connections in the queue and the closed ones. -/
def closeLoop : List ℕ → List ℕ → List ℕ
  | [], closed => closed
  | conn :: rest, closed => closeLoop rest (closed ++ [conn])

/-- `DbConnectionPool::Shutdown`. -/
def shutdown (p : Pool) : Pool := ⟨[], 0, closeLoop p.connections p.closed⟩

end Pool

/-! ## Tasks -/

/-- The code of a task: it constructs a `DbConnection` and goes on with `IsValid`, destroys the last
one it constructed, goes on with the outcome of other code, or calls `OnLoginResult`. -/
inductive Task where
  | ret
  | construct (body : Bool → Task)
  | destruct (next : Task)
  | branch (next : Bool → Task)
  | onLoginResult (ok : Bool) (next : Task)

namespace Task

/-- The task of `HandleReqLoginPacket`; the outcome of `Authenticate` is a branch. -/
def login : Task :=
  .construct fun isValid =>
    if isValid then .branch fun ok => .onLoginResult ok (.destruct .ret)
    else .onLoginResult false (.destruct .ret)

/-- With this number of live `DbConnection`s the task destroys what it constructs, and never has
more than `bound` of them. -/
def Scoped (bound : ℕ) : ℕ → Task → Prop
  | live, .ret => live = 0
  | live, .construct body => live < bound ∧ ∀ isValid, Scoped bound (live + 1) (body isValid)
  | live, .destruct next => 0 < live ∧ Scoped bound (live - 1) next
  | live, .branch next => ∀ outcome, Scoped bound live (next outcome)
  | live, .onLoginResult _ next => Scoped bound live next

theorem login_scoped : login.Scoped 1 0 := by
  refine ⟨zero_lt_one, fun isValid => ?_⟩
  cases isValid with
  | false => exact ⟨zero_lt_one, rfl⟩
  | true => exact fun _ => ⟨zero_lt_one, rfl⟩

end Task

/-! ## The system -/

/-- A worker thread: before its start, about to take `_mutex`, waiting for `_cv`, in a task with the
connections of its live `DbConnection`s, or at its end. -/
inductive Worker (K : Type*) where
  | notStarted
  | ready
  | waiting
  | running (task : K) (code : Task) (conns : List (Option ℕ))
  | exited

/-- The point the owner of the system has reached: `starting` counts the threads started by `Init`,
`joining` those joined by `Shutdown`. -/
inductive OwnerPc where
  | starting (count : ℕ)
  | serving
  | notifyAll
  | joining (count : ℕ)
  | closing
  | shutDown
  | destroyed
  deriving DecidableEq, Repr

/-- `DbSystem` with `n` worker threads at most, the callers of `Execute` that have yet to call
`notify_one`, and histories: the tasks entered into `_tasks`, the tasks taken out, and the calls of
`OnLoginResult`. -/
structure State (n : ℕ) (K T : Type*) where
  pool : Pool
  worker : Fin n → Worker K
  tasks : List K
  running : Bool
  notifying : T → Bool
  owner : OwnerPc
  pushed : List K
  ran : List K
  answers : List (K × Bool)

/-- What happens next: the owner calls `Shutdown` or the destructor or goes on with its call, a
thread calls `Execute` or its `notify_one`, which wakes the named worker, a worker goes on with the
outcome of a branch, or it wakes up for no reason. -/
inductive Op (n : ℕ) (K T : Type*) where
  | shutdown
  | destructor
  | owner
  | execute (t : T) (task : K)
  | notifyOne (t : T) (woken : Option (Fin n))
  | worker (w : Fin n) (outcome : Bool)
  | wake (w : Fin n)

section Model

variable {n : ℕ} {K T : Type*} [DecidableEq T] (server : Server) (code : K → Task)

def Worker.isWaiting : Worker K → Bool
  | .waiting => true
  | _ => false

/-- A worker after a notification. -/
def Worker.notified : Worker K → Worker K
  | .waiting => .ready
  | w => w

/-- The connections of the live `DbConnection`s of a worker. -/
def Worker.held : Worker K → List ℕ
  | .running _ _ conns => conns.reduceOption
  | _ => []

def State.setWorker (s : State n K T) (w : Fin n) (th : Worker K) : State n K T :=
  { s with worker := Function.update s.worker w th }

/-- The next step of a task. -/
def taskStep (s : State n K T) (w : Fin n) (outcome : Bool) (k : K) (conns : List (Option ℕ)) :
    Task → State n K T
  | .ret => s.setWorker w .ready
  | .construct body =>
      { s with pool := s.pool.acquire.2 }.setWorker w
        (.running k (body s.pool.acquire.1.isSome) (s.pool.acquire.1 :: conns))
  | .destruct next =>
      { s with pool := s.pool.release conns.head?.join }.setWorker w (.running k next conns.tail)
  | .branch next => s.setWorker w (.running k (next outcome) conns)
  | .onLoginResult ok next =>
      { s with answers := s.answers ++ [(k, ok)] }.setWorker w (.running k next conns)

/-- The next step of a worker. -/
def workerStep (s : State n K T) (w : Fin n) (outcome : Bool) : Option (State n K T) :=
  match s.worker w with
  | .notStarted | .waiting | .exited => none
  | .ready =>
      match s.tasks with
      | [] => some (s.setWorker w (if s.running then .waiting else .exited))
      | k :: rest =>
          some ({ s with tasks := rest, ran := s.ran ++ [k] }.setWorker w
            (.running k (code k) []))
  | .running k task conns => some (taskStep s w outcome k conns task)

/-- The next step of `Init` or `Shutdown`; `_threads` holds the threads that were started. -/
def ownerStep (s : State n K T) : Option (State n K T) :=
  match s.owner with
  | .starting count =>
      if h : count < n ∧ (Pool.init server n).isReady then
        some ({ s with owner := .starting (count + 1) }.setWorker ⟨count, h.1⟩ .ready)
      else some { s with owner := .serving }
  | .notifyAll =>
      some { s with worker := fun w => (s.worker w).notified, owner := .joining 0 }
  | .joining count =>
      if h : count < n then
        match s.worker ⟨count, h⟩ with
        | .notStarted | .exited => some { s with owner := .joining (count + 1) }
        | _ => none
      else some { s with owner := .closing }
  | .closing => some { s with pool := s.pool.shutdown, owner := .shutDown }
  | _ => none

/-- The owner is between two calls. -/
def OwnerPc.isIdle : OwnerPc → Bool
  | .serving | .shutDown => true
  | _ => false

/-- One step of the system.  `Execute` is called after `Init` and before the destructor. -/
def step (s : State n K T) : Op n K T → Option (State n K T)
  | .shutdown =>
      if s.owner.isIdle then some { s with running := false, owner := .notifyAll } else none
  | .destructor =>
      if s.owner.isIdle then
        some (if s.running then { s with running := false, owner := .notifyAll }
          else { s with owner := .destroyed })
      else none
  | .owner => ownerStep server s
  | .execute t k =>
      match s.owner with
      | .starting _ | .destroyed => none
      | _ =>
          if s.notifying t then none
          else if s.running then
            some { s with
              tasks := s.tasks ++ [k]
              pushed := s.pushed ++ [k]
              notifying := Function.update s.notifying t true }
          else some s
  | .notifyOne t none =>
      if s.notifying t ∧ ∀ w, (s.worker w).isWaiting = false then
        some { s with notifying := Function.update s.notifying t false }
      else none
  | .notifyOne t (some w) =>
      if s.notifying t ∧ (s.worker w).isWaiting then
        some ({ s with notifying := Function.update s.notifying t false }.setWorker w .ready)
      else none
  | .worker w outcome => workerStep code s w outcome
  | .wake w => if (s.worker w).isWaiting then some (s.setWorker w .ready) else none

/-- `Init` has opened the pool and starts the threads. -/
def State.initial : State n K T where
  pool := .init server n
  worker _ := .notStarted
  tasks := []
  running := true
  notifying _ := false
  owner := .starting 0
  pushed := []
  ran := []
  answers := []

/-! ## What a step can do -/

/-- A worker that has not been started or has ended. -/
def Worker.Done (w : Worker K) : Prop := w = .notStarted ∨ w = .exited

/-- The steps of the system, with what they find. -/
inductive Moves (s : State n K T) : State n K T → Prop
  | start (w : Fin n) (owner : s.owner = .starting w) (ready : (Pool.init server n).isReady) :
      Moves s ({ s with owner := .starting (w + 1) }.setWorker w .ready)
  | started {count : ℕ} (owner : s.owner = .starting count)
      (all : (Pool.init server n).isReady → n ≤ count) : Moves s { s with owner := .serving }
  | stop (owner : s.owner.isIdle) : Moves s { s with running := false, owner := .notifyAll }
  | destroy (owner : s.owner.isIdle) (running : s.running = false) :
      Moves s { s with owner := .destroyed }
  | notifyAll (owner : s.owner = .notifyAll) :
      Moves s { s with worker := fun w => (s.worker w).notified, owner := .joining 0 }
  | join (w : Fin n) (owner : s.owner = .joining w) (done : (s.worker w).Done) :
      Moves s { s with owner := .joining (w + 1) }
  | joined {count : ℕ} (owner : s.owner = .joining count) (all : n ≤ count) :
      Moves s { s with owner := .closing }
  | close (owner : s.owner = .closing) :
      Moves s { s with pool := s.pool.shutdown, owner := .shutDown }
  | push (t : T) (k : K) (starting : ∀ count, s.owner ≠ .starting count)
      (running : s.running = true) :
      Moves s { s with
        tasks := s.tasks ++ [k]
        pushed := s.pushed ++ [k]
        notifying := Function.update s.notifying t true }
  | reject (running : s.running = false) : Moves s s
  | notifyNobody (t : T) (awake : ∀ w, (s.worker w).isWaiting = false) :
      Moves s { s with notifying := Function.update s.notifying t false }
  | notifyOne (t : T) (w : Fin n) (waiting : s.worker w = .waiting) :
      Moves s ({ s with notifying := Function.update s.notifying t false }.setWorker w .ready)
  | wake (w : Fin n) (waiting : s.worker w = .waiting) : Moves s (s.setWorker w .ready)
  | wait (w : Fin n) (ready : s.worker w = .ready) (tasks : s.tasks = [])
      (running : s.running = true) : Moves s (s.setWorker w .waiting)
  | exit (w : Fin n) (ready : s.worker w = .ready) (tasks : s.tasks = [])
      (running : s.running = false) : Moves s (s.setWorker w .exited)
  | take (w : Fin n) (k : K) (rest : List K) (ready : s.worker w = .ready)
      (tasks : s.tasks = k :: rest) :
      Moves s ({ s with tasks := rest, ran := s.ran ++ [k] }.setWorker w (.running k (code k) []))
  | task (w : Fin n) (outcome : Bool) {k : K} {task : Task} {conns : List (Option ℕ)}
      (running : s.worker w = .running k task conns) : Moves s (taskStep s w outcome k conns task)

variable {server code} {s s' : State n K T}

theorem Worker.eq_waiting {w : Worker K} (h : w.isWaiting = true) : w = .waiting := by
  cases w with
  | waiting => rfl
  | _ => cases h

theorem moves_of_workerStep {w : Fin n} {outcome : Bool}
    (h : workerStep code s w outcome = some s') : Moves server code s s' := by
  unfold workerStep at h
  split at h
  · cases h
  · cases h
  · cases h
  · next ready =>
    split at h
    · next tasks =>
      obtain rfl := Option.some.inj h
      cases running : s.running with
      | true => exact .wait w ready tasks running
      | false => exact .exit w ready tasks running
    · next k rest tasks =>
      obtain rfl := Option.some.inj h
      exact .take w k rest ready tasks
  · next k task conns running =>
    obtain rfl := Option.some.inj h
    exact .task w outcome running

theorem moves_of_ownerStep (h : ownerStep server s = some s') : Moves server code s s' := by
  unfold ownerStep at h
  split at h
  · next count owner =>
    split at h
    · next hcount =>
      obtain rfl := Option.some.inj h
      exact .start ⟨count, hcount.1⟩ owner hcount.2
    · next hcount =>
      obtain rfl := Option.some.inj h
      exact .started owner fun ready => Nat.not_lt.1 fun hlt => hcount ⟨hlt, ready⟩
  · next owner =>
    obtain rfl := Option.some.inj h
    exact .notifyAll owner
  · next count owner =>
    split at h
    · next hcount =>
      split at h
      · next hworker =>
        obtain rfl := Option.some.inj h
        exact .join ⟨count, hcount⟩ owner (.inl hworker)
      · next hworker =>
        obtain rfl := Option.some.inj h
        exact .join ⟨count, hcount⟩ owner (.inr hworker)
      · cases h
    · next hcount =>
      obtain rfl := Option.some.inj h
      exact .joined owner (Nat.not_lt.1 hcount)
  · next owner =>
    obtain rfl := Option.some.inj h
    exact .close owner
  · cases h

theorem moves_of_step {op : Op n K T} (h : step server code s op = some s') :
    Moves server code s s' := by
  cases op with
  | shutdown =>
    simp only [step, Option.ite_none_right_eq_some, Option.some.injEq] at h
    obtain ⟨owner, rfl⟩ := h
    exact .stop owner
  | destructor =>
    simp only [step, Option.ite_none_right_eq_some, Option.some.injEq] at h
    obtain ⟨owner, rfl⟩ := h
    split
    · exact .stop owner
    · next running => exact .destroy owner (Bool.eq_false_of_not_eq_true running)
  | owner => exact moves_of_ownerStep h
  | execute t k =>
    simp only [step] at h
    split at h
    · cases h
    · cases h
    · next hstarting _ =>
      simp only [Option.ite_none_left_eq_some] at h
      obtain ⟨-, h⟩ := h
      split at h
      · next running =>
        obtain rfl := Option.some.inj h
        exact .push t k hstarting running
      · next running =>
        obtain rfl := Option.some.inj h
        exact .reject (Bool.eq_false_of_not_eq_true running)
  | notifyOne t woken =>
    cases woken with
    | none =>
      simp only [step, Option.ite_none_right_eq_some, Option.some.injEq] at h
      obtain ⟨⟨-, awake⟩, rfl⟩ := h
      exact .notifyNobody t awake
    | some w =>
      simp only [step, Option.ite_none_right_eq_some, Option.some.injEq] at h
      obtain ⟨⟨-, waiting⟩, rfl⟩ := h
      exact .notifyOne t w (Worker.eq_waiting waiting)
  | worker w outcome => exact moves_of_workerStep h
  | wake w =>
    simp only [step, Option.ite_none_right_eq_some, Option.some.injEq] at h
    obtain ⟨waiting, rfl⟩ := h
    exact .wake w (Worker.eq_waiting waiting)

end Model

/-- The database system with `DhNet_DB_POOL_SIZE` set to `n`. -/
def system (n : ℕ) {K : Type*} (T : Type*) [DecidableEq T] (server : Server) (code : K → Task) :
    Transition.System (State n K T) (Op n K T) :=
  ⟨(· = .initial server), step server code⟩

section Runs

variable {n : ℕ} {K T : Type*} [DecidableEq T] {server : Server} {code : K → Task}
variable {s s' : State n K T}

theorem reachable_step {op : Op n K T} (h : (system n T server code).Reachable s)
    (hstep : step server code s op = some s') : (system n T server code).Reachable s' :=
  h.step (a := op) hstep

/-- What holds at the end of `DbConnectionPool::Init` and is kept by every move. -/
theorem invariant_of_moves {P : State n K T → Prop} (init : P (.initial server))
    (moves : ∀ s s', (system n T server code).Reachable s → P s → Moves server code s s' → P s')
    (h : (system n T server code).Reachable s) : P s := by
  refine Transition.System.Reach.invariant (P := P) ?_ ?_ h
  · rintro s rfl
    exact init
  · intro s op s' hreach hs _ hstep
    exact moves s s' hreach hs (moves_of_step hstep)

/-- While `Init` starts the threads, the others are not there yet. -/
theorem notStarted_of_starting (h : (system n T server code).Reachable s) {count : ℕ}
    (howner : s.owner = .starting count) {w : Fin n} (hw : count ≤ w) :
    s.worker w = .notStarted := by
  revert count w
  refine invariant_of_moves (P := fun s => ∀ {count : ℕ}, s.owner = .starting count →
    ∀ {w : Fin n}, count ≤ w → s.worker w = .notStarted) (fun _ _ _ => rfl) ?_ h
  intro s s' _ ih hmoves count howner w hw
  have hother : ∀ {w' : Fin n} {th : Worker K}, s.owner = .starting count →
      s.worker w' ≠ .notStarted → Function.update s.worker w' th w = .notStarted := by
    intro w' th howner hlive
    have hold := ih howner hw
    rw [Function.update_of_ne]
    · exact hold
    · rintro rfl
      exact hlive hold
  cases hmoves with
  | start w' owner =>
    cases howner
    have hne : w ≠ w' := by
      rintro rfl
      exact absurd hw (Nat.not_succ_le_self _)
    exact (Function.update_of_ne hne ..).trans (ih owner (Nat.le_of_succ_le hw))
  | started | stop | destroy | notifyAll | join | joined | close => cases howner
  | push | reject | notifyNobody => exact ih howner hw
  | notifyOne t w' hworker => exact hother howner (hworker ▸ nofun)
  | wake w' hworker => exact hother howner (hworker ▸ nofun)
  | wait w' hworker => exact hother howner (hworker ▸ nofun)
  | exit w' hworker => exact hother howner (hworker ▸ nofun)
  | take w' k rest hworker => exact hother howner (hworker ▸ nofun)
  | @task w' outcome k task conns hworker =>
    have hlive : s.worker w' ≠ .notStarted := hworker ▸ nofun
    cases task with
    | _ => exact hother howner hlive

end Runs

end Db

end DhNet
