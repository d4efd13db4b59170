import DhNet.Util.JobQueue

/-!
# Handing a job to the worker threads

`ThreadManager::PushGlobalQueue` makes a temporary `JobQueue`, calls its `DoAsync` with the job and
enters the queue into `GGlobalQueue`.  The system here is that of `DhNet.Util.JobQueue` together
with the calls of `PushGlobalQueue` in progress.  They are made where `DoAsync` is: by code outside
the job queues (a database worker, a handler of the administration, a worker thread between two
jobs) or by a running job.  A call is in its `DoAsync` as long as the call stack is higher than it
was at the call.

The calls are numbered, and the number of a call names its temporary queue, which nobody else knows.
Two histories are kept: what was entered into `GGlobalQueue`, and for each start of a job of a
temporary queue the thread, whether it was inside `DoGlobalQueueWork`, and whether the call of
`PushGlobalQueue` had returned.
-/

namespace DhNet

namespace ThreadManager

/-- The queue of an object, or the temporary queue of a call. -/
inductive Queue (Q : Type*) where
  | object (queue : Q)
  | temporary (call : ℕ)
  deriving DecidableEq, Repr

/-- A call of `PushGlobalQueue`. -/
structure Call (T : Type*) where
  caller : T
  insideJob : Bool
  returned : Bool
  deriving DecidableEq, Repr

/-- The start of the job of a call. -/
structure Run (T : Type*) where
  call : ℕ
  thread : T
  insideGlobalQueueWork : Bool
  returned : Bool
  deriving DecidableEq, Repr

/-- The queues and threads, the calls made so far, the calls in progress of each thread with the
height of the call stack below them, innermost first, and the histories. -/
structure State (Q J T : Type*) where
  queues : JobQueue.State (Queue Q) J T
  count : ℕ
  calls : ℕ → Option (Call T)
  active : T → List (ℕ × ℕ)
  entered : List (Queue Q)
  runs : List (Run T)

/-- What a thread does next. -/
inductive Op (Q J : Type*) where
  | pushGlobalQueue (job : J)
  | doAsync (queue : Q) (job : J)
  | doGlobalQueueWork
  | next (timeUp : Bool)
  deriving DecidableEq, Repr

/-- The queue that the next step of a thread enters into `GGlobalQueue`. -/
def entering {Q J : Type*} (th : JobQueue.Thread Q J) : Option Q :=
  match th.stack with
  | .push q _ (.handOver prevCount) :: _ =>
      if prevCount = 0 ∧ th.currentJobQueue.isSome then some q else none
  | .execute q .rePush :: _ => some q
  | _ => none

/-- The queue of which the next step of a thread starts a job. -/
def starting {Q J : Type*} (th : JobQueue.Thread Q J) : Option Q :=
  match th.stack with
  | .execute q (.run (_ :: _) _) :: _ => some q
  | _ => none

/-- The activation is `DoGlobalQueueWork`. -/
def isGlobalQueueWork {Q J : Type*} : JobQueue.Frame Q J → Bool
  | .globalQueueWork => true
  | _ => false

section Model

variable {Q J T : Type*} [DecidableEq Q] [DecidableEq T]

/-- The height of the call stack of a thread. -/
def State.height (s : State Q J T) (t : T) : ℕ := (s.queues.thread t).stack.length

/-- Whether a call has returned. -/
def State.returned (s : State Q J T) (i : ℕ) : Bool := (s.calls i).any Call.returned

/-- The start of a job, if the next step of a thread is one of a temporary queue. -/
def State.run (s : State Q J T) (t : T) : Option (Run T) :=
  match starting (s.queues.thread t) with
  | some (.temporary i) =>
      some ⟨i, t, (s.queues.thread t).stack.any isGlobalQueueWork, s.returned i⟩
  | _ => none

/-- The `DoAsync` of the innermost call has returned, and `GGlobalQueue->Push` is next. -/
def State.atEnd (s : State Q J T) (t : T) : Option (ℕ × List (ℕ × ℕ)) :=
  match s.active t with
  | (i, height) :: rest => if s.height t = height then some (i, rest) else none
  | [] => none

/-- One step of the functions of `JobQueue`, or the begin of a call. -/
def queueStep (s : State Q J T) (t : T) : Op Q J → Option (State Q J T)
  | .pushGlobalQueue job =>
      (JobQueue.step s.queues (t, .doAsync (.temporary s.count) job)).map fun queues =>
        { s with
          queues := queues
          count := s.count + 1
          calls := Function.update s.calls s.count
            (some ⟨t, (s.queues.thread t).currentJobQueue.isSome, false⟩)
          active := Function.update s.active t ((s.count, s.height t) :: s.active t) }
  | .doAsync q job =>
      (JobQueue.step s.queues (t, .doAsync (.object q) job)).map fun queues =>
        { s with queues := queues }
  | .doGlobalQueueWork =>
      (JobQueue.step s.queues (t, .doGlobalQueueWork)).map fun queues =>
        { s with queues := queues }
  | .next timeUp =>
      (JobQueue.step s.queues (t, .next timeUp)).map fun queues =>
        { s with
          queues := queues
          entered := s.entered ++ (entering (s.queues.thread t)).toList
          runs := s.runs ++ (s.run t).toList }

/-- The last statement of `PushGlobalQueue`. -/
def State.finish (s : State Q J T) (t : T) (i : ℕ) (rest : List (ℕ × ℕ)) : State Q J T :=
  { s with
    queues := s.queues.pushGlobal (.temporary i)
    calls := Function.update s.calls i ((s.calls i).map fun c => { c with returned := true })
    active := Function.update s.active t rest
    entered := s.entered ++ [.temporary i] }

/-- One step of thread `a.1`. -/
def step (s : State Q J T) (a : T × Op Q J) : Option (State Q J T) :=
  match s.atEnd a.1 with
  | some (i, rest) =>
      match a.2 with
      | .next _ => some (s.finish a.1 i rest)
      | _ => none
  | none => queueStep s a.1 a.2

/-- No queue has a job and nobody has called anything. -/
def State.initial : State Q J T := ⟨.initial, 0, fun _ => none, fun _ => [], [], []⟩

/-- The threads with the job queues, the global queue and `PushGlobalQueue`. -/
def system (Q J T : Type*) [DecidableEq Q] [DecidableEq T] :
    Transition.System (State Q J T) (T × Op Q J) := ⟨(· = .initial), step⟩

end Model

end ThreadManager

end DhNet
