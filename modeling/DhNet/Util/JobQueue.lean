import Mathlib.Logic.Function.Basic
import Mathlib.Data.Fintype.BigOperators
import DhNet.Lib.System

/-!
# Job queues and the global queue

`JobQueue` serializes the jobs of one object.  `Push` raises `m_jobCount`, enters the job into
`m_jobs` and, when the counter was zero, either runs the queue on the spot (`Execute`) or, on a
thread that is already inside an `Execute`, enters the queue into `GGlobalQueue`.  `Execute` takes
whole batches out of `m_jobs` until the counter drops to zero or the time slice of the thread is
over, and `DoGlobalQueueWork` runs the queues it takes out of `GGlobalQueue`.

Every access to the shared counter, to a `LockQueue` and to the global queue is one step of a
thread.  A thread is its call stack together with its `LCurrentJobQueue`, so that a nested
`Execute` is a state of the model and not excluded by its types.  A running job may call `DoAsync`
on any queue any number of times.  The outcome of each comparison with `LEndTickCount` is part of
the action.  `m_jobCount` is an `int32`; a queue of `2 ^ 31` pending jobs does not fit in memory, so
the counter is an integer here.
-/

namespace DhNet

/-! ## `LockQueue` -/

namespace LockQueue

variable {α : Type*}

/-- `LockQueue::Push`. -/
def push (items : List α) (item : α) : List α := items ++ [item]

/-- `LockQueue::Pop`: the front item, or the null value of an empty queue. -/
def pop : List α → Option α × List α
  | [] => (none, [])
  | item :: rest => (some item, rest)

/-- The loop of `LockQueue::PopAll`, with the items moved so far. -/
def popAllLoop : List α → List α → List α × List α
  | [], items => (items, [])
  | item :: rest, items => popAllLoop rest (items ++ [item])

/-- `LockQueue::PopAll`. -/
def popAll (queue : List α) : List α × List α := popAllLoop queue []

theorem popAllLoop_eq (queue items : List α) : popAllLoop queue items = (items ++ queue, []) := by
  induction queue generalizing items with
  | nil => simp [popAllLoop]
  | cons item rest ih => simp [popAllLoop, ih]

@[simp] theorem popAll_eq (queue : List α) : popAll queue = (queue, []) := by
  simp [popAll, popAllLoop_eq]

end LockQueue

namespace JobQueue

/-- The point a call of `Push` has reached. -/
inductive PushPc where
  | fetchAdd
  | enqueue (prevCount : ℤ)
  | handOver (prevCount : ℤ)
  | executing
  deriving DecidableEq, Repr

/-- The point a call of `Execute` has reached: `run` lists the jobs of the batch not yet started and
keeps the size of the batch, `leave` follows a `fetch_sub` that emptied the queue and `rePush` the
end of the time slice. -/
inductive ExecutePc (J : Type*) where
  | enter
  | popAll
  | run (jobs : List J) (jobCount : ℕ)
  | running (job : J) (jobs : List J) (jobCount : ℕ)
  | fetchSub (jobCount : ℕ)
  | checkTime
  | leave
  | rePush
  deriving DecidableEq, Repr

/-- An activation on the call stack of a thread. -/
inductive Frame (Q J : Type*) where
  | push (queue : Q) (job : J) (pc : PushPc)
  | execute (queue : Q) (pc : ExecutePc J)
  | globalQueueWork
  deriving DecidableEq, Repr

/-- A thread: its `LCurrentJobQueue` and its call stack, innermost activation first. -/
structure Thread (Q J : Type*) where
  currentJobQueue : Option Q
  stack : List (Frame Q J)
  deriving DecidableEq, Repr

/-- The shared queues and counters, the threads, and two histories: the jobs of each queue in the
order in which `m_jobs.Push` took effect and in the order in which they started to run. -/
structure State (Q J T : Type*) where
  jobs : Q → List J
  jobCount : Q → ℤ
  globalQueue : List Q
  thread : T → Thread Q J
  pushed : Q → List J
  ran : Q → List J

/-- What a thread does next: call `DoAsync`, call `DoGlobalQueueWork`, or go on with its innermost
activation, `timeUp` being the outcome of the time comparison if it makes one. -/
inductive Op (Q J : Type*) where
  | doAsync (queue : Q) (job : J)
  | doGlobalQueueWork
  | next (timeUp : Bool)
  deriving DecidableEq, Repr

section Model

variable {Q J T : Type*} [DecidableEq Q] [DecidableEq T]

/-- Replace the call stack of one thread. -/
def State.setStack (s : State Q J T) (t : T) (stack : List (Frame Q J)) : State Q J T :=
  { s with thread := Function.update s.thread t { s.thread t with stack := stack } }

/-- Set `LCurrentJobQueue` and the call stack of one thread. -/
def State.setThread (s : State Q J T) (t : T) (current : Option Q) (stack : List (Frame Q J)) :
    State Q J T :=
  { s with thread := Function.update s.thread t ⟨current, stack⟩ }

/-- `GGlobalQueue->Push`. -/
def State.pushGlobal (s : State Q J T) (q : Q) : State Q J T :=
  { s with globalQueue := LockQueue.push s.globalQueue q }

/-- The next step of a call of `JobQueue::Push` on top of the stack `rest`. -/
def stepPush (s : State Q J T) (t : T) (q : Q) (job : J) (rest : List (Frame Q J)) :
    PushPc → State Q J T
  | .fetchAdd =>
      { s with jobCount := Function.update s.jobCount q (s.jobCount q + 1) }.setStack t
        (.push q job (.enqueue (s.jobCount q)) :: rest)
  | .enqueue prevCount =>
      { s with
        jobs := Function.update s.jobs q (LockQueue.push (s.jobs q) job)
        pushed := Function.update s.pushed q (s.pushed q ++ [job]) }.setStack t
        (.push q job (.handOver prevCount) :: rest)
  | .handOver prevCount =>
      if prevCount = 0 then
        match (s.thread t).currentJobQueue with
        | some _ => (s.pushGlobal q).setStack t rest
        | none => s.setStack t (.execute q .enter :: .push q job .executing :: rest)
      else s.setStack t rest
  | .executing => s.setStack t rest

/-- The next step of a call of `JobQueue::Execute` on top of the stack `rest`. -/
def stepExecute (s : State Q J T) (t : T) (timeUp : Bool) (q : Q) (rest : List (Frame Q J)) :
    ExecutePc J → State Q J T
  | .enter => s.setThread t (some q) (.execute q .popAll :: rest)
  | .popAll =>
      { s with jobs := Function.update s.jobs q (LockQueue.popAll (s.jobs q)).2 }.setStack t
        (.execute q (.run (LockQueue.popAll (s.jobs q)).1
          (LockQueue.popAll (s.jobs q)).1.length) :: rest)
  | .run (job :: jobs) jobCount =>
      { s with ran := Function.update s.ran q (s.ran q ++ [job]) }.setStack t
        (.execute q (.running job jobs jobCount) :: rest)
  | .run [] jobCount => s.setStack t (.execute q (.fetchSub jobCount) :: rest)
  | .running _ jobs jobCount => s.setStack t (.execute q (.run jobs jobCount) :: rest)
  | .fetchSub jobCount =>
      { s with jobCount := Function.update s.jobCount q (s.jobCount q - jobCount) }.setStack t
        (.execute q (if s.jobCount q = jobCount then .leave else .checkTime) :: rest)
  | .checkTime =>
      if timeUp then s.setThread t none (.execute q .rePush :: rest)
      else s.setStack t (.execute q .popAll :: rest)
  | .leave => s.setThread t none rest
  | .rePush => (s.pushGlobal q).setStack t rest

/-- One turn of the loop of `ThreadManager::DoGlobalQueueWork`. -/
def stepGlobalQueueWork (s : State Q J T) (t : T) (timeUp : Bool) (rest : List (Frame Q J)) :
    State Q J T :=
  if timeUp then s.setStack t rest
  else
    match LockQueue.pop s.globalQueue with
    | (none, _) => s.setStack t rest
    | (some q, queues) =>
        { s with globalQueue := queues }.setStack t (.execute q .enter :: .globalQueueWork :: rest)

/-- `DoAsync` is called by code outside the queues or by a running job. -/
def mayCallDoAsync : List (Frame Q J) → Bool
  | [] => true
  | .execute _ (.running _ _ _) :: _ => true
  | _ => false

/-- One step of thread `a.1`; `none` when the operation is not possible there. -/
def step (s : State Q J T) (a : T × Op Q J) : Option (State Q J T) :=
  match a.2, (s.thread a.1).stack with
  | .doAsync q job, stack =>
      if mayCallDoAsync stack then some (s.setStack a.1 (.push q job .fetchAdd :: stack)) else none
  | .doGlobalQueueWork, [] => some (s.setStack a.1 [.globalQueueWork])
  | .doGlobalQueueWork, _ :: _ => none
  | .next _, [] => none
  | .next _, .push q job pc :: rest => some (stepPush s a.1 q job rest pc)
  | .next timeUp, .execute q pc :: rest => some (stepExecute s a.1 timeUp q rest pc)
  | .next timeUp, .globalQueueWork :: rest => some (stepGlobalQueueWork s a.1 timeUp rest)

/-- No queue has a job and no thread is inside one of the modelled functions. -/
def State.initial : State Q J T where
  jobs _ := []
  jobCount _ := 0
  globalQueue := []
  thread _ := ⟨none, []⟩
  pushed _ := []
  ran _ := []

/-- The queues, the global queue and the threads as a transition system. -/
def system (Q J T : Type*) [DecidableEq Q] [DecidableEq T] :
    Transition.System (State Q J T) (T × Op Q J) where
  init s := s = .initial
  step := step

end Model

end JobQueue

end DhNet
