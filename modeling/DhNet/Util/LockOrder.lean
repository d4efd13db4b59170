import DhNet.Util.DeadLockProfiler
import DhNet.Util.Lock

/-!
# Locks with the profiler

In a debug build `WriteLock` and `ReadLock` call `PushLock` before they try to acquire the lock, and
`WriteUnlock` and `ReadUnlock` call `PopLock` before they release it.  Threads acquire any number of
locks through guards, which release in the reverse order.  The name is an argument of each call: the
guards of one lock may carry different names.

The accesses to a lock are those of `DhNet.Util.Lock`.
-/

namespace DhNet

namespace LockOrder

/-- A `WriteLockGuard` or a `ReadLockGuard`. -/
structure Guard (L N : Type*) where
  lock : L
  name : N
  mode : Lock.Mode
  deriving DecidableEq

/-- The call a thread is inside and the point it has reached, which is behind `PushLock` or
`PopLock` unless these crashed. -/
inductive Call (L N : Type*) where
  | acquire (guard : Guard L N) (pc : Lock.Pc)
  | release (guard : Guard L N) (pc : Lock.Pc)
  deriving DecidableEq

/-- The locks, the profiler, the threads with the guards they hold, the last one first, and the
crash in which a lock ended the process. -/
structure State (L T N : Type*) where
  cells : L → Lock.Cells
  profiler : DeadLockProfiler.State T N
  call : T → Option (Call L N)
  guards : T → List (Guard L N)
  crash : Option Lock.Crash

/-- What a thread does: construct a guard, destroy its last guard, or make the next access of its
call. -/
inductive Op (L N : Type*) where
  | lock (guard : Guard L N)
  | unlock
  | next (now : UInt64)

section Model

variable {L T N : Type*} [DecidableEq L] [DecidableEq T] [DecidableEq N]
  (lThreadId : T → BitVec 32)

def State.setCall (s : State L T N) (t : T) (call : Option (Call L N)) : State L T N :=
  { s with call := Function.update s.call t call }

def State.setGuards (s : State L T N) (t : T) (guards : List (Guard L N)) : State L T N :=
  { s with guards := Function.update s.guards t guards }

/-- The acquisitions of one lock among some guards. -/
def modes (x : L) (guards : List (Guard L N)) : List Lock.Mode :=
  (guards.filter (·.lock = x)).map (·.mode)

/-- The first access behind `PushLock`. -/
def acquirePc : Lock.Mode → Lock.Pc
  | .write => .writeLoad
  | .read => .readLoad

/-- The first access behind `PopLock`. -/
def releasePc : Lock.Mode → Lock.Pc
  | .write => .unlockLoad
  | .read => .readSub

/-- The next access of the call a thread is inside. -/
def State.next (s : State L T N) (t : T) (now : UInt64) : Option (State L T N) :=
  match s.call t with
  | none => none
  | some (.acquire guard pc) =>
      (Lock.next (lThreadId t) now (s.cells guard.lock)
        ⟨pc, modes guard.lock (s.guards t)⟩).map fun r =>
          let s := { s with cells := Function.update s.cells guard.lock r.1, crash := r.2.2 }
          if r.2.1.pc = .idle then (s.setCall t none).setGuards t (guard :: s.guards t)
          else s.setCall t (some (.acquire guard r.2.1.pc))
  | some (.release guard pc) =>
      (Lock.next (lThreadId t) now (s.cells guard.lock)
        ⟨pc, modes guard.lock (guard :: s.guards t)⟩).map fun r =>
          let s := { s with cells := Function.update s.cells guard.lock r.1, crash := r.2.2 }
          if r.2.1.pc = .idle then s.setCall t none
          else s.setCall t (some (.release guard r.2.1.pc))

/-- One step of thread `a.1`; nothing happens after a crash. -/
def step (s : State L T N) (a : T × Op L N) : Option (State L T N) :=
  if s.profiler.stop.isSome || s.crash.isSome then none
  else
    match a.2, s.call a.1, s.guards a.1 with
    | .lock guard, none, _ =>
        some ({ s with profiler := DeadLockProfiler.pushLock s.profiler a.1 guard.name }.setCall a.1
          (some (.acquire guard (acquirePc guard.mode))))
    | .unlock, none, guard :: guards =>
        some (({ s with profiler := DeadLockProfiler.popLock s.profiler a.1 guard.name }.setGuards
          a.1 guards).setCall a.1 (some (.release guard (releasePc guard.mode))))
    | .next now, _, _ => s.next lThreadId a.1 now
    | _, _, _ => none

/-- No lock was ever requested. -/
def State.initial : State L T N :=
  ⟨fun _ => ⟨Lock.emptyFlag, 0⟩, .initial, fun _ => none, fun _ => [], none⟩

/-- The threads that use the locks. -/
def system (L N : Type*) [DecidableEq L] [DecidableEq N] :
    Transition.System (State L T N) (T × Op L N) := ⟨(· = .initial), step lThreadId⟩

/-- The thread holds the lock through a guard with this name. -/
def State.Holds (s : State L T N) (t : T) (x : L) (name : N) : Prop :=
  ∃ guard ∈ s.guards t, guard.lock = x ∧ guard.name = name

/-- The thread is inside an acquisition of the lock under this name. -/
def State.Acquires (s : State L T N) (t : T) (x : L) (name : N) : Prop :=
  ∃ guard pc, s.call t = some (.acquire guard pc) ∧ guard.lock = x ∧ guard.name = name

end Model

end LockOrder

end DhNet
