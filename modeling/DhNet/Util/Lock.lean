import Mathlib.Logic.Function.Basic
import Mathlib.Data.Fintype.BigOperators
import DhNet.Lib.System

/-!
# The reader-writer spin lock

One 32-bit word holds the id of the writing thread in its upper half and the number of read holds in
its lower half; `m_writeCount` is the nesting depth of the writer.  Every access to the word or to
`m_writeCount` and every reading of the clock is one step of a thread, so a thread is the point its
call has reached together with the acquisitions it has completed and not yet released.

`CRASH` ends the process: a crashed state has no further steps.
-/

namespace DhNet

namespace Lock

/-- `ACQUIRE_TIMEOUT_TICK`. -/
def acquireTimeoutTick : UInt64 := 10000

/-- `MAX_SPIN_COUNT`. -/
def maxSpinCount : ℕ := 5000

/-- `WRITE_THREAD_MASK`. -/
def writeThreadMask : BitVec 32 := 0xFFFF0000

/-- `READ_COUNT_MASK`. -/
def readCountMask : BitVec 32 := 0x0000FFFF

/-- `EMPTY_FLAG`. -/
def emptyFlag : BitVec 32 := 0

/-- The two kinds of acquisition. -/
inductive Mode where
  | write
  | read
  deriving DecidableEq, Repr

/-- The causes with which the lock calls `CRASH`. -/
inductive Crash where
  | lockTimeout
  | invalidUnlockOrder
  | multipleUnlock
  deriving DecidableEq, Repr

/-- The point a call has reached: the next access it makes. -/
inductive Pc where
  | idle
  | writeLoad
  | writeNested
  | writeTick
  | writeExchange (beginTick : UInt64) (spinCount : ℕ)
  | writeAcquired
  | writeTimeout (beginTick : UInt64)
  | unlockLoad
  | unlockCount
  | unlockStore
  | readLoad
  | readNested
  | readTick
  | readExpected (beginTick : UInt64) (spinCount : ℕ)
  | readExchange (beginTick : UInt64) (spinCount : ℕ) (expected : BitVec 32)
  | readTimeout (beginTick : UInt64)
  | readSub
  deriving DecidableEq

/-- A thread: where its current call is and what it holds, the last acquisition first. -/
structure Thread where
  pc : Pc
  holds : List Mode
  deriving DecidableEq

/-- The members of `Lock`. -/
structure Cells where
  lockFlag : BitVec 32
  writeCount : BitVec 16
  deriving DecidableEq

/-- The id of the writing thread in the word. -/
def lockThreadId (flag : BitVec 32) : BitVec 32 := (flag &&& writeThreadMask) >>> 16

/-- The next access of a thread with this `LThreadId`, `now` being the tick count if it reads the
clock: the members, the thread, and the crash in which it ends. -/
def next (threadId : BitVec 32) (now : UInt64) (c : Cells) (th : Thread) :
    Option (Cells × Thread × Option Crash) :=
  match th.pc with
  | .idle => none
  -- `WriteLock`
  | .writeLoad =>
      some (c, ⟨if threadId = lockThreadId c.lockFlag then .writeNested else .writeTick, th.holds⟩,
        none)
  | .writeNested => some (⟨c.lockFlag, c.writeCount + 1⟩, ⟨.idle, .write :: th.holds⟩, none)
  | .writeTick => some (c, ⟨.writeExchange now 0, th.holds⟩, none)
  | .writeExchange beginTick spinCount =>
      if c.lockFlag = emptyFlag then
        some (⟨(threadId <<< 16) &&& writeThreadMask, c.writeCount⟩, ⟨.writeAcquired, th.holds⟩,
          none)
      else if spinCount + 1 < maxSpinCount then
        some (c, ⟨.writeExchange beginTick (spinCount + 1), th.holds⟩, none)
      else some (c, ⟨.writeTimeout beginTick, th.holds⟩, none)
  | .writeAcquired => some (⟨c.lockFlag, c.writeCount + 1⟩, ⟨.idle, .write :: th.holds⟩, none)
  | .writeTimeout beginTick =>
      if acquireTimeoutTick ≤ now - beginTick then some (c, th, some .lockTimeout)
      else some (c, ⟨.writeExchange beginTick 0, th.holds⟩, none)
  -- `WriteUnlock`
  | .unlockLoad =>
      if c.lockFlag &&& readCountMask ≠ 0 then some (c, th, some .invalidUnlockOrder)
      else some (c, ⟨.unlockCount, th.holds⟩, none)
  | .unlockCount =>
      some (⟨c.lockFlag, c.writeCount - 1⟩,
        ⟨if c.writeCount - 1 = 0 then .unlockStore else .idle, th.holds.erase .write⟩, none)
  | .unlockStore => some (⟨emptyFlag, c.writeCount⟩, ⟨.idle, th.holds⟩, none)
  -- `ReadLock`
  | .readLoad =>
      some (c, ⟨if threadId = lockThreadId c.lockFlag then .readNested else .readTick, th.holds⟩,
        none)
  | .readNested => some (⟨c.lockFlag + 1, c.writeCount⟩, ⟨.idle, .read :: th.holds⟩, none)
  | .readTick => some (c, ⟨.readExpected now 0, th.holds⟩, none)
  | .readExpected beginTick spinCount =>
      some (c, ⟨.readExchange beginTick spinCount (c.lockFlag &&& readCountMask), th.holds⟩, none)
  | .readExchange beginTick spinCount expected =>
      if c.lockFlag = expected then
        some (⟨expected + 1, c.writeCount⟩, ⟨.idle, .read :: th.holds⟩, none)
      else if spinCount + 1 < maxSpinCount then
        some (c, ⟨.readExpected beginTick (spinCount + 1), th.holds⟩, none)
      else some (c, ⟨.readTimeout beginTick, th.holds⟩, none)
  | .readTimeout beginTick =>
      if acquireTimeoutTick ≤ now - beginTick then some (c, th, some .lockTimeout)
      else some (c, ⟨.readExpected beginTick 0, th.holds⟩, none)
  -- `ReadUnlock`
  | .readSub =>
      some (⟨c.lockFlag - 1, c.writeCount⟩, ⟨.idle, th.holds.erase .read⟩,
        if c.lockFlag &&& readCountMask = 0 then some .multipleUnlock else none)

/-- The members, the threads, and the crash that ended the process. -/
structure State (T : Type*) where
  cells : Cells
  thread : T → Thread
  crash : Option Crash

/-- What a thread does: call `WriteLock` or `ReadLock`, call `WriteUnlock` or `ReadUnlock`, or make
the next access of its call. -/
inductive Op where
  | lock (mode : Mode)
  | unlock (mode : Mode)
  | next (now : UInt64)
  deriving DecidableEq

/-- The first access of a call. -/
def Op.entry : Op → Option Pc
  | .lock .write => some .writeLoad
  | .lock .read => some .readLoad
  | .unlock .write => some .unlockLoad
  | .unlock .read => some .readSub
  | .next _ => none

/-- The `LThreadId`s: pairwise distinct, in 1..65535. -/
structure ThreadIds (T : Type*) where
  lThreadId : T → BitVec 32
  injective : Function.Injective lThreadId
  pos : ∀ t, 0 < (lThreadId t).toNat
  lt : ∀ t, (lThreadId t).toNat < 65536

section Model

variable {T : Type*} [DecidableEq T] (ids : ThreadIds T)

/-- Replace the members and one thread. -/
def State.set (s : State T) (c : Cells) (t : T) (th : Thread) (crash : Option Crash) : State T :=
  ⟨c, Function.update s.thread t th, crash⟩

/-- One step of a thread. -/
def step (s : State T) (a : T × Op) : Option (State T) :=
  if s.crash.isSome then none
  else
    match a.2 with
    | .next now =>
        (next (ids.lThreadId a.1) now s.cells (s.thread a.1)).map fun r =>
          s.set r.1 a.1 r.2.1 r.2.2
    | op =>
        if (s.thread a.1).pc = .idle then
          op.entry.map fun pc => s.set s.cells a.1 ⟨pc, (s.thread a.1).holds⟩ none
        else none

/-- Nobody holds the lock. -/
def State.initial : State T := ⟨⟨emptyFlag, 0⟩, fun _ => ⟨.idle, []⟩, none⟩

/-- The threads that use one lock. -/
def system : Transition.System (State T) (T × Op) := ⟨(· = .initial), step ids⟩

/-! ## The discipline of the callers -/

/-- The number of read holds of a thread. -/
def Thread.reads (th : Thread) : ℕ := th.holds.count .read

/-- The nesting depth of the write holds of a thread. -/
def Thread.writes (th : Thread) : ℕ := th.holds.count .write

/-- The number of read holds. -/
def State.readHolds [Fintype T] (s : State T) : ℕ := ∑ t, (s.thread t).reads

/-- A call respects the order of the acquisitions: no write is requested on top of a read, and the
last acquisition is released first. -/
def Op.Ordered (holds : List Mode) : Op → Prop
  | .lock .write => .read ∉ holds
  | .unlock mode => holds.head? = some mode
  | _ => True

/-- There are at most 65535 read holds, and write nesting is below 65536. -/
def State.Bounded [Fintype T] (s : State T) : Prop :=
  s.readHolds ≤ 65535 ∧ ∀ t, (s.thread t).writes < 65536

/-- A step of callers that respect the order and the bounds. -/
def Disciplined [Fintype T] (s : State T) (a : T × Op) : Prop :=
  a.2.Ordered (s.thread a.1).holds ∧ ∀ s' ∈ step ids s a, s'.Bounded

instance (holds : List Mode) (op : Op) : Decidable (op.Ordered holds) :=
  match op with
  | .lock .write => inferInstanceAs (Decidable (_ ∉ _))
  | .lock .read => inferInstanceAs (Decidable True)
  | .unlock _ => inferInstanceAs (Decidable (_ = _))
  | .next _ => inferInstanceAs (Decidable True)

instance [Fintype T] (s : State T) : Decidable s.Bounded := inferInstanceAs (Decidable (_ ∧ _))

instance [Fintype T] (s : State T) (a : T × Op) : Decidable (Disciplined ids s a) :=
  inferInstanceAs (Decidable (_ ∧ _))

end Model

end Lock

end DhNet
