import Mathlib
import DhNet.Lib.System

/-!
# The pool of send chunks

`SendPool` divides its memory into chunks of 1024 bytes.  `Alloc` takes the first run of free chunks
that is long enough and hands out the `Sender` object that belongs to the first chunk of the run;
when the last `SenderRef` to it goes away, `Sender::DeAlloc` resets the object and then clears the
flags of the run under the lock of the pool.

`GetAllocIndex`, `Alloc` and `SendPool::DeAlloc` each run under that lock and are one step.  The
release of a `SenderRef` is cut into the accesses that `Sender::DeAlloc` makes outside the lock.
A failed `ASSERT_CRASH` ends the run.
-/

namespace DhNet

/-- `sizeof(DataChunk)`. -/
def sizeofDataChunk : ℕ := 1024

/-- The checks that end the process when they fail. -/
inductive Assertion where
  | chunkNotNull
  | chunkIndex
  | chunkCount
  | chunkFree
  | index
  | count
  | poolCount
  | poolIndex
  | deAlloc
  deriving DecidableEq, Repr

/-- A `Sender`; a pointer to a chunk is the number of the chunk. -/
structure Sender where
  tempChunk : Option ℕ
  index : ℤ
  count : ℕ
  deriving DecidableEq, Repr

namespace Sender

/-- `Sender::Sender`. -/
def init : Sender := ⟨none, -1, 0⟩

/-- `Sender::SetSendDataChunk`. -/
def setSendDataChunk (sender : Sender) (chunk : Option ℕ) (chunkIndex : ℤ) (chunkCount : ℕ) :
    Except Assertion Sender :=
  if chunk = none then .error .chunkNotNull
  else if chunkIndex < 0 then .error .chunkIndex
  else if chunkCount = 0 then .error .chunkCount
  else if sender.tempChunk ≠ none then .error .chunkFree
  else .ok ⟨chunk, chunkIndex, chunkCount⟩

end Sender

/-- The pool; of `senderList` only the entries below `chunkCount` exist. -/
structure SendPool where
  chunkCount : ℕ
  useFlag : List Bool
  senderList : ℕ → Sender
  useSize : UInt16

namespace SendPool

/-- `SendPool::Init`. -/
def init (count : ℕ) : SendPool := ⟨count, List.replicate count false, fun _ => .init, 0⟩

/-- The loop of `SendPool::GetAllocIndex` over the flags from `flagIndex` on, with its `maxCount`
and `allocIndex`; `none` is `-1`. -/
def searchLoop (count : ℕ) : List Bool → ℕ → ℕ → Option ℕ → ℕ × Option ℕ
  | [], _, maxCount, allocIndex => (maxCount, allocIndex)
  | false :: flags, flagIndex, maxCount, allocIndex =>
      if maxCount + 1 = count then (maxCount + 1, some (allocIndex.getD flagIndex))
      else searchLoop count flags (flagIndex + 1) (maxCount + 1) (some (allocIndex.getD flagIndex))
  | true :: flags, flagIndex, _, _ => searchLoop count flags (flagIndex + 1) 0 none

/-- `SendPool::GetAllocIndex`. -/
def getAllocIndex (pool : SendPool) (count : ℕ) : Option ℕ :=
  let found := searchLoop count pool.useFlag 0 0 none
  if found.1 = count then found.2 else none

/-- The loop of `SendPool::Alloc` that sets the flags. -/
def useLoop (i : ℕ) : ℕ → List Bool → List Bool
  | 0, flags => flags
  | n + 1, flags => useLoop (i + 1) n (flags.set i true)

/-- The number of chunks for a packet. -/
def chunksFor (sendSize : UInt16) : ℕ := sendSize.toNat / sizeofDataChunk + 1

/-- `SendPool::Alloc`: the pool and the number of the `Sender`, `none` being the null pointer. -/
def alloc (pool : SendPool) (sendSize : UInt16) : Except Assertion (SendPool × Option ℕ) :=
  match pool.getAllocIndex (chunksFor sendSize) with
  | none => .ok (pool, none)
  | some index => do
      let sender ← (pool.senderList index).setSendDataChunk (some index) index (chunksFor sendSize)
      return ({ pool with
        useFlag := useLoop index (chunksFor sendSize) pool.useFlag
        useSize := pool.useSize + UInt16.ofNat (chunksFor sendSize * sizeofDataChunk)
        senderList := Function.update pool.senderList index sender }, some index)

/-- The loop of `SendPool::DeAlloc`. -/
def deAllocLoop (i : ℕ) : ℕ → SendPool → SendPool × Bool
  | 0, pool => (pool, true)
  | n + 1, pool =>
      if pool.useFlag.getD i false = false then (pool, false)
      else deAllocLoop (i + 1) n { pool with
        useFlag := pool.useFlag.set i false
        useSize := pool.useSize - UInt16.ofNat sizeofDataChunk }

/-- `SendPool::DeAlloc`. -/
def deAlloc (pool : SendPool) (index : ℤ) (count : ℕ) : Except Assertion (SendPool × Bool) :=
  if pool.chunkCount < count then .error .poolCount
  else if pool.chunkCount ≤ index then .error .poolIndex
  else .ok (deAllocLoop index.toNat count pool)

end SendPool

namespace Senders

/-- The point a release has reached in `Sender::DeAlloc`, with the index and the count that it has
read: the test of `m_tempChunk` and the two checks, the three stores, the call of
`SendPool::DeAlloc`, and the check of its result. -/
inductive ReleasePc where
  | test
  | resetChunk (index : ℤ) (count : ℕ)
  | resetIndex (index : ℤ) (count : ℕ)
  | resetCount (index : ℤ) (count : ℕ)
  | deAlloc (index : ℤ) (count : ℕ)
  | check (result : Bool)
  deriving DecidableEq, Repr

/-- A `SenderRef`: not yet handed out, or a reference to the `Sender` of that number. -/
inductive Ref where
  | unused
  | live (sender : ℕ)
  | releasing (sender : ℕ) (pc : ReleasePc)
  | released
  deriving DecidableEq, Repr

/-- The pool with all `SenderRef`s, and the check that has failed. -/
structure State (R : Type*) where
  pool : SendPool
  ref : R → Ref
  crash : Option Assertion

/-- What can happen: `Alloc` hands out a reference, the last copy of a reference goes away, and its
release makes the next access. -/
inductive Op (R : Type*) where
  | alloc (r : R) (sendSize : UInt16)
  | release (r : R)
  | next (r : R)
  deriving DecidableEq

section Model

variable {R : Type*} [DecidableEq R]

def State.setRef (s : State R) (r : R) (ref : Ref) : State R :=
  { s with ref := Function.update s.ref r ref }

/-- Store to a member of a `Sender`. -/
def State.setSender (s : State R) (i : ℕ) (sender : Sender) : State R :=
  { s with pool := { s.pool with senderList := Function.update s.pool.senderList i sender } }

/-- The next access of `Sender::DeAlloc` on the `Sender` of number `i`. -/
def deAllocStep (s : State R) (r : R) (i : ℕ) : ReleasePc → State R
  | .test =>
      let sender := s.pool.senderList i
      if sender.tempChunk = none then s.setRef r .released
      else if sender.index < 0 then { s with crash := some .index }
      else if sender.count = 0 then { s with crash := some .count }
      else s.setRef r (.releasing i (.resetChunk sender.index sender.count))
  | .resetChunk index count =>
      (s.setSender i { s.pool.senderList i with tempChunk := none }).setRef r
        (.releasing i (.resetIndex index count))
  | .resetIndex index count =>
      (s.setSender i { s.pool.senderList i with index := -1 }).setRef r
        (.releasing i (.resetCount index count))
  | .resetCount index count =>
      (s.setSender i { s.pool.senderList i with count := 0 }).setRef r
        (.releasing i (.deAlloc index count))
  | .deAlloc index count =>
      match s.pool.deAlloc index count with
      | .error check => { s with crash := some check }
      | .ok (pool, result) => { s with pool := pool }.setRef r (.releasing i (.check result))
  | .check result => if result then s.setRef r .released else { s with crash := some .deAlloc }

/-- One step; nothing happens after a crash. -/
def step (s : State R) (op : Op R) : Option (State R) :=
  if s.crash ≠ none then none
  else
    match op with
    | .alloc r sendSize =>
        if s.ref r ≠ .unused then none
        else
          match s.pool.alloc sendSize with
          | .error check => some { s with crash := some check }
          | .ok (_, none) => some s
          | .ok (pool, some sender) => some ({ s with pool := pool }.setRef r (.live sender))
    | .release r =>
        match s.ref r with
        | .live sender => some (s.setRef r (.releasing sender .test))
        | _ => none
    | .next r =>
        match s.ref r with
        | .releasing sender pc => some (deAllocStep s r sender pc)
        | _ => none

/-- An initialized pool without references. -/
def State.initial (count : ℕ) : State R := ⟨.init count, fun _ => .unused, none⟩

/-- A pool of `count` chunks in use. -/
def system (R : Type*) [DecidableEq R] (count : ℕ) : Transition.System (State R) (Op R) :=
  ⟨(· = .initial count), step⟩

/-- The chunks of a reference: those that its `Sender` names while it is live, and those that are
still to be given back while it is released. -/
def State.chunks (s : State R) (r : R) : Set ℤ :=
  match s.ref r with
  | .unused | .released => ∅
  | .live sender | .releasing sender .test =>
      Set.Ico (s.pool.senderList sender).index
        ((s.pool.senderList sender).index + (s.pool.senderList sender).count)
  | .releasing _ (.resetChunk index count) | .releasing _ (.resetIndex index count)
  | .releasing _ (.resetCount index count) | .releasing _ (.deAlloc index count) =>
      Set.Ico index (index + count)
  | .releasing _ (.check _) => ∅

end Model

end Senders

end DhNet
