import Mathlib.Data.List.Sort
import Mathlib.Logic.Function.Basic
import DhNet.Lib.System

/-!
# The lock-order profiler

`PushLock` draws an edge from the lock name a thread asked for last to the one it asks for now, and
looks for a cycle whenever the edge is new.  All calls run under the mutex of the profiler, so a
call is one step.

Names are compared as the pointers they are.  The sets of `m_lockHistory` are sorted lists, which is
the order of their iteration.  `CRASH` ends the process: a crashed state has no further steps.
-/

namespace DhNet

namespace DeadLockProfiler

/-- The members a depth-first search works on: -1 stands for a node that was not discovered, `none`
for the parent -1.  `visited` lists the nodes whose adjacent nodes the search went through or is
going through, the last one first. -/
structure Search where
  discoveredOrder : ℕ → ℤ
  discoveredCount : ℤ
  finished : ℕ → Bool
  parent : ℕ → Option ℕ
  visited : List ℕ

/-- Why a call does not return: the crashes, with the search, the edge and the lines of the log in
the case of a deadlock, a parent that is -1, or no end. -/
inductive Stop where
  | deadlockDetected (search : Search) (here there : ℕ) (log : List (ℕ × ℕ))
  | multipleUnlock
  | invalidUnlock
  | noParent
  | endless

/-- `m_lockHistory`. -/
abbrev LockHistory := ℕ → Option (List ℕ)

/-! ## The search -/

def Search.initial : Search := ⟨fun _ => -1, 0, fun _ => false, fun _ => none, []⟩

def Search.discover (s : Search) (here : ℕ) : Search :=
  { s with
    discoveredOrder := Function.update s.discoveredOrder here s.discoveredCount
    discoveredCount := s.discoveredCount + 1
    visited := here :: s.visited }

def Search.finish (s : Search) (here : ℕ) : Search :=
  { s with finished := Function.update s.finished here true }

def Search.setParent (s : Search) (there here : ℕ) : Search :=
  { s with parent := Function.update s.parent there (some here) }

/-- The loop that logs the path from `there` to `now`: the lines `m_parent[now] -> now`. -/
def logPath (parent : ℕ → Option ℕ) (there : ℕ) : ℕ → ℕ → Except Stop (List (ℕ × ℕ))
  | 0, _ => .error .endless
  | fuel + 1, now =>
      match parent now with
      | none => .error .noParent
      | some next =>
          if next = there then .ok [(next, now)]
          else (logPath parent there fuel next).map ((next, now) :: ·)

/-- What `DFS` does with one adjacent node, given `DFS` itself. -/
def visit (lockCount : ℕ) (dfs : ℕ → Search → Except Stop Search) (here : ℕ) (s : Search)
    (there : ℕ) : Except Stop Search :=
  if s.discoveredOrder there = -1 then dfs there (s.setParent there here)
  else if s.discoveredOrder here < s.discoveredOrder there then .ok s
  else if s.finished there = false then
    (logPath s.parent there lockCount here).bind fun log =>
      .error (.deadlockDetected s here there log)
  else .ok s

/-- `DFS`, to a recursion depth of `fuel`. -/
def dfs (lockHistory : LockHistory) (lockCount : ℕ) : ℕ → ℕ → Search → Except Stop Search
  | 0, _, _ => .error .endless
  | fuel + 1, here, s =>
      if s.discoveredOrder here ≠ -1 then .ok s
      else
        match lockHistory here with
        | none => .ok ((s.discover here).finish here)
        | some nextSet =>
            (nextSet.foldlM (visit lockCount (dfs lockHistory lockCount fuel) here)
              (s.discover here)).map (·.finish here)

/-- `CheckCycle`, with the members as they are before they are cleared. -/
def checkCycle (lockHistory : LockHistory) (lockCount : ℕ) : Except Stop Search :=
  (List.range lockCount).foldlM
    (fun s lockId => dfs lockHistory lockCount (lockCount + 1) lockId s) .initial

/-! ## The calls -/

/-- The members of the profiler, the stacks of the threads with the top first, and why the process
ended.  `lockCount` is the size of `m_nameToId`. -/
structure State (T N : Type*) where
  nameToId : N → Option ℕ
  lockCount : ℕ
  idToName : ℕ → Option N
  lockHistory : LockHistory
  lockStack : T → List ℕ
  stop : Option Stop

section Model

variable {T N : Type*} [DecidableEq T] [DecidableEq N]

/-- The id of a name, a new one if the name is new. -/
def State.lockId (s : State T N) (name : N) : ℕ := (s.nameToId name).getD s.lockCount

/-- The maps once the name has its id. -/
def State.register (s : State T N) (name : N) : State T N :=
  match s.nameToId name with
  | some _ => s
  | none =>
      { s with
        nameToId := Function.update s.nameToId name (some s.lockCount)
        idToName := Function.update s.idToName s.lockCount (some name)
        lockCount := s.lockCount + 1 }

def State.push (s : State T N) (t : T) (lockId : ℕ) : State T N :=
  { s with lockStack := Function.update s.lockStack t (lockId :: s.lockStack t) }

def State.insertEdge (s : State T N) (prevId lockId : ℕ) : State T N :=
  let history := (s.lockHistory prevId).getD []
  { s with
    lockHistory :=
      Function.update s.lockHistory prevId (some (history.orderedInsert (· ≤ ·) lockId)) }

/-- `PushLock` after the id was found, for a thread whose top is `prevId`. -/
def State.pushOn (s : State T N) (t : T) (prevId lockId : ℕ) : State T N :=
  if lockId = prevId then s.push t lockId
  else if lockId ∈ (s.lockHistory prevId).getD [] then s.push t lockId
  else
    match checkCycle (s.insertEdge prevId lockId).lockHistory s.lockCount with
    | .ok _ => (s.insertEdge prevId lockId).push t lockId
    | .error stop => { s.insertEdge prevId lockId with stop := some stop }

/-- `PushLock`. -/
def pushLock (s : State T N) (t : T) (name : N) : State T N :=
  match s.lockStack t with
  | [] => (s.register name).push t (s.lockId name)
  | prevId :: _ => (s.register name).pushOn t prevId (s.lockId name)

/-- `m_nameToId[_name]` inserts 0 for an unknown name. -/
def State.lookup (s : State T N) (name : N) : State T N :=
  match s.nameToId name with
  | some _ => s
  | none =>
      { s with
        nameToId := Function.update s.nameToId name (some 0)
        lockCount := s.lockCount + 1 }

/-- `PopLock`. -/
def popLock (s : State T N) (t : T) (name : N) : State T N :=
  match s.lockStack t with
  | [] => { s with stop := some .multipleUnlock }
  | top :: rest =>
      if top ≠ (s.nameToId name).getD 0 then { s.lookup name with stop := some .invalidUnlock }
      else { s.lookup name with lockStack := Function.update s.lockStack t rest }

/-- A call. -/
inductive Op (N : Type*) where
  | pushLock (name : N)
  | popLock (name : N)
  deriving DecidableEq

/-- A call of thread `a.1`. -/
def step (s : State T N) (a : T × Op N) : Option (State T N) :=
  if s.stop.isSome then none
  else
    match a.2 with
    | .pushLock name => some (pushLock s a.1 name)
    | .popLock name => some (popLock s a.1 name)

/-- No lock was ever requested. -/
def State.initial : State T N :=
  ⟨fun _ => none, 0, fun _ => none, fun _ => none, fun _ => [], none⟩

/-- The threads that use the profiler. -/
def system (T N : Type*) [DecidableEq T] [DecidableEq N] :
    Transition.System (State T N) (T × Op N) := ⟨(· = .initial), step⟩

end Model

end DeadLockProfiler

end DhNet
