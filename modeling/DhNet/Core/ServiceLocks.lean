import Mathlib.Logic.Function.Basic
import DhNet.Lib.RecursiveLock
import DhNet.Lib.System
import DhNet.Core.Session

/-!
# The locks of a service and its sessions

`Service::BroadCast` calls `Send` on every session under the lock of the service.  `Session::Send`
and `ProcessSend` call `RegisterSend` under the lock of their session, and a `WSASend` that finds
the connection reset leads from there through `HandleError` and `Disconnect` to
`Service::ReleaseSession`, which takes the lock of the service.

Any number of threads run these functions, and `ProcessConnect` with `AddSession`, on any number of
sessions.  A thread is its call stack, innermost activation first.  `OnConnected`, `OnSend` and
`OnDisconnected` may call `Send`, `Disconnect` and `BroadCast` any number of times, and so may code
outside of these functions, the packet handlers among it.  The locks are those of
`DhNet.Util.Lock`, which one thread holds at a time and may take again; a thread that finds a lock
held by another one waits.

What is sent does not matter here, so `senderQueue` is a number.  The loop of `BroadCast` goes
through the sessions that were in `m_sessions` when it began.
-/

namespace DhNet

namespace ServiceLocks

/-- The lock of the service or of a session. -/
inductive LockId (S : Type*) where
  | service
  | session (x : S)
  deriving DecidableEq, Repr

/-! ## Activations -/

/-- The point `ProcessConnect` has reached; `lock` to `unlock` are `AddSession`. -/
inductive ProcessConnectPc where
  | store
  | lock
  | insert
  | unlock
  | onConnected
  | registerRecv
  | leave
  deriving DecidableEq, Repr

/-- The point `BroadCast` has reached, with the sessions to which it has still to send. -/
inductive BroadCastPc (S : Type*) where
  | lock
  | loop (rest : List S)
  | unlock
  deriving DecidableEq, Repr

/-- The point `Send` has reached. -/
inductive SendPc where
  | lock
  | push
  | exchange
  | unlock
  deriving DecidableEq, Repr

/-- The point `ProcessSend` has reached. -/
inductive ProcessSendPc where
  | checkBytes
  | onSend
  | lock
  | test
  | unlock
  | leave
  deriving DecidableEq, Repr

/-- The point `RegisterSend` has reached; `handleError` is the call of `Disconnect` after a
`WSASend` that found the connection reset. -/
inductive RegisterSendPc where
  | isConnected
  | lock
  | move
  | unlock
  | wsaSend
  | handleError
  | store
  deriving DecidableEq, Repr

/-- The point `Disconnect` has reached; `lock` to `unlock` are `ReleaseSession`. -/
inductive DisconnectPc where
  | exchange
  | onDisconnected
  | lock
  | erase
  | unlock
  | registerDisconnect
  deriving DecidableEq, Repr

/-- An activation on the call stack of a thread. -/
inductive Frame (S : Type*) where
  | processConnect (x : S) (pc : ProcessConnectPc)
  | broadCast (pc : BroadCastPc S)
  | send (x : S) (pc : SendPc)
  | processSend (x : S) (numOfBytes : ℕ) (pc : ProcessSendPc)
  | registerSend (x : S) (pc : RegisterSendPc)
  | disconnect (x : S) (pc : DisconnectPc)
  deriving DecidableEq, Repr

/-- The lock that the activation takes next. -/
def Frame.wants {S : Type*} : Frame S → Option (LockId S)
  | .processConnect _ .lock => some .service
  | .broadCast .lock => some .service
  | .disconnect _ .lock => some .service
  | .send x .lock => some (.session x)
  | .processSend x _ .lock => some (.session x)
  | .registerSend x .lock => some (.session x)
  | _ => none

/-! ## The service and its sessions -/

/-- The members of a session. -/
structure Session where
  connected : Bool
  sendRegistered : Bool
  senderQueue : ℕ
  sendsOutstanding : ℕ
  deriving DecidableEq, Repr

/-- The sessions, `m_sessions`, the locks, the threads, and whether `ASSERT_CRASH` has failed. -/
structure State (S T : Type*) where
  session : S → Session
  sessions : List S
  lock : LockId S → RecursiveLock T
  stack : T → List (Frame S)
  crash : Bool

/-- What a thread does next: take up a completion, call a function, or go on with its innermost
activation, `result` being the outcome of the socket call if it makes one. -/
inductive Op (S : Type*) where
  | processConnect (x : S)
  | processSend (x : S) (numOfBytes : ℕ)
  | send (x : S)
  | disconnect (x : S)
  | broadCast
  | next (result : WsaResult)
  deriving DecidableEq, Repr

section Model

variable {S T : Type*} [DecidableEq S] [DecidableEq T]

def State.setStack (s : State S T) (t : T) (stack : List (Frame S)) : State S T :=
  { s with stack := Function.update s.stack t stack }

def State.setSession (s : State S T) (x : S) (session : Session) : State S T :=
  { s with session := Function.update s.session x session }

/-- The begin of a `WRITE_LOCK`; `none` while another thread holds the lock. -/
def State.acquire (s : State S T) (t : T) (l : LockId S) : Option (State S T) :=
  ((s.lock l).acquire t).map fun lock => { s with lock := Function.update s.lock l lock }

/-- The end of the scope of a `WRITE_LOCK`. -/
def State.release (s : State S T) (l : LockId S) : State S T :=
  { s with lock := Function.update s.lock l (s.lock l).release }

/-- The error codes for which `HandleError` disconnects. -/
def isFatal : WsaResult → Bool
  | .error code => code = wsaEConnReset ∨ code = wsaEConnAborted
  | _ => false

/-- The next step of the innermost activation, with the activations that take its place. -/
def stepFrame (s : State S T) (t : T) (result : WsaResult) :
    Frame S → Option (State S T × List (Frame S))
  | .processConnect x .store =>
      some (s.setSession x { s.session x with connected := true }, [.processConnect x .lock])
  | .processConnect x .lock => (s.acquire t .service).map fun s => (s, [.processConnect x .insert])
  | .processConnect x .insert =>
      some ({ s with sessions := s.sessions.insert x }, [.processConnect x .unlock])
  | .processConnect x .unlock => some (s.release .service, [.processConnect x .onConnected])
  | .processConnect x .onConnected => some (s, [.processConnect x .registerRecv])
  | .processConnect x .registerRecv =>
      if (s.session x).connected ∧ isFatal result then
        some (s, [.disconnect x .exchange, .processConnect x .leave])
      else some (s, [.processConnect x .leave])
  | .processConnect _ .leave => some (s, [])
  | .broadCast .lock =>
      (s.acquire t .service).map fun s' => (s', [.broadCast (.loop s.sessions)])
  | .broadCast (.loop (x :: rest)) => some (s, [.send x .lock, .broadCast (.loop rest)])
  | .broadCast (.loop []) => some (s, [.broadCast .unlock])
  | .broadCast .unlock => some (s.release .service, [])
  | .send x .lock => (s.acquire t (.session x)).map fun s => (s, [.send x .push])
  | .send x .push =>
      some (s.setSession x { s.session x with senderQueue := (s.session x).senderQueue + 1 },
        [.send x .exchange])
  | .send x .exchange =>
      if (s.session x).sendRegistered then some (s, [.send x .unlock])
      else
        some (s.setSession x { s.session x with sendRegistered := true },
          [.registerSend x .isConnected, .send x .unlock])
  | .send x .unlock => some (s.release (.session x), [])
  | .processSend x numOfBytes .checkBytes =>
      if numOfBytes = 0 then some (s, [.disconnect x .exchange, .processSend x numOfBytes .leave])
      else some (s, [.processSend x numOfBytes .onSend])
  | .processSend x numOfBytes .onSend => some (s, [.processSend x numOfBytes .lock])
  | .processSend x numOfBytes .lock =>
      (s.acquire t (.session x)).map fun s => (s, [.processSend x numOfBytes .test])
  | .processSend x numOfBytes .test =>
      if (s.session x).senderQueue = 0 then
        some (s.setSession x { s.session x with sendRegistered := false },
          [.processSend x numOfBytes .unlock])
      else some (s, [.registerSend x .isConnected, .processSend x numOfBytes .unlock])
  | .processSend x _ .unlock => some (s.release (.session x), [])
  | .processSend _ _ .leave => some (s, [])
  | .registerSend x .isConnected =>
      if (s.session x).connected then some (s, [.registerSend x .lock]) else some (s, [])
  | .registerSend x .lock => (s.acquire t (.session x)).map fun s => (s, [.registerSend x .move])
  | .registerSend x .move =>
      some (s.setSession x { s.session x with senderQueue := 0 }, [.registerSend x .unlock])
  | .registerSend x .unlock => some (s.release (.session x), [.registerSend x .wsaSend])
  | .registerSend x .wsaSend =>
      match result with
      | .success | .pending =>
          some (s.setSession x { s.session x with
            sendsOutstanding := (s.session x).sendsOutstanding + 1 }, [])
      | .error _ =>
          if isFatal result then some (s, [.disconnect x .exchange, .registerSend x .handleError])
          else some (s, [.registerSend x .store])
  | .registerSend x .handleError => some (s, [.registerSend x .store])
  | .registerSend x .store =>
      some (s.setSession x { s.session x with sendRegistered := false }, [])
  | .disconnect x .exchange =>
      if (s.session x).connected then
        some (s.setSession x { s.session x with connected := false },
          [.disconnect x .onDisconnected])
      else some (s, [])
  | .disconnect x .onDisconnected => some (s, [.disconnect x .lock])
  | .disconnect x .lock => (s.acquire t .service).map fun s => (s, [.disconnect x .erase])
  | .disconnect x .erase =>
      if x ∈ s.sessions then
        some ({ s with sessions := s.sessions.erase x }, [.disconnect x .unlock])
      else some ({ s with crash := true }, [.disconnect x .unlock])
  | .disconnect x .unlock => some (s.release .service, [.disconnect x .registerDisconnect])
  | .disconnect _ .registerDisconnect => some (s, [])

/-- `Send`, `Disconnect` and `BroadCast` are called by code outside these functions or by an
override. -/
def mayCall : List (Frame S) → Bool
  | [] => true
  | .processConnect _ .onConnected :: _ => true
  | .processSend _ _ .onSend :: _ => true
  | .disconnect _ .onDisconnected :: _ => true
  | _ => false

/-- The function that an operation calls, and whether it can be called. -/
def State.called (s : State S T) (t : T) : Op S → Option (Frame S)
  | .processConnect x => if s.stack t = [] then some (.processConnect x .store) else none
  | .processSend x numOfBytes =>
      if s.stack t = [] ∧ (s.session x).sendsOutstanding ≠ 0 then
        some (.processSend x numOfBytes .checkBytes)
      else none
  | .send x => if mayCall (s.stack t) then some (.send x .lock) else none
  | .disconnect x => if mayCall (s.stack t) then some (.disconnect x .exchange) else none
  | .broadCast => if mayCall (s.stack t) then some (.broadCast .lock) else none
  | .next _ => none

/-- The completion of a send was taken up. -/
def State.takeUp (s : State S T) : Op S → State S T
  | .processSend x _ => s.setSession x { s.session x with
      sendsOutstanding := (s.session x).sendsOutstanding - 1 }
  | _ => s

/-- One step of thread `a.1`; nothing happens after a crash. -/
def step (s : State S T) (a : T × Op S) : Option (State S T) :=
  if s.crash then none
  else
    match a.2 with
    | .next result =>
        match s.stack a.1 with
        | [] => none
        | f :: rest => (stepFrame s a.1 result f).map fun r => r.1.setStack a.1 (r.2 ++ rest)
    | op => (s.called a.1 op).map fun f => (s.takeUp op).setStack a.1 (f :: s.stack a.1)

/-- No session was connected. -/
def State.initial : State S T :=
  ⟨fun _ => ⟨false, false, 0, 0⟩, [], fun _ => .free, fun _ => [], false⟩

/-- The service, its sessions and the threads. -/
def system (S T : Type*) [DecidableEq S] [DecidableEq T] :
    Transition.System (State S T) (T × Op S) := ⟨(· = .initial), step⟩

/-! ## Waiting -/

/-- The thread holds the lock. -/
def State.Holds (s : State S T) (t : T) (l : LockId S) : Prop := 0 < (s.lock l).times t

/-- The thread is at the acquisition of a lock that another thread holds. -/
def State.Waits (s : State S T) (t : T) (l : LockId S) : Prop :=
  (∃ f rest, s.stack t = f :: rest ∧ f.wants = some l) ∧ ∃ t', t' ≠ t ∧ s.Holds t' l

/-- One thread holds the lock of the service and waits for that of a session, another one holds
this one and waits for the lock of the service. -/
def State.Deadlock (s : State S T) : Prop :=
  ∃ t t' x, t ≠ t' ∧ s.Holds t .service ∧ s.Waits t (.session x) ∧
    s.Holds t' (.session x) ∧ s.Waits t' .service

end Model

end ServiceLocks

end DhNet
