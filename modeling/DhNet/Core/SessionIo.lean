import Mathlib.Logic.Function.Basic
import DhNet.Lib.System
import DhNet.Core.Session

/-!
# The input and output of a session on many threads

`Session::Send`, the completions `ProcessConnect`, `ProcessRecv` and `ProcessSend`, the functions
`RegisterRecv` and `RegisterSend` that post the next operation, and `Disconnect`, as any number of
threads run them on one session.  A thread is its call stack, innermost activation first; every
access to a member that other threads use is one step.

* The lock of the session is held by one thread at a time, which may take it again (`RegisterSend`
  does); what excludes the others is the subject of `DhNet.Util.LockProof`.
* `OnConnected`, `OnRecv`, `OnSend` and `OnDisconnected` may call `Send` and `Disconnect` any number
  of times.  How the loop of `ProcessRecv` ends is part of the action, since here nothing depends on
  the bytes.
* The outcome of each socket call is part of the action as well.

Left out are `m_owner` of the events, which only keeps the session object alive, the registration
with the service, and the call of `DisconnectEx`.
-/

namespace DhNet

namespace SessionIo

/-! ## Activations -/

/-- The point `ProcessConnect` has reached, behind the store to `m_connected`. -/
inductive ProcessConnectPc where
  | onConnected
  | leave
  deriving DecidableEq, Repr

/-- The point `ProcessRecv` has reached: the test of the number of bytes, the loop with its calls of
`OnRecv`, and its return after the last call. -/
inductive ProcessRecvPc where
  | checkBytes (numOfBytes : ℕ)
  | loop
  | leave
  deriving DecidableEq, Repr

/-- The point `ProcessSend` has reached. -/
inductive ProcessSendPc where
  | clear
  | checkBytes
  | onSend
  | lock
  | test
  | unlock
  | leave
  deriving DecidableEq, Repr

/-- The point `RegisterRecv` has reached. -/
inductive RegisterRecvPc where
  | isConnected
  | wsaRecv
  | leave
  deriving DecidableEq, Repr

/-- The point `RegisterSend` has reached; `clear` and `store` follow a failed `WSASend`. -/
inductive RegisterSendPc where
  | isConnected
  | lock
  | move
  | unlock
  | wsaSend
  | clear
  | store
  deriving DecidableEq, Repr

/-- The point `Send` has reached. -/
inductive SendPc where
  | lock
  | push
  | exchange
  | unlock
  deriving DecidableEq, Repr

/-- The point `Disconnect` has reached. -/
inductive DisconnectPc where
  | exchange
  | onDisconnected
  deriving DecidableEq, Repr

/-- An activation on the call stack of a thread. -/
inductive Frame (α : Type*) where
  | processConnect (pc : ProcessConnectPc)
  | processRecv (pc : ProcessRecvPc)
  | processSend (numOfBytes : ℕ) (pc : ProcessSendPc)
  | registerRecv (pc : RegisterRecvPc)
  | registerSend (pc : RegisterSendPc)
  | send (sender : α) (pc : SendPc)
  | disconnect (pc : DisconnectPc)
  deriving DecidableEq, Repr

/-! ## The session -/

/-- A session and the threads that work on it.  `lock` is the thread that holds the lock, with how
often it holds it.  `opened` says that `ProcessConnect` was called; `accepted` lists the senders in
the order in which their `Send` got the lock, and `wsaSends` the lists of senders passed to the
calls of `WSASend` that did not fail. -/
structure State (T α : Type*) where
  connected : Bool
  opened : Bool
  recvsOutstanding : ℕ
  sendsOutstanding : ℕ
  sendRegistered : Bool
  senderQueue : List α
  senders : List α
  lock : Option (T × ℕ)
  stack : T → List (Frame α)
  accepted : List α
  wsaSends : List (List α)

/-- What a thread does next: take up a completion, call `Send` or `Disconnect`, or go on with its
innermost activation, `result` being the outcome of the socket call if it makes one and `ok` saying
whether the loop of `ProcessRecv` ends without a `Disconnect`. -/
inductive Op (α : Type*) where
  | processConnect
  | processRecv (numOfBytes : ℕ)
  | processSend (numOfBytes : ℕ)
  | send (sender : α)
  | disconnect
  | next (result : WsaResult) (ok : Bool)
  deriving DecidableEq, Repr

section Model

variable {T α : Type*} [DecidableEq T]

/-- Replace the call stack of one thread. -/
def State.setStack (s : State T α) (t : T) (stack : List (Frame α)) : State T α :=
  { s with stack := Function.update s.stack t stack }

/-- `WRITE_LOCK`; `none` while another thread holds the lock. -/
def State.acquire (s : State T α) (t : T) : Option (State T α) :=
  match s.lock with
  | none => some { s with lock := some (t, 1) }
  | some (owner, depth) =>
      if owner = t then some { s with lock := some (t, depth + 1) } else none

/-- The end of the scope of a `WRITE_LOCK`. -/
def State.release (s : State T α) : State T α :=
  { s with
    lock := match s.lock with
      | some (owner, depth + 2) => some (owner, depth + 1)
      | _ => none }

/-- The loop of `RegisterSend` that moves the queue into `m_sendEvent.m_senders`. -/
def moveAll : List α → List α → List α × List α
  | [], senders => ([], senders)
  | sender :: queue, senders => moveAll queue (senders ++ [sender])

/-- The error codes for which `HandleError` disconnects. -/
def isFatal (errorCode : ℕ) : Bool := errorCode = wsaEConnReset ∨ errorCode = wsaEConnAborted

/-- `HandleError`: the call of `Disconnect` it makes, if any. -/
def handleError (errorCode : ℕ) : List (Frame α) :=
  if isFatal errorCode then [.disconnect .exchange] else []

/-- The next step of the innermost activation, with the activations that take its place. -/
def stepFrame (s : State T α) (t : T) (result : WsaResult) (ok : Bool) :
    Frame α → Option (State T α × List (Frame α))
  | .processConnect .onConnected => some (s, [.registerRecv .isConnected, .processConnect .leave])
  | .processConnect .leave => some (s, [])
  | .processRecv (.checkBytes numOfBytes) =>
      if numOfBytes = 0 then some (s, [.disconnect .exchange, .processRecv .leave])
      else some (s, [.processRecv .loop])
  | .processRecv .loop =>
      if ok then some (s, [.registerRecv .isConnected, .processRecv .leave])
      else some (s, [.disconnect .exchange, .processRecv .leave])
  | .processRecv .leave => some (s, [])
  | .processSend numOfBytes .clear =>
      some ({ s with senders := [] }, [.processSend numOfBytes .checkBytes])
  | .processSend numOfBytes .checkBytes =>
      if numOfBytes = 0 then some (s, [.disconnect .exchange, .processSend numOfBytes .leave])
      else some (s, [.processSend numOfBytes .onSend])
  | .processSend numOfBytes .onSend => some (s, [.processSend numOfBytes .lock])
  | .processSend numOfBytes .lock =>
      (s.acquire t).map fun s => (s, [.processSend numOfBytes .test])
  | .processSend numOfBytes .test =>
      if s.senderQueue = [] then
        some ({ s with sendRegistered := false }, [.processSend numOfBytes .unlock])
      else some (s, [.registerSend .isConnected, .processSend numOfBytes .unlock])
  | .processSend _ .unlock => some (s.release, [])
  | .processSend _ .leave => some (s, [])
  | .registerRecv .isConnected =>
      if s.connected then some (s, [.registerRecv .wsaRecv]) else some (s, [])
  | .registerRecv .wsaRecv =>
      match result with
      | .success | .pending => some ({ s with recvsOutstanding := s.recvsOutstanding + 1 }, [])
      | .error code => some (s, handleError code ++ [.registerRecv .leave])
  | .registerRecv .leave => some (s, [])
  | .registerSend .isConnected =>
      if s.connected then some (s, [.registerSend .lock]) else some (s, [])
  | .registerSend .lock => (s.acquire t).map fun s => (s, [.registerSend .move])
  | .registerSend .move =>
      some ({ s with
        senderQueue := (moveAll s.senderQueue s.senders).1
        senders := (moveAll s.senderQueue s.senders).2 }, [.registerSend .unlock])
  | .registerSend .unlock => some (s.release, [.registerSend .wsaSend])
  | .registerSend .wsaSend =>
      match result with
      | .success | .pending =>
          some ({ s with
            sendsOutstanding := s.sendsOutstanding + 1
            wsaSends := s.wsaSends ++ [s.senders] }, [])
      | .error code => some (s, handleError code ++ [.registerSend .clear])
  | .registerSend .clear => some ({ s with senders := [] }, [.registerSend .store])
  | .registerSend .store => some ({ s with sendRegistered := false }, [])
  | .send sender .lock =>
      (s.acquire t).map fun s =>
        ({ s with accepted := s.accepted ++ [sender] }, [.send sender .push])
  | .send sender .push =>
      some ({ s with senderQueue := s.senderQueue ++ [sender] }, [.send sender .exchange])
  | .send sender .exchange =>
      if s.sendRegistered then some (s, [.send sender .unlock])
      else
        some ({ s with sendRegistered := true },
          [.registerSend .isConnected, .send sender .unlock])
  | .send _ .unlock => some (s.release, [])
  | .disconnect .exchange =>
      if s.connected then some ({ s with connected := false }, [.disconnect .onDisconnected])
      else some (s, [])
  | .disconnect .onDisconnected => some (s, [])

/-- `Send` and `Disconnect` are called by code outside the session or by one of its overrides. -/
def mayCall : List (Frame α) → Bool
  | [] => true
  | .processConnect .onConnected :: _ => true
  | .processRecv .loop :: _ => true
  | .processSend _ .onSend :: _ => true
  | .disconnect .onDisconnected :: _ => true
  | _ => false

/-- One step of thread `a.1`; `none` when the operation is not possible there.  `ProcessConnect` is
called once. -/
def step (s : State T α) (a : T × Op α) : Option (State T α) :=
  match a.2, s.stack a.1 with
  | .processConnect, [] =>
      if s.opened then none
      else some ({ s with connected := true, opened := true }.setStack a.1
        [.processConnect .onConnected])
  | .processRecv numOfBytes, [] =>
      if s.recvsOutstanding = 0 then none
      else some ({ s with recvsOutstanding := s.recvsOutstanding - 1 }.setStack a.1
        [.processRecv (.checkBytes numOfBytes)])
  | .processSend numOfBytes, [] =>
      if s.sendsOutstanding = 0 then none
      else some ({ s with sendsOutstanding := s.sendsOutstanding - 1 }.setStack a.1
        [.processSend numOfBytes .clear])
  | .send sender, stack =>
      if mayCall stack then some (s.setStack a.1 (.send sender .lock :: stack)) else none
  | .disconnect, stack =>
      if mayCall stack then some (s.setStack a.1 (.disconnect .exchange :: stack)) else none
  | .next result ok, frame :: rest =>
      (stepFrame s a.1 result ok frame).map fun r => r.1.setStack a.1 (r.2 ++ rest)
  | _, _ => none

/-- What one step can be. -/
inductive Step (s : State T α) (t : T) : Op α → State T α → Prop
  | processConnect (empty : s.stack t = []) (opened : s.opened = false) :
      Step s t .processConnect
        ({ s with connected := true, opened := true }.setStack t [.processConnect .onConnected])
  | processRecv {numOfBytes : ℕ} (empty : s.stack t = [])
      (outstanding : s.recvsOutstanding ≠ 0) :
      Step s t (.processRecv numOfBytes)
        ({ s with recvsOutstanding := s.recvsOutstanding - 1 }.setStack t
          [.processRecv (.checkBytes numOfBytes)])
  | processSend {numOfBytes : ℕ} (empty : s.stack t = [])
      (outstanding : s.sendsOutstanding ≠ 0) :
      Step s t (.processSend numOfBytes)
        ({ s with sendsOutstanding := s.sendsOutstanding - 1 }.setStack t
          [.processSend numOfBytes .clear])
  | send {sender : α} (may : mayCall (s.stack t) = true) :
      Step s t (.send sender) (s.setStack t (.send sender .lock :: s.stack t))
  | disconnect (may : mayCall (s.stack t) = true) :
      Step s t .disconnect (s.setStack t (.disconnect .exchange :: s.stack t))
  | next {result : WsaResult} {ok : Bool} {f : Frame α} {rest : List (Frame α)}
      {r : State T α × List (Frame α)} (stack : s.stack t = f :: rest)
      (step : stepFrame s t result ok f = some r) :
      Step s t (.next result ok) (r.1.setStack t (r.2 ++ rest))

theorem step_cases {s s' : State T α} {a : T × Op α} (h : step s a = some s') :
    Step s a.1 a.2 s' := by
  obtain ⟨t, op⟩ := a
  unfold step at h
  rcases hstack : s.stack t with _ | ⟨f, rest⟩
  · cases op with
    | next result ok => simp [hstack] at h
    | send sender =>
      simp only at h
      split_ifs at h with hmay
      obtain rfl := Option.some.inj h
      exact .send hmay
    | disconnect =>
      simp only at h
      split_ifs at h with hmay
      obtain rfl := Option.some.inj h
      exact .disconnect hmay
    | processConnect =>
      simp only [hstack] at h
      split_ifs at h with hopened
      obtain rfl := Option.some.inj h
      exact .processConnect hstack (Bool.eq_false_of_not_eq_true hopened)
    | processRecv numOfBytes =>
      simp only [hstack] at h
      split_ifs at h with hout
      obtain rfl := Option.some.inj h
      exact .processRecv hstack hout
    | processSend numOfBytes =>
      simp only [hstack] at h
      split_ifs at h with hout
      obtain rfl := Option.some.inj h
      exact .processSend hstack hout
  · cases op with
    | next result ok =>
      simp only [hstack] at h
      obtain ⟨r, hr, rfl⟩ := Option.map_eq_some_iff.1 h
      exact .next hstack hr
    | send sender =>
      simp only at h
      split_ifs at h with hmay
      obtain rfl := Option.some.inj h
      exact .send hmay
    | disconnect =>
      simp only at h
      split_ifs at h with hmay
      obtain rfl := Option.some.inj h
      exact .disconnect hmay
    | _ => simp [hstack] at h

/-- A new session. -/
def State.initial : State T α where
  connected := false
  opened := false
  recvsOutstanding := 0
  sendsOutstanding := 0
  sendRegistered := false
  senderQueue := []
  senders := []
  lock := none
  stack _ := []
  accepted := []
  wsaSends := []

/-- A session with its threads as a transition system. -/
def system (T α : Type*) [DecidableEq T] : Transition.System (State T α) (T × Op α) where
  init s := s = .initial
  step := step

end Model

end SessionIo

end DhNet
