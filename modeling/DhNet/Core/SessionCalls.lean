import DhNet.Lib.SortedMap
import DhNet.Core.Session

/-!
# The functions of `Session` and `Service`, call by call

What the functions that connect, receive, send and disconnect do when a thread runs them without
interference, with the `m_owner` of the four events of a session, which keeps the session alive
while an operation is outstanding, and with `m_sessions`, a `std::set` in the order of the pointers.

* The outcome of each socket call is an argument (`SocketResults`).  A socket that is bound cannot
  be bound again.
* `OnConnected`, `OnRecv` and `OnSend` make any `Send` and `Disconnect` calls (`Request`); the bytes
  received do not matter here, so `ProcessRecv` is told how its loop ends.
* `trace` lists the calls by which a session shows.
-/

namespace DhNet

namespace SessionCalls

/-- The events that are members of a session. -/
inductive SessionEvent where
  | connect
  | disconnect
  | recv
  | send
  deriving DecidableEq, Repr

/-- The results of the socket calls that a function of a session makes. -/
structure SocketResults where
  setReuseAddress : Bool
  bindAnyAddress : Bool
  connectEx : WsaResult
  disconnectEx : WsaResult
  wsaRecv : WsaResult
  wsaSend : WsaResult

/-- All socket calls are accepted. -/
def SocketResults.accepted : SocketResults :=
  ⟨true, true, .pending, .pending, .pending, .pending⟩

/-- The members of a session, whether its socket is bound, and whether a `ConnectEx` of it is
outstanding. -/
structure Session (α : Type*) where
  connected : Bool
  owner : SessionEvent → Bool
  senderQueue : List α
  senders : List α
  sendRegistered : Bool
  bound : Bool
  connecting : Bool

/-- The calls by which a session shows: `Send`, the store to `m_connected` and what `ProcessConnect`
and `Disconnect` call after it. -/
inductive Call (S : Type*) where
  | send (x : S)
  | storeConnected (x : S)
  | addSession (x : S)
  | onConnected (x : S)
  | onDisconnected (x : S)
  | releaseSession (x : S)
  deriving DecidableEq, Repr

/-- What ends the process: a null event, a null `m_owner`, an iterator to an erased element, and a
failed `ASSERT_CRASH`. -/
inductive Fault where
  | nullEvent
  | nullOwner
  | erasedIterator
  | assertCrash
  deriving DecidableEq, Repr

/-- A service with its sessions, and the session that the listener waits with. -/
structure State (S α : Type*) [LinearOrder S] where
  isServerService : Bool
  sessions : SortedMap S Unit
  sessionCount : ℤ
  session : S → Session α
  acceptSession : Option S
  trace : List (Call S)
  fault : Option Fault

/-- A call that an override makes. -/
inductive Request (S α : Type*) where
  | send (x : S) (sender : α) (results : SocketResults)
  | disconnect (x : S) (results : SocketResults)

namespace State

variable {S α : Type*} [LinearOrder S] (s : State S α) (x : S) (results : SocketResults)

/-- A service that was started, with sessions that were created. -/
def initial (isServerService : Bool) (acceptSession : Option S) : State S α where
  isServerService := isServerService
  sessions := .empty
  sessionCount := 0
  session _ := ⟨false, fun _ => false, [], [], false, false, false⟩
  acceptSession := acceptSession
  trace := []
  fault := none

def modify (f : Session α → Session α) : State S α :=
  { s with session := Function.update s.session x (f (s.session x)) }

@[simp] theorem session_modify_self (f : Session α → Session α) :
    (s.modify x f).session x = f (s.session x) := Function.update_self ..

theorem session_modify_of_ne {y : S} (h : y ≠ x) (f : Session α → Session α) :
    (s.modify x f).session y = s.session y := Function.update_of_ne h ..

def setOwner (event : SessionEvent) (owned : Bool) : State S α :=
  s.modify x fun session => { session with owner := Function.update session.owner event owned }

def record (call : Call S) : State S α := { s with trace := s.trace ++ [call] }

/-- The process ends, unless it already has. -/
def fail (fault : Fault) : State S α := { s with fault := s.fault.or (some fault) }

/-! ## `Service` -/

/-- `Service::AddSession`. -/
def addSession : State S α :=
  { s.record (.addSession x) with
    sessionCount := s.sessionCount + 1
    sessions := s.sessions.insert x () }

/-- `Service::ReleaseSession`. -/
def releaseSession : State S α :=
  match s.sessions.find? x with
  | none => (s.record (.releaseSession x)).fail .assertCrash
  | some () =>
      { s.record (.releaseSession x) with
        sessions := s.sessions.erase x
        sessionCount := s.sessionCount - 1 }

/-! ## `Session` -/

/-- `RegisterConnect`, which `Connect` calls. -/
def connect : State S α :=
  if (s.session x).connected then s
  else if s.isServerService then s
  else if results.setReuseAddress = false then s
  else if (s.session x).bound ∨ results.bindAnyAddress = false then s
  else
    let s := (s.modify x fun session => { session with bound := true }).setOwner x .connect true
    match results.connectEx with
    | .success | .pending => s.modify x fun session => { session with connecting := true }
    | .error _ => s.setOwner x .connect false

/-- `RegisterDisconnect`. -/
def registerDisconnect : State S α :=
  match results.disconnectEx with
  | .success | .pending => s.setOwner x .disconnect true
  | .error _ => (s.setOwner x .disconnect true).setOwner x .disconnect false

/-- `Disconnect`. -/
def disconnect : State S α :=
  if (s.session x).connected then
    ((((s.modify x fun session => { session with connected := false }).record
      (.onDisconnected x)).releaseSession x).registerDisconnect x results)
  else s

/-- `HandleError`. -/
def handleError (errorCode : ℕ) : State S α :=
  if errorCode = wsaEConnReset ∨ errorCode = wsaEConnAborted then s.disconnect x results else s

/-- `RegisterRecv`. -/
def registerRecv : State S α :=
  if (s.session x).connected then
    match results.wsaRecv with
    | .success | .pending => s.setOwner x .recv true
    | .error code => ((s.setOwner x .recv true).handleError x results code).setOwner x .recv false
  else s

/-- `RegisterSend`. -/
def registerSend : State S α :=
  if (s.session x).connected then
    let s := (s.setOwner x .send true).modify x fun session =>
      { session with senderQueue := [], senders := session.senders ++ session.senderQueue }
    match results.wsaSend with
    | .success | .pending => s
    | .error code =>
        ((s.handleError x results code).setOwner x .send false).modify x fun session =>
          { session with senders := [], sendRegistered := false }
  else s

/-- `Send`. -/
def send (sender : α) : State S α :=
  let pushed := (s.record (.send x)).modify x fun session =>
    { session with senderQueue := session.senderQueue ++ [sender] }
  if (s.session x).sendRegistered then pushed
  else (pushed.modify x fun session => { session with sendRegistered := true }).registerSend x
    results

/-- A call that an override makes. -/
def request : Request S α → State S α
  | .send x sender results => s.send x results sender
  | .disconnect x results => s.disconnect x results

/-- The calls of an override, one after the other. -/
def override (requests : List (Request S α)) : State S α := requests.foldl request s

/-- `ProcessConnect`, with the calls that `OnConnected` makes. -/
def processConnect (requests : List (Request S α)) : State S α :=
  let stored := ((s.setOwner x .connect false).modify x fun session =>
    { session with connected := true }).record (.storeConnected x)
  ((((stored.addSession x).record (.onConnected x)).override requests).registerRecv x results)

/-- `ProcessDisconnect`. -/
def processDisconnect : State S α := s.setOwner x .disconnect false

/-- `ProcessRecv`, with the calls that `OnRecv` makes; `ok` says that the loop ends without a
`Disconnect`. -/
def processRecv (numOfBytes : ℕ) (requests : List (Request S α)) (ok : Bool) : State S α :=
  let released := s.setOwner x .recv false
  if numOfBytes = 0 then released.disconnect x results
  else if ok then (released.override requests).registerRecv x results
  else (released.override requests).disconnect x results

/-- `ProcessSend`, with the calls that `OnSend` makes. -/
def processSend (numOfBytes : ℕ) (requests : List (Request S α)) : State S α :=
  let released := (s.setOwner x .send false).modify x fun session => { session with senders := [] }
  if numOfBytes = 0 then released.disconnect x results
  else
    let sent := released.override requests
    if (sent.session x).senderQueue = [] then
      sent.modify x fun session => { session with sendRegistered := false }
    else sent.registerSend x results

end State

end SessionCalls

end DhNet
