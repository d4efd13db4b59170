import Mathlib.Data.Finset.Basic
import Mathlib.Logic.Function.Basic
import DhNet.Lib.System

/-!
# Sessions and their service

`ProcessConnect` registers a session with its service and `Disconnect` takes it out again.  Any
number of threads call `Disconnect` on any number of sessions: the threads that receive and send,
the handlers, the result of a login, the administration, and `OnConnected` or `OnDisconnected`
themselves.  A thread is its call stack, innermost activation first.

`AddSession` and `ReleaseSession` run under the lock of the service and are one step each, and so is
the exchange of `m_connected`.  Sending and receiving is the subject of `DhNet.Core.SessionIo`.
-/

namespace DhNet

namespace Service

/-- The point `ProcessConnect` has reached. -/
inductive ConnectPc where
  | store
  | addSession
  | onConnected
  | registerRecv
  deriving DecidableEq, Repr

/-- The point `Disconnect` has reached. -/
inductive DisconnectPc where
  | exchange
  | callOnDisconnected
  | onDisconnected
  | releaseSession
  | registerDisconnect
  deriving DecidableEq, Repr

/-- An activation on the call stack of a thread. -/
inductive Frame (S : Type*) where
  | processConnect (session : S) (pc : ConnectPc)
  | disconnect (session : S) (pc : DisconnectPc)
  deriving DecidableEq, Repr

/-- `m_connected` of a session, and how often things have happened to it: calls of
`ProcessConnect`, stores to `m_connected`, calls of `AddSession`, calls of `Disconnect` that took
effect, calls of `OnDisconnected`, and calls of `ReleaseSession`. -/
structure Session where
  connected : Bool
  processConnects : ℕ
  stores : ℕ
  adds : ℕ
  disconnects : ℕ
  onDisconnecteds : ℕ
  releases : ℕ

/-- The service with its sessions and the threads. -/
structure State (S T : Type*) where
  sessions : Finset S
  sessionCount : ℤ
  session : S → Session
  stack : T → List (Frame S)
  crash : Bool

/-- What a thread does next: begin a call, or go on with its innermost activation. -/
inductive Op (S : Type*) where
  | processConnect (session : S)
  | disconnect (session : S)
  | next
  deriving DecidableEq

section Model

variable {S T : Type*} [DecidableEq S] [DecidableEq T]

def State.setStack (s : State S T) (t : T) (stack : List (Frame S)) : State S T :=
  { s with stack := Function.update s.stack t stack }

def State.setSession (s : State S T) (x : S) (session : Session) : State S T :=
  { s with session := Function.update s.session x session }

/-- `Service::AddSession`. -/
def State.addSession (s : State S T) (x : S) : State S T :=
  { s with sessionCount := s.sessionCount + 1, sessions := insert x s.sessions }

/-- `Service::ReleaseSession`. -/
def State.releaseSession (s : State S T) (x : S) : State S T :=
  if x ∈ s.sessions then
    { s with sessions := s.sessions.erase x, sessionCount := s.sessionCount - 1 }
  else { s with crash := true }

/-- The next step of the innermost activation, with the activations that take its place. -/
def stepFrame (s : State S T) : Frame S → State S T × List (Frame S)
  | .processConnect x .store =>
      (s.setSession x { s.session x with connected := true, stores := (s.session x).stores + 1 },
        [.processConnect x .addSession])
  | .processConnect x .addSession =>
      ((s.addSession x).setSession x { s.session x with adds := (s.session x).adds + 1 },
        [.processConnect x .onConnected])
  | .processConnect x .onConnected => (s, [.processConnect x .registerRecv])
  | .processConnect _ .registerRecv => (s, [])
  | .disconnect x .exchange =>
      if (s.session x).connected then
        (s.setSession x { s.session x with
          connected := false
          disconnects := (s.session x).disconnects + 1 }, [.disconnect x .callOnDisconnected])
      else (s, [])
  | .disconnect x .callOnDisconnected =>
      (s.setSession x { s.session x with onDisconnecteds := (s.session x).onDisconnecteds + 1 },
        [.disconnect x .onDisconnected])
  | .disconnect x .onDisconnected => (s, [.disconnect x .releaseSession])
  | .disconnect x .releaseSession =>
      ((s.releaseSession x).setSession x
        { s.session x with releases := (s.session x).releases + 1 },
        [.disconnect x .registerDisconnect])
  | .disconnect _ .registerDisconnect => (s, [])

/-- `Disconnect` is called by code outside the modelled functions, by an override, and by
`RegisterRecv`. -/
def mayDisconnect : List (Frame S) → Bool
  | [] => true
  | .processConnect _ .onConnected :: _ => true
  | .processConnect _ .registerRecv :: _ => true
  | .disconnect _ .onDisconnected :: _ => true
  | _ => false

/-- One step of thread `a.1`; nothing happens after a crash. -/
def step (s : State S T) (a : T × Op S) : Option (State S T) :=
  if s.crash then none
  else
    match a.2, s.stack a.1 with
    | .processConnect x, [] =>
        some ((s.setSession x { s.session x with
          processConnects := (s.session x).processConnects + 1 }).setStack a.1
            [.processConnect x .store])
    | .disconnect x, stack =>
        if mayDisconnect stack then some (s.setStack a.1 (.disconnect x .exchange :: stack))
        else none
    | .next, f :: rest => some ((stepFrame s f).1.setStack a.1 ((stepFrame s f).2 ++ rest))
    | _, _ => none

/-- No session was connected. -/
def State.initial : State S T :=
  ⟨∅, 0, fun _ => ⟨false, 0, 0, 0, 0, 0, 0⟩, fun _ => [], false⟩

/-- A service with its sessions. -/
def system (S T : Type*) [DecidableEq S] [DecidableEq T] :
    Transition.System (State S T) (T × Op S) := ⟨(· = .initial), step⟩

/-- `ProcessConnect` is called once for each session, and nobody but its caller reaches the session
before `AddSession`. -/
def Introduced (s : State S T) (a : T × Op S) : Prop :=
  match a.2 with
  | .processConnect x => (s.session x).processConnects = 0
  | .disconnect x => 0 < (s.session x).adds
  | .next => True

instance (s : State S T) : ∀ a, Decidable (Introduced s a)
  | (_, .processConnect x) => inferInstanceAs (Decidable ((s.session x).processConnects = 0))
  | (_, .disconnect x) => inferInstanceAs (Decidable (0 < (s.session x).adds))
  | (_, .next) => inferInstanceAs (Decidable True)

end Model

end Service

end DhNet
