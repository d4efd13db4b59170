import DhNet.Lib.System
import DhNet.Core.SendPath
import DhNet.Client.ServerSession

/-!
# The connection of a client with the server

A `GameSession` and a `ServerSession` connected by TCP, which delivers the bytes of each direction
in order and cut at will.  Each side has a thread that receives (`ProcessRecv`, and for the client
`OnConnected` before) and other threads that call `Send`.

What the receiving thread does to the encryption state is one step for a completion.  The frames
that it sends on the way are handed to `Session::Send` afterwards, one by one (`pending`), so other
threads may send in between: `m_handshakeDone` is set before the answer to the key exchange is
handed to `Session::Send`.
-/

namespace DhNet

/-- A frame handed to `Session::Send`, with the packet that it carries encrypted. -/
abbrev SentFrame := Option (List UInt8) × List UInt8

/-- The frames that a method hands to `Session::Send`. -/
def sends {ω : Type*} (actions : List (Action (SecureEvent ω))) : List SentFrame :=
  actions.filterMap fun
    | .other (.send packet frame) => some (packet, frame)
    | _ => none

/-- The packets with which `PacketHandler::Process` is called. -/
def processed {ω : Type*} (actions : List (Action (SecureEvent ω))) : List (List UInt8) :=
  actions.filterMap fun
    | .other (.process _ packet) => some packet
    | _ => none

/-- A packet whose `m_dataSize` is its length, in 4..1280. -/
def IsPacket (packet : List UInt8) : Prop :=
  sizeofPacketHeader ≤ packet.length ∧ packet.length ≤ maxPlainPacketSize ∧
    PacketHeader.dataSize (.ofList packet) = packet.length

instance (packet : List UInt8) : Decidable (IsPacket packet) := inferInstanceAs (Decidable (_ ∧ _))

/-- One side of a connection: its session, the frames that the receiving thread has still to hand to
`Session::Send`, its send path, and the packets passed to `Send` since `m_handshakeDone` is set,
those of the receiving thread when it hands them over. -/
structure Peer (K π ω : Type*) where
  session : Session (SecureState K π) (SecureEvent ω)
  pending : List SentFrame
  path : SendPath SentFrame
  passed : List (List UInt8)

/-- What is fixed for one side: its environment, its packet handlers and its session class. -/
structure Party (K π ω : Type*) where
  env : SecureEnv K
  handlers : Handlers π ω
  cls : SessionClass (SecureState K π) (SecureEvent ω)

namespace Peer

variable {K π ω : Type*} (party : Party K π ω)

/-- A completion of a receive. -/
def receive (peer : Peer K π ω) (bytes : List UInt8) : Peer K π ω :=
  let session := peer.session.receive party.cls bytes .pending
  { peer with
    session := session
    pending := sends (actions (session.trace.drop peer.session.trace.length)) }

/-- The receiving thread hands its next frame to `Session::Send`. -/
def push (peer : Peer K π ω) : Option (Peer K π ω) :=
  match peer.pending with
  | [] => none
  | sender :: pending =>
      some { peer with
        pending := pending
        path := peer.path.send Prod.snd peer.session.connected sender
        passed := peer.passed ++ sender.1.toList }

/-- Another thread passes a packet to `Send`. -/
def send (peer : Peer K π ω) (packet : List UInt8) : Peer K π ω :=
  let a := Activity.send party.env party.handlers ⟨peer.session.connected, peer.session.app, []⟩
    (.ofList packet)
  { peer with
    session := { peer.session with
      connected := a.connected
      app := a.state
      trace := peer.session.trace ++ a.actions.map .action }
    path := (sends a.actions).foldl
      (fun path sender => path.send Prod.snd peer.session.connected sender) peer.path
    passed := peer.passed ++ [packet] }

/-- The completion of the outstanding `WSASend`. -/
def processSend (peer : Peer K π ω) : Peer K π ω :=
  { peer with path := peer.path.processSend Prod.snd peer.session.connected }

/-- The bytes at the front of the wire have arrived. -/
def arrived (peer : Peer K π ω) (n : ℕ) : Peer K π ω :=
  { peer with path := { peer.path with wire := peer.path.wire.drop n } }

/-- A receive may complete with the next `n` bytes of the wire. -/
def Receives (peer : Peer K π ω) (wire : List UInt8) (n : ℕ) : Prop :=
  peer.pending = [] ∧ peer.session.recvPosted = true ∧ 0 < n ∧ n ≤ wire.length ∧
    n ≤ peer.session.recvBuffer.freeSize

instance (peer : Peer K π ω) (wire : List UInt8) (n : ℕ) : Decidable (peer.Receives wire n) :=
  inferInstanceAs (Decidable (_ ∧ _))

end Peer

namespace Channel

/-- The two sides. -/
inductive Side where
  | server
  | client
  deriving DecidableEq, Repr

/-- What can happen on a connection: a receive of a side completes with `n` bytes, its receiving
thread hands a frame to `Session::Send`, another thread passes a packet to `Send`, and a send
completes. -/
inductive Op where
  | receive (side : Side) (n : ℕ)
  | push (side : Side)
  | send (side : Side) (packet : List UInt8)
  | processSend (side : Side)
  deriving DecidableEq, Repr

/-- The two peers. -/
structure State (K π ω π' ω' : Type*) where
  server : Peer K π ω
  client : Peer K π' ω'

variable {K π ω π' ω' : Type*}

/-- A `GameSession`. -/
def serverParty (env : SecureEnv K) (handlers : Handlers π ω) : Party K π ω :=
  ⟨env, handlers, GameSession.cls env handlers⟩

/-- A `ServerSession`; `chunk` is what its login packet is written over. -/
def clientParty (env : SecureEnv K) (handlers : Handlers π' ω') (chunk : Pointer) :
    Party K π' ω' :=
  ⟨env, handlers, ServerSession.cls env handlers chunk⟩

/-- The server's session after `ProcessConnect`. -/
def serverStart (app : π) : Peer K π ω := ⟨.start (GameSession.fresh app), [], .fresh, []⟩

/-- The client's session after `ProcessConnect`, which runs `OnConnected`. -/
def clientStart (env : SecureEnv K) (handlers : Handlers π' ω') (app : π') : Peer K π' ω' :=
  let a := ServerSession.onConnected env handlers ⟨true, ServerSession.fresh app, []⟩
  { session :=
      { connected := a.connected
        app := a.state
        trace := a.actions.map .action
        recvBuffer := .init 0x10000
        recvPosted := a.connected }
    pending := sends a.actions
    path := .fresh
    passed := [] }

section System

variable (server : Party K π ω) (client : Party K π' ω')

/-- One step.  Packets are passed to `Send` when `m_handshakeDone` is set. -/
def step (s : State K π ω π' ω') : Op → Option (State K π ω π' ω')
  | .receive .server n =>
      if s.server.Receives s.client.path.wire n then
        some ⟨s.server.receive server (s.client.path.wire.take n), s.client.arrived n⟩
      else none
  | .receive .client n =>
      if s.client.Receives s.server.path.wire n then
        some ⟨s.server.arrived n, s.client.receive client (s.server.path.wire.take n)⟩
      else none
  | .push .server => s.server.push.map fun peer => ⟨peer, s.client⟩
  | .push .client => s.client.push.map fun peer => ⟨s.server, peer⟩
  | .send .server packet =>
      if s.server.session.app.handshakeDone then some ⟨s.server.send server packet, s.client⟩
      else none
  | .send .client packet =>
      if s.client.session.app.handshakeDone then some ⟨s.server, s.client.send client packet⟩
      else none
  | .processSend .server =>
      if s.server.path.senders = [] then none else some ⟨s.server.processSend, s.client⟩
  | .processSend .client =>
      if s.client.path.senders = [] then none else some ⟨s.server, s.client.processSend⟩

end System

/-- A connection between the server and a client. -/
def system (serverEnv clientEnv : SecureEnv K) (serverHandlers : Handlers π ω)
    (clientHandlers : Handlers π' ω') (chunk : Pointer) (app : π) (app' : π') :
    Transition.System (State K π ω π' ω') Op where
  init s := s = ⟨serverStart app, clientStart clientEnv clientHandlers app'⟩
  step := step (serverParty serverEnv serverHandlers) (clientParty clientEnv clientHandlers chunk)

end Channel

end DhNet
