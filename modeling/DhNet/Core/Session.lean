import DhNet.Core.RecvBuffer
import DhNet.Lib.Framing

/-!
# Receiving on a session

`Session::ProcessRecv` cuts the received bytes into packets and hands each of them to the virtual
`OnRecv` of the derived session.  A derived session is given by its own state `σ` and its overrides
(`SessionClass`); `OnRecv` receives a pointer into the receive buffer, says whether it accepts the
packet, and may call `Disconnect` and do other visible things (`Action`).

The trace of a session records, in order, the packets handed to `OnRecv`, what `OnRecv` did, and
the calls of `Disconnect` that `ProcessRecv` makes itself.
-/

namespace DhNet

/-- `sizeof(PacketHeader)`. -/
def sizeofPacketHeader : ℕ := 4

namespace PacketHeader

/-- `m_packetNum`, a little-endian 16-bit number at offset 0. -/
def packetNum (p : Pointer) : ℕ := (p 0).toNat + 256 * (p 1).toNat

/-- `m_dataSize`, a little-endian 16-bit number at offset 2. -/
def dataSize (p : Pointer) : ℕ := (p 2).toNat + 256 * (p 3).toNat

end PacketHeader

/-- The argument of `Session::Disconnect`. -/
inductive DisconnectCause where
  | recv0
  | onWriteOverflow
  | invalidPacketSize
  | onReadError
  | onReadOverflow
  | send0
  | handleError
  | protocolViolation
  | invalidEncryptedSize
  | gcmVerifyFailed
  | keyGenFailed
  | ecdhFailed
  | keyDeriveFailed
  | pubKeyExportFailed
  | loginFailed
  deriving DecidableEq, Repr

/-- What an overlapped socket call reports. -/
inductive WsaResult where
  | success
  | pending
  | error (code : ℕ)
  deriving DecidableEq, Repr

def wsaEConnAborted : ℕ := 10053

def wsaEConnReset : ℕ := 10054

/-- A visible action of `OnRecv`: a call of `Disconnect` or something particular to the session. -/
inductive Action (ε : Type*) where
  | disconnect (cause : DisconnectCause)
  | other (event : ε)
  deriving DecidableEq, Repr

/-- An entry of the trace of a session. -/
inductive Event (ε : Type*) where
  | onRecv (packet : List UInt8)
  | action (action : Action ε)
  | disconnect (cause : DisconnectCause)
  deriving DecidableEq, Repr

/-- The outcome of one call of `OnRecv`. -/
structure Reply (σ ε : Type*) where
  result : Bool
  actions : List (Action ε)
  app : σ

/-- The overrides of a derived session.  The first argument of `onRecv` is `m_connected`. -/
structure SessionClass (σ ε : Type*) where
  onRecv : Bool → σ → Pointer → Reply σ ε
  onDisconnected : σ → σ

/-- The part of a session that `OnRecv` can change, with the trace. -/
structure Conn (σ ε : Type*) where
  connected : Bool
  app : σ
  trace : List (Event ε)

/-- A session: the receive buffer and whether a receive is outstanding. -/
structure Session (σ ε : Type*) extends Conn σ ε where
  recvBuffer : RecvBuffer
  recvPosted : Bool

section Model

variable {σ ε : Type*} (cls : SessionClass σ ε)

/-- The action is a call of `Disconnect`. -/
def Action.isDisconnect : Action ε → Bool
  | .disconnect _ => true
  | .other _ => false

/-- `Session::Disconnect`: only the first call runs `OnDisconnected`. -/
def Conn.disconnect (c : Conn σ ε) (cause : DisconnectCause) : Conn σ ε where
  connected := false
  app := if c.connected then cls.onDisconnected c.app else c.app
  trace := c.trace ++ [.disconnect cause]

/-- The call of `OnRecv` on the packet at `p`, with its result. -/
def Conn.onRecv (c : Conn σ ε) (p : Pointer) : Conn σ ε × Bool :=
  let reply := cls.onRecv c.connected c.app p
  ({ connected := c.connected && !reply.actions.any Action.isDisconnect
     app := reply.app
     trace := c.trace ++ .onRecv (p.bytes (PacketHeader.dataSize p)) ::
      reply.actions.map .action }, reply.result)

namespace Session

/-- `Session::Disconnect` on the whole session. -/
def disconnect (s : Session σ ε) (cause : DisconnectCause) : Session σ ε :=
  { s with toConn := s.toConn.disconnect cls cause }

/-- `Session::HandleError`. -/
def handleError (s : Session σ ε) (errorCode : ℕ) : Session σ ε :=
  if errorCode = wsaEConnReset ∨ errorCode = wsaEConnAborted then s.disconnect cls .handleError
  else s

/-- `Session::RegisterRecv`, with the result of `WSARecv`. -/
def registerRecv (s : Session σ ε) (result : WsaResult) : Session σ ε :=
  if s.connected then
    match result with
    | .success => { s with recvPosted := true }
    | .pending => { s with recvPosted := true }
    | .error code => s.handleError cls code
  else s

/-- The loop of `Session::ProcessRecv`, at most `fuel` turns of it; the result says whether the loop
was left by `break`. -/
def recvLoop : ℕ → Session σ ε → Session σ ε × Bool
  | 0, s => (s, true)
  | fuel + 1, s =>
      if s.recvBuffer.dataSize < sizeofPacketHeader then (s, true)
      else
        let packet := s.recvBuffer.readPointer
        if PacketHeader.dataSize packet < sizeofPacketHeader then
          (s.disconnect cls .invalidPacketSize, false)
        else if s.recvBuffer.dataSize < PacketHeader.dataSize packet then (s, true)
        else
          match s.toConn.onRecv cls packet with
          | (c, false) => ({ s with toConn := c }.disconnect cls .onReadError, false)
          | (c, true) =>
              match s.recvBuffer.onRead (PacketHeader.dataSize packet) with
              | none => ({ s with toConn := c }.disconnect cls .onReadOverflow, false)
              | some b => recvLoop fuel { s with toConn := c, recvBuffer := b }

/-- `Session::ProcessRecv`.  Every turn of the loop but the last reads at least one byte, so the
number of bytes bounds the turns. -/
def processRecv (s : Session σ ε) (numOfBytes : ℕ) (result : WsaResult) : Session σ ε :=
  let s := { s with recvPosted := false }
  if numOfBytes = 0 then s.disconnect cls .recv0
  else
    match s.recvBuffer.onWrite numOfBytes with
    | none => s.disconnect cls .onWriteOverflow
    | some b =>
        match recvLoop cls b.dataSize { s with recvBuffer := b } with
        | (s, false) => s
        | (s, true) => { s with recvBuffer := s.recvBuffer.clean }.registerRecv cls result

/-- The completion of the outstanding receive with the given bytes; without one there is nothing to
complete. -/
def receive (s : Session σ ε) (bytes : List UInt8) (result : WsaResult) : Session σ ε :=
  if s.recvPosted then
    { s with recvBuffer := s.recvBuffer.fill bytes }.processRecv cls bytes.length result
  else s

/-- Each completion has at least one byte and at most the `FreeSize` offered when its receive was
posted. -/
def Fits : Session σ ε → List (List UInt8) → Prop
  | _, [] => True
  | s, bytes :: chunks =>
      (s.recvPosted → bytes ≠ [] ∧ bytes.length ≤ s.recvBuffer.freeSize) ∧
        Fits (s.receive cls bytes .pending) chunks

/-- A session right after `ProcessConnect` with the given state. -/
def start (app : σ) : Session σ ε where
  connected := true
  app := app
  trace := []
  recvBuffer := .init 0x10000
  recvPosted := true

end Session

/-! ## What the trace says -/

/-- The packets handed to `OnRecv`. -/
def packets (trace : List (Event ε)) : List (List UInt8) :=
  trace.filterMap fun
    | .onRecv packet => some packet
    | _ => none

/-- The calls of `Disconnect` made by `ProcessRecv`. -/
def ownDisconnects (trace : List (Event ε)) : List DisconnectCause :=
  trace.filterMap fun
    | .disconnect cause => some cause
    | _ => none

/-- What the calls of `OnRecv` did. -/
def actions (trace : List (Event ε)) : List (Action ε) :=
  trace.filterMap fun
    | .action action => some action
    | _ => none

end Model

end DhNet
