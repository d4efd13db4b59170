import Mathlib.Logic.Function.Basic
import DhNet.Lib.System
import DhNet.Game.PacketHandlers

/-!
# A `GameSession` and those who send on it

`GameSession::Send` chooses between plaintext and ciphertext by a load of `m_handshakeDone`, without
a lock.  Here the methods of one session are cut into their accesses to its members, so that the
threads interleave between any two of them.

* The receiving thread: `ProcessRecv` hands it packet after packet, `OnRecv` makes the key exchange
  or decrypts and calls a packet handler.  One receive at most is outstanding, so there is one such
  thread at a time.
* The results of logins: each authentication that a handler submits to `DbSystem` ends in one call
  of `OnLoginResult`, on any thread.
* Everyone else reaches the session through its `Player`: the jobs of the lobbies and rooms, those
  of the administration's broadcasts among them.  They may send any packet at any time once
  `OnLoginResult` has made the player.

The server does not call `GameSessionSystem::Broadcast` or `Service::BroadCast`.  `Disconnect` is
one step, and how the queued frames get to the socket is the subject of `DhNet.Core.SessionIo`.
-/

namespace DhNet

namespace SessionSenders

/-! ## Packets -/

/-- A `uint64` in little-endian order. -/
def uint64Bytes (n : ℕ) : List UInt8 := int32Bytes n ++ int32Bytes (n / 0x100000000)

/-- `sizeof(ResLogin)`. -/
def sizeofResLogin : ℕ := sizeofPacketHeader + 8 + playerNameSize

/-- `ResLogin`, written over the chunk allocated for it. -/
def resLogin (playerId : ℕ) (name : List UInt8) (chunk : Pointer) : Pointer :=
  .overlay (PacketHeader.init .resLogin sizeofResLogin ++ uint64Bytes playerId ++
    fieldChars name playerNameSize ++ [0]) (Function.update chunk (sizeofResLogin - 1) 0)

/-! ## Program counters -/

/-- The point a call of `GameSession::Send` has reached; `encrypt` is `SendEncrypted`. -/
inductive SendPc where
  | load (sender : Pointer)
  | encrypt (sender : Pointer)
  | sessionSend (frame : List UInt8)

/-- The point `HandleKeyExchange` has reached. -/
inductive KeyExchangePc where
  | generateKeyPair (clientPubKey : List UInt8)
  | deriveSharedSecret (clientPubKey : List UInt8)
  | deriveSessionKey (secret : List UInt8)
  | getSenderAndPacket (sessionKey : List UInt8)
  | getPublicKeyBytes (sessionKey : List UInt8)
  | freeKey (sessionKey serverPubKey : List UInt8)
  | makeCipher (sessionKey serverPubKey : List UInt8)
  | init (sessionKey serverPubKey : List UInt8)
  | store (serverPubKey : List UInt8)
  | sessionSend (frame : List UInt8)

/-- The point the receiving thread has reached: `loop` is `ProcessRecv` between two packets, and
`effects` is what the packet handler that was called has still to do. -/
inductive RecvPc where
  | idle
  | loop
  | onRecv (packet : Pointer)
  | keyExchange (pc : KeyExchangePc)
  | decrypt (packet : Pointer)
  | process (inner : Pointer)
  | handler (effects : List (Effect Output)) (result : Bool)
  | send (pc : SendPc) (effects : List (Effect Output)) (result : Bool)

/-- What another thread is doing for the session: `OnLoginResult`, or a `Send` of a job. -/
inductive TaskPc where
  | idle
  | exchange (ok : Bool) (accountId : ℕ) (name : List UInt8)
  | isConnected (ok : Bool) (accountId : ℕ) (name : List UInt8)
  | sendLoginFailed (pc : SendPc)
  | disconnect
  | makePlayer (accountId : ℕ) (name : List UInt8)
  | setPlayer (accountId : ℕ) (name : List UInt8)
  | add (accountId : ℕ) (name : List UInt8)
  | sendLogin (pc : SendPc)
  | jobSend (pc : SendPc)

/-- The members of a `GameSession`, whether its player was made, the authentications without a
result, the frames put into the queue of `Session::Send`, the threads, and two ways to crash: the
use of a null `m_cipher` and a failed allocation. -/
structure State (K T : Type*) where
  connected : Bool
  handshakeDone : Bool
  cipher : Option (List UInt8)
  myPrivKey : Option K
  loginProcessed : Bool
  hasPlayer : Bool
  playerMade : Bool
  authentications : ℕ
  sent : List (List UInt8)
  recv : RecvPc
  task : T → TaskPc
  nullCipher : Bool
  allocFailed : Bool

/-- What the environment decides at an access: the key pair generated, whether `SendPool` has a
chunk, what the memory of a new `AesGcm` and of `plainBuf` holds, the nonce, whether a send finds
the connection reset, and the server as the packet handlers see it. -/
structure Choice (K : Type*) where
  keyPair : Option K
  alloc : Bool
  memory : List UInt8
  stack : Pointer
  nonce : List UInt8
  reset : Bool
  view : ServerView

/-- What can happen: a receive completes, `ProcessRecv` finds a packet or posts the next receive,
the receiving thread makes an access; `OnLoginResult` begins on a thread, a job on a thread calls
`Send`, a thread makes an access; or `Disconnect` is called by something else. -/
inductive Op (K T : Type*) where
  | receive
  | packet (packet : Pointer)
  | registerRecv
  | recv (choice : Choice K)
  | loginResult (t : T) (ok : Bool) (accountId : ℕ) (name : List UInt8)
  | jobSend (t : T) (sender : Pointer)
  | task (t : T) (choice : Choice K)
  | disconnect

section Model

variable {K T : Type*} [DecidableEq T] (ssl : OpenSsl K) (limit : ℕ)

/-- `Disconnect`; `OnDisconnected` resets `m_player`. -/
def State.disconnect (s : State K T) : State K T :=
  { s with connected := false, hasPlayer := s.hasPlayer && !s.connected }

/-- `Session::Send`. -/
def State.sessionSend (s : State K T) (frame : List UInt8) (reset : Bool) : State K T :=
  let queued := { s with sent := s.sent ++ [frame] }
  if s.connected ∧ reset then queued.disconnect else queued

/-- The next access of `GameSession::Send`, and where it leads unless the call returns. -/
def sendStep (s : State K T) (c : Choice K) : SendPc → State K T × Option SendPc
  | .load sender =>
      (s, some (if s.handshakeDone then .encrypt sender
        else .sessionSend (sender.bytes (PacketHeader.dataSize sender))))
  | .encrypt sender =>
      let innerLen := PacketHeader.dataSize sender
      if innerLen = 0 ∨ maxPlainPacketSize < innerLen then (s, none)
      else if c.alloc = false then ({ s with allocFailed := true }, none)
      else
        match s.cipher with
        | none => ({ s with nullCipher := true }, none)
        | some key =>
            (s, (AesGcm.encrypt ssl key c.nonce (sender.bytes innerLen)).map fun payload =>
              .sessionSend (encryptedPacket payload))
  | .sessionSend frame => (s.sessionSend frame c.reset, none)

/-- The next access of `HandleKeyExchange`, and where it leads unless the call returns. -/
def keyExchangeStep (s : State K T) (c : Choice K) :
    KeyExchangePc → State K T × Option KeyExchangePc
  | .generateKeyPair clientPubKey =>
      let drawn := { s with myPrivKey := c.keyPair }
      if c.keyPair.isSome then (drawn, some (.deriveSharedSecret clientPubKey))
      else (drawn.disconnect, none)
  | .deriveSharedSecret clientPubKey =>
      match s.myPrivKey.bind (EcdhKeyExchange.deriveSharedSecret ssl · clientPubKey) with
      | some secret => (s, some (.deriveSessionKey secret))
      | none => (s.disconnect, none)
  | .deriveSessionKey secret =>
      match EcdhKeyExchange.deriveSessionKey ssl secret with
      | some sessionKey => (s, some (.getSenderAndPacket sessionKey))
      | none => (s.disconnect, none)
  | .getSenderAndPacket sessionKey =>
      if c.alloc then (s, some (.getPublicKeyBytes sessionKey))
      else ({ s with allocFailed := true }, none)
  | .getPublicKeyBytes sessionKey =>
      match s.myPrivKey.bind (EcdhKeyExchange.getPublicKeyBytes ssl) with
      | some serverPubKey => (s, some (.freeKey sessionKey serverPubKey))
      | none => (s.disconnect, none)
  | .freeKey sessionKey serverPubKey =>
      ({ s with myPrivKey := none }, some (.makeCipher sessionKey serverPubKey))
  | .makeCipher sessionKey serverPubKey =>
      ({ s with cipher := some c.memory }, some (.init sessionKey serverPubKey))
  | .init sessionKey serverPubKey =>
      ({ s with cipher := some sessionKey }, some (.store serverPubKey))
  | .store serverPubKey =>
      ({ s with handshakeDone := true }, some (.sessionSend (resKeyExchange serverPubKey)))
  | .sessionSend frame => (s.sessionSend frame c.reset, none)

def State.setRecv (s : State K T) (pc : RecvPc) : State K T := { s with recv := pc }

def State.setTask (s : State K T) (t : T) (pc : TaskPc) : State K T :=
  { s with task := Function.update s.task t pc }

/-- `OnRecv` returns; on `false`, `ProcessRecv` disconnects and returns. -/
def State.returned (s : State K T) (result : Bool) : State K T :=
  if result then s.setRecv .loop else s.disconnect.setRecv .idle

/-- The next access of the receiving thread. -/
def recvStep (s : State K T) (c : Choice K) : RecvPc → Option (State K T)
  | .idle => none
  | .loop => none
  | .onRecv p =>
      some (if s.handshakeDone = false then
          if PacketHeader.packetNum p = PacketEnum.reqKeyExchange.num then
            s.setRecv (.keyExchange (.generateKeyPair (pubKey p)))
          else s.disconnect.returned false
        else if PacketHeader.packetNum p ≠ PacketEnum.encrypted.num then
          s.disconnect.returned false
        else if payloadLen p < 28 ∨ maxPlainPacketSize + 28 < payloadLen p then
          s.disconnect.returned false
        else s.setRecv (.decrypt p))
  | .keyExchange pc =>
      let next := keyExchangeStep ssl s c pc
      -- `OnRecv` returns true whatever happened in `HandleKeyExchange`.
      some (match next.2 with
        | some pc => next.1.setRecv (.keyExchange pc)
        | none => next.1.returned true)
  | .decrypt p =>
      some (match s.cipher with
        | none => { s with nullCipher := true }
        | some key =>
            match AesGcm.decrypt ssl key (payload p) with
            | none => s.disconnect.returned false
            | some plain => s.setRecv (.process (.overlay plain c.stack)))
  | .process inner =>
      match (gameHandlers limit).find (PacketHeader.packetNum inner) with
      | none => some (s.returned false)
      | some handle =>
          if c.view.player.isSome = s.hasPlayer then
            let reply := handle c.view inner
            some (s.setRecv (.handler reply.effects reply.result))
          else none
  | .handler [] result => some (s.returned result)
  | .handler (.send sender :: effects) result =>
      some (s.setRecv (.send (.load sender) effects result))
  | .handler (.disconnect _ :: effects) result =>
      some (s.disconnect.setRecv (.handler effects result))
  | .handler (.output (.authenticate _ _) :: effects) result =>
      some ({ s with authentications := s.authentications + 1 }.setRecv (.handler effects result))
  | .handler (.output _ :: effects) result => some (s.setRecv (.handler effects result))
  | .send pc effects result =>
      let next := sendStep ssl s c pc
      some (match next.2 with
        | some pc => next.1.setRecv (.send pc effects result)
        | none => next.1.setRecv (.handler effects result))

/-- The next access of a `Send` on thread `t`, with what follows the call. -/
def State.taskSend (s : State K T) (t : T) (c : Choice K) (pc : SendPc) (resume : SendPc → TaskPc)
    (after : TaskPc) : State K T :=
  let next := sendStep ssl s c pc
  next.1.setTask t (match next.2 with
    | some pc => resume pc
    | none => after)

/-- The next access of thread `t`. -/
def taskStep (s : State K T) (t : T) (c : Choice K) : TaskPc → Option (State K T)
  | .idle => none
  | .exchange ok accountId name =>
      some (if s.loginProcessed then s.setTask t .idle
        else { s with loginProcessed := true }.setTask t (.isConnected ok accountId name))
  | .isConnected ok accountId name =>
      some (s.setTask t (if s.connected = false then .idle
        else if ok then .makePlayer accountId name
        else .sendLoginFailed (.load (resLoginFailed c.view.chunk))))
  | .sendLoginFailed pc => some (s.taskSend ssl t c pc .sendLoginFailed .disconnect)
  | .disconnect => some (s.disconnect.setTask t .idle)
  | .makePlayer accountId name =>
      some ({ s with playerMade := true }.setTask t (.setPlayer accountId name))
  | .setPlayer accountId name => some ({ s with hasPlayer := true }.setTask t (.add accountId name))
  | .add accountId name =>
      some (s.setTask t (.sendLogin (.load (resLogin accountId name c.view.chunk))))
  | .sendLogin pc => some (s.taskSend ssl t c pc .sendLogin .idle)
  | .jobSend pc => some (s.taskSend ssl t c pc .jobSend .idle)

/-- One step; nothing happens after a crash. -/
def step (s : State K T) (op : Op K T) : Option (State K T) :=
  if s.nullCipher ∨ s.allocFailed then none
  else
    match op with
    | .receive =>
        match s.recv with
        | .idle => some (s.setRecv .loop)
        | _ => none
    | .packet p =>
        match s.recv with
        | .loop => some (s.setRecv (.onRecv p))
        | _ => none
    | .registerRecv =>
        match s.recv with
        | .loop => some (s.setRecv .idle)
        | _ => none
    | .recv c => recvStep ssl limit s c s.recv
    | .loginResult t ok accountId name =>
        match s.task t, s.authentications with
        | .idle, n + 1 =>
            some ({ s with authentications := n }.setTask t (.exchange ok accountId name))
        | _, _ => none
    | .jobSend t sender =>
        match s.task t, s.playerMade with
        | .idle, true => some (s.setTask t (.jobSend (.load sender)))
        | _, _ => none
    | .task t c => taskStep ssl s t c (s.task t)
    | .disconnect => some s.disconnect

/-- A session after `ProcessConnect`. -/
def State.initial : State K T where
  connected := true
  handshakeDone := false
  cipher := none
  myPrivKey := none
  loginProcessed := false
  hasPlayer := false
  playerMade := false
  authentications := 0
  sent := []
  recv := .idle
  task _ := .idle
  nullCipher := false
  allocFailed := false

/-- A session with its threads. -/
def system (T : Type*) [DecidableEq T] : Transition.System (State K T) (Op K T) :=
  ⟨(· = .initial), step ssl limit⟩

end Model

end SessionSenders

end DhNet
