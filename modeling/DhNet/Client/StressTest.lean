import DhNet.Lib.System
import DhNet.Client.ServerSession

/-!
# The stress client

`DhNet_StressTest` drives its `ServerSession`s from the main loop: every tick calls
`AdvanceScenario` and `AdvancePing` on every session of `Service::GetSessions`.  What a session has
to do next is in the `ScenarioStateRegistry`, which knows the sessions by their addresses.

The system here is what happens at one address: the session that lives there, from `ProcessConnect`
to `Disconnect`, the entry of the registry, the main loop, and then the next session at the same
address, which finds the entry as the last one left it.  `OnConnected`, `Send`,
`HandleResKeyExchange` and the calls of the main loop are cut into their accesses to the members of
the session and to the registry, so that the threads interleave between any two of them.  Anybody
may call `Disconnect` at any time.

The peer is a `GameSession`: it sends `Res_KeyExchange` only in answer to `Req_KeyExchange`.  Of a
frame only the packet number is kept, and `wire` has the frames that `WSASend` took, in order.
-/

namespace DhNet

namespace StressTest

/-! ## The scenario -/

/-- `ScenarioPhase`. -/
inductive ScenarioPhase where
  | handshaking
  | inLobby
  | awaitingRoomEnter
  | inRoom
  | awaitingRoomExit
  | stuck
  deriving DecidableEq, Repr

/-- `ScenarioAction`. -/
inductive ScenarioAction where
  | none
  | sendLobbyChat
  | sendRoomEnter
  | sendRoomChat
  | sendRoomExit
  | logStuckRoomEnter
  | logStuckRoomExit
  deriving DecidableEq, Repr

/-- `ScenarioConfig`. -/
structure ScenarioConfig where
  lobbyChatCount : ℤ := 2
  lobbyChatIntervalMs : ℤ := 1000
  roomChatCount : ℤ := 5
  roomChatIntervalMs : ℤ := 1000
  roomActionTimeoutMs : ℤ := 5000
  maxRoomActionRetries : ℤ := 3
  pingIntervalMs : ℤ := 200
  pingTimeoutMs : ℤ := 3000

/-- `ScenarioState`; a time is a number of nanoseconds since the epoch of the clock. -/
structure ScenarioState where
  phase : ScenarioPhase := .handshaking
  phaseStartTime : ℤ := 0
  lastActionTime : ℤ := 0
  lobbyChatsSent : ℤ := 0
  roomChatsSent : ℤ := 0
  actionRetries : ℤ := 0
  pingInFlight : Bool := false
  pingSentTime : ℤ := 0
  lastPingSentTime : ℤ := 0
  deriving DecidableEq, Repr

/-- `std::chrono::milliseconds`. -/
def milliseconds (n : ℤ) : ℤ := n * 1000000

section Scenario

variable (cfg : ScenarioConfig) (now : ℤ) (st : ScenarioState)

/-- The retry of `AwaitingRoomEnter` and `AwaitingRoomExit`. -/
def retryRoomAction (send stuck : ScenarioAction) : ScenarioState × ScenarioAction :=
  if milliseconds cfg.roomActionTimeoutMs ≤ now - st.phaseStartTime then
    if cfg.maxRoomActionRetries ≤ st.actionRetries then ({ st with phase := .stuck }, stuck)
    else ({ st with actionRetries := st.actionRetries + 1, phaseStartTime := now }, send)
  else (st, .none)

/-- What `AdvanceScenario` does under the lock of the registry. -/
def advanceScenario : ScenarioState × ScenarioAction :=
  match st.phase with
  | .inLobby =>
      if st.lobbyChatsSent < cfg.lobbyChatCount ∧
          milliseconds cfg.lobbyChatIntervalMs ≤ now - st.lastActionTime then
        ({ st with lobbyChatsSent := st.lobbyChatsSent + 1, lastActionTime := now }, .sendLobbyChat)
      else if cfg.lobbyChatCount ≤ st.lobbyChatsSent then
        ({ st with phase := .awaitingRoomEnter, phaseStartTime := now, actionRetries := 0 },
          .sendRoomEnter)
      else (st, .none)
  | .awaitingRoomEnter => retryRoomAction cfg now st .sendRoomEnter .logStuckRoomEnter
  | .inRoom =>
      if st.roomChatsSent < cfg.roomChatCount ∧
          milliseconds cfg.roomChatIntervalMs ≤ now - st.lastActionTime then
        ({ st with roomChatsSent := st.roomChatsSent + 1, lastActionTime := now }, .sendRoomChat)
      else if cfg.roomChatCount ≤ st.roomChatsSent then
        ({ st with phase := .awaitingRoomExit, phaseStartTime := now, actionRetries := 0 },
          .sendRoomExit)
      else (st, .none)
  | .awaitingRoomExit => retryRoomAction cfg now st .sendRoomExit .logStuckRoomExit
  | .stuck => (st, .none)
  | .handshaking => (st, .none)

/-- The packet that `AdvanceScenario` sends after the lock of the registry. -/
def ScenarioAction.packet : ScenarioAction → Option PacketEnum
  | .sendLobbyChat => some .reqLobbyChat
  | .sendRoomEnter => some .reqRoomEnter
  | .sendRoomChat => some .reqRoomChat
  | .sendRoomExit => some .reqRoomExit
  | _ => Option.none

/-- The state after the timeout of a ping. -/
def expirePing : ScenarioState :=
  if st.pingInFlight ∧ milliseconds cfg.pingTimeoutMs ≤ now - st.pingSentTime then
    { st with pingInFlight := false }
  else st

/-- What `AdvancePing` does under the lock of the registry, and whether it sends a ping after. -/
def advancePing : ScenarioState × Bool :=
  let st := expirePing cfg now st
  if st.pingInFlight = false ∧
      milliseconds cfg.pingIntervalMs ≤ now - st.lastPingSentTime then
    ({ st with pingInFlight := true, pingSentTime := now, lastPingSentTime := now }, true)
  else (st, false)

/-- `Scenario_HandleResLobbyEnterPacket` on the state of the session. -/
def handleResLobbyEnter : ScenarioState :=
  { st with phase := .inLobby, phaseStartTime := now, lastActionTime := now, lobbyChatsSent := 0 }

/-- `Scenario_HandleNotiRoomEnterPacket` on the state of the session, for its own player. -/
def handleNotiRoomEnter : ScenarioState :=
  { st with phase := .inRoom, phaseStartTime := now, lastActionTime := now, roomChatsSent := 0 }

/-- `Scenario_HandleResTestPacket` on the state of the session. -/
def handleResTest : ScenarioState :=
  if st.pingInFlight then { st with pingInFlight := false } else st

end Scenario

/-! ## The threads -/

/-- The point a call of `ServerSession::Send` has reached; `encrypt` is `SendEncrypted`. -/
inductive SendPc where
  | load (num : PacketEnum)
  | encrypt (num : PacketEnum)
  | sessionSend (num : PacketEnum)
  deriving DecidableEq, Repr

/-- The point that `ProcessConnect`, and after it the receives, have reached; `receiving` is between
two packets, `store` and `login` are the end of `HandleResKeyExchange`. -/
inductive ConnPc where
  | created
  | addSession
  | generateKeyPair
  | getPublicKeyBytes
  | sendKeyExchange
  | onConnectedExtra
  | registerRecv
  | receiving
  | store
  | login (pc : SendPc)
  | over
  deriving DecidableEq, Repr

/-- The point that the effective call of `Disconnect` has reached. -/
inductive ClosePc where
  | idle
  | onDisconnectedExtra
  | releaseSession
  | done
  deriving DecidableEq, Repr

/-- The point that the main loop has reached for the session, with the time of the tick. -/
inductive MainPc where
  | idle
  | scenario (now : ℤ)
  | scenarioSend (now : ℤ) (pc : SendPc)
  | ping (now : ℤ)
  | pingSend (pc : SendPc)
  deriving DecidableEq, Repr

/-- The entry of the registry at the address, the members of the session that lives there, whether
it is in `m_sessions`, the frames it has put on the wire, and the threads. -/
structure State where
  entry : Option ScenarioState
  connected : Bool
  listed : Bool
  handshakeDone : Bool
  wire : List PacketEnum
  conn : ConnPc
  closer : ClosePc
  main : MainPc
  deriving DecidableEq, Repr

/-- A frame that is received: `Res_KeyExchange`, with the outcome of the key derivations, an
`Encrypted` packet with the packet found in it, the time and whether it is about the own player, or
another one. -/
inductive Received where
  | resKeyExchange (derived : Bool)
  | encrypted (inner : Option PacketEnum) (now : ℤ) (own : Bool)
  | other
  deriving DecidableEq, Repr

/-- What happens next.  The outcomes of the cryptographic functions and of `WSASend` or `WSARecv`
are part of it. -/
inductive Op where
  | conn (ok : Bool) (result : WsaResult)
  | recv (packet : Received)
  | disconnect
  | closer
  | tick (now : ℤ)
  | main (ok : Bool) (result : WsaResult)
  | reuse
  deriving DecidableEq, Repr

/-- `Session::Disconnect`, up to the calls that follow the exchange of `m_connected`. -/
def State.disconnect (s : State) : State :=
  if s.connected then { s with connected := false, closer := .onDisconnectedExtra } else s

/-- `Session::HandleError`. -/
def State.handleError (s : State) (code : ℕ) : State :=
  if code = wsaEConnReset ∨ code = wsaEConnAborted then s.disconnect else s

/-- `Session::Send`: nothing is sent on a disconnected session, and a frame that `WSASend` refuses
is dropped. -/
def State.sessionSend (s : State) (num : PacketEnum) (result : WsaResult) : State :=
  if s.connected then
    match result with
    | .success => { s with wire := s.wire ++ [num] }
    | .pending => { s with wire := s.wire ++ [num] }
    | .error code => s.handleError code
  else s

/-- The next step of a call of `ServerSession::Send`, and where it is then. -/
def State.send (s : State) (ok : Bool) (result : WsaResult) : SendPc → State × Option SendPc
  | .load num => (s, some (if s.handshakeDone then .encrypt num else .sessionSend num))
  | .encrypt _ => (s, if ok then some (.sessionSend .encrypted) else none)
  | .sessionSend num => (s.sessionSend num result, none)

/-- `ScenarioStateRegistry::Apply` of a function without a result. -/
def State.apply (s : State) (f : ScenarioState → ScenarioState) : State :=
  { s with entry := s.entry.map f }

/-- A packet handler of the stress client, or `none` where there is none. -/
def State.process (s : State) (now : ℤ) (own : Bool) : PacketEnum → Option State
  | .resLogin => some s
  | .resLoginFailed => some s.disconnect
  | .resLobbyEnter => some (s.apply (handleResLobbyEnter now))
  | .notiRoomEnter => some (if own then s.apply (handleNotiRoomEnter now) else s)
  | .test => some (s.apply handleResTest)
  | .notiLobbyChat => some s
  | .notiLobbyPlayerEnter => some s
  | .notiLobbyPlayerExit => some s
  | .notiRoomChat => some s
  | .notiRoomExit => some s
  | _ => none

/-- `OnRecv` has returned `false`. -/
def State.onReadError (s : State) : State := { s.disconnect with conn := .over }

/-- `ServerSession::OnRecv`. -/
def State.onRecv (s : State) : Received → State
  | .resKeyExchange derived =>
      if s.handshakeDone = false then
        if derived then { s with conn := .store } else s.disconnect
      else s.onReadError
  | .encrypted inner now own =>
      if s.handshakeDone = false then s.onReadError
      else
        match inner.bind (s.process now own) with
        | some s' => s'
        | none => s.onReadError
  | .other => s.onReadError

/-- The next step of `ProcessConnect` or of the receives. -/
def connStep (s : State) (ok : Bool) (result : WsaResult) : ConnPc → Option State
  | .created => some { s with connected := true, conn := .addSession }
  | .addSession => some { s with listed := true, conn := .generateKeyPair }
  | .generateKeyPair =>
      some (if ok then { s with conn := .getPublicKeyBytes }
        else { s.disconnect with conn := .registerRecv })
  | .getPublicKeyBytes =>
      some (if ok then { s with conn := .sendKeyExchange }
        else { s.disconnect with conn := .registerRecv })
  | .sendKeyExchange =>
      some { s.sessionSend .reqKeyExchange result with conn := .onConnectedExtra }
  | .onConnectedExtra => some { s with entry := some {}, conn := .registerRecv }
  | .registerRecv =>
      if s.connected then
        match result with
        | .success => some { s with conn := .receiving }
        | .pending => some { s with conn := .receiving }
        | .error code => some { s.handleError code with conn := .over }
      else some { s with conn := .over }
  | .receiving =>
      some (if ok then { s with conn := .registerRecv } else { s.disconnect with conn := .over })
  | .store => some { s with handshakeDone := true, conn := .login (.load .reqLogin) }
  | .login pc =>
      match s.send ok result pc with
      | (s', some pc') => some { s' with conn := .login pc' }
      | (s', none) => some { s' with conn := .receiving }
  | .over => none

/-- The next step of the call of `Disconnect` that found the session connected. -/
def closerStep (s : State) : ClosePc → Option State
  | .idle => none
  | .onDisconnectedExtra => some { s with entry := none, closer := .releaseSession }
  | .releaseSession => if s.listed then some { s with listed := false, closer := .done } else none
  | .done => none

/-- The next step of the main loop for the session. -/
def mainStep (cfg : ScenarioConfig) (s : State) (ok : Bool) (result : WsaResult) :
    MainPc → Option State
  | .idle => none
  | .scenario now =>
      match s.entry with
      | none => some { s with main := .ping now }
      | some st =>
          match (advanceScenario cfg now st).2.packet with
          | some num => some { s with
              entry := some (advanceScenario cfg now st).1
              main := .scenarioSend now (.load num) }
          | none => some { s with
              entry := some (advanceScenario cfg now st).1
              main := .ping now }
  | .scenarioSend now pc =>
      match s.send ok result pc with
      | (s', some pc') => some { s' with main := .scenarioSend now pc' }
      | (s', none) => some { s' with main := .ping now }
  | .ping now =>
      match s.entry with
      | none => some { s with main := .idle }
      | some st => some { s with
          entry := some (advancePing cfg now st).1
          main := if (advancePing cfg now st).2 then .pingSend (.load .test) else .idle }
  | .pingSend pc =>
      match s.send ok result pc with
      | (s', some pc') => some { s' with main := .pingSend pc' }
      | (s', none) => some { s' with main := .idle }

/-- A new session at the address of one that is gone. -/
def State.reuse (s : State) : State where
  entry := s.entry
  connected := false
  listed := false
  handshakeDone := false
  wire := []
  conn := .created
  closer := .idle
  main := .idle

/-- One step. -/
def step (cfg : ScenarioConfig) (s : State) : Op → Option State
  | .conn ok result => connStep s ok result s.conn
  | .recv packet =>
      match packet with
      | .resKeyExchange _ =>
          if s.conn = .receiving ∧ .reqKeyExchange ∈ s.wire then some (s.onRecv packet) else none
      | _ => if s.conn = .receiving then some (s.onRecv packet) else none
  | .disconnect => some s.disconnect
  | .closer => closerStep s s.closer
  | .tick now =>
      if s.main = .idle ∧ s.listed = true then some { s with main := .scenario now } else none
  | .main ok result => mainStep cfg s ok result s.main
  | .reuse =>
      if s.conn = .over ∧ s.closer = .done ∧ s.main = .idle then some s.reuse else none

/-- A first session at an address without an entry. -/
def State.initial : State := ⟨none, false, false, false, [], .created, .idle, .idle⟩

/-- The life of the sessions at one address. -/
def system (cfg : ScenarioConfig) : Transition.System State Op := ⟨(· = .initial), step cfg⟩

end StressTest

end DhNet
