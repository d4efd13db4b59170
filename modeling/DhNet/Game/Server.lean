import Mathlib.Logic.Function.Basic
import DhNet.Lib.System
import DhNet.Game.Places

/-!
# The players, lobbies and rooms of the server

What moves a player: the result of its login (`OnLoginResult`), its requests to enter or leave a
room, the end of its session (`Disconnect`, `OnDisconnected`), and the jobs of the lobbies and
rooms.  These run on different threads, so each is cut into the accesses it makes to shared data: a
load or exchange of a slot counter, a `DoAsync`, a store to a pointer or an index of the player, an
update of `m_players` or `PlayerSystem`.

* `Client`: a session with its player and the calls in progress on it: at most one login result gets
  past `m_loginProcessed`, at most one `Disconnect` past `m_connected`, and the packets of one
  session are handled one after the other.
* `Place`: a lobby or a room with its jobs, of which one runs at a time and in the order of
  `DoAsync`, as the job queue guarantees.
* `step`: one access of one of these calls or jobs.

As one login result at most makes a player, the account and the name it carries are fixed for each
session in advance (`Accounts`).

Leaving and searching work alike for lobbies and rooms, so they are written once, for a `Kind`.  The
locks of `LobbySystem` and `RoomSystem` are left out, which only adds interleavings.
-/

namespace DhNet

namespace Server

/-- Lobbies and rooms. -/
inductive Kind where
  | lobby
  | room
  deriving DecidableEq, Repr

/-- `MAX_LOBBY_PLAYERS` or `MAX_ROOM_PLAYER`. -/
def Kind.capacity : Kind → ℕ
  | .lobby => maxLobbyPlayers
  | .room => maxRoomPlayer

/-- The kind of place that a player leaves in order to enter this one. -/
def Kind.other : Kind → Kind
  | .lobby => .room
  | .room => .lobby

/-- The number of places of a kind. -/
def Kind.places (roomNum : ℕ) : Kind → ℕ
  | .lobby => maxLobbyCount
  | .room => roomNum

/-- A lobby or a room by its index. -/
structure PlaceId where
  kind : Kind
  index : ℕ
  deriving DecidableEq, Repr

/-! ## Places -/

/-- The jobs that are queued on a place: `Lobby::Enter` or `Room::Enter`, `Lobby::Exit` or
`Room::Leave`, `Lobby::Chat`, and `Room::Broadcast`. -/
inductive Job (P : Type*) where
  | enter (player : P)
  | exit (player : P)
  | chat (player : P) (message : List UInt8)
  | broadcast (packet : Notice)
  deriving DecidableEq

/-- The point a job has reached: `body` is its start, `pointer` follows the insertion into
`m_players`, `index` and `session` the two stores of `SetCurrentLobby` or `SetCurrentRoom`, and
`release` is followed by the `fetch_add` that returns the slot. -/
inductive Stage where
  | body
  | pointer
  | index
  | session
  | release
  deriving DecidableEq, Repr

/-- A lobby or a room with the jobs that wait and the one that runs. -/
structure Place (P : Type*) where
  players : SortedMap ℕ P
  availableSlots : ℤ
  waiting : List (Job P)
  running : Option (Job P × Stage)

/-- An empty place. -/
def Place.fresh {P : Type*} (kind : Kind) : Place P := ⟨.empty, kind.capacity, [], none⟩

/-- `DoAsync`. -/
def Place.doAsync {P : Type*} (place : Place P) (job : Job P) : Place P :=
  { place with waiting := place.waiting ++ [job] }

/-- A successful exchange in `TryReserveSlot`. -/
def Place.reserve {P : Type*} (place : Place P) : Place P :=
  { place with availableSlots := place.availableSlots - 1 }

/-! ## Reservations -/

/-- The point a call of `TryReserveSlot` has reached. -/
inductive ReservePc where
  | load
  | exchange (avail : ℤ)
  deriving DecidableEq, Repr

/-- What one access of `TryReserveSlot` leads to. -/
inductive ReserveOutcome where
  | again (pc : ReservePc)
  | reserved
  | full
  deriving DecidableEq, Repr

/-- `TryReserveSlot`; the weak exchange may fail although the value is the expected one. -/
def tryReserveSlot (availableSlots : ℤ) (spurious : Bool) : ReservePc → ReserveOutcome
  | .load => if availableSlots ≤ 0 then .full else .again (.exchange availableSlots)
  | .exchange avail =>
      if availableSlots = avail ∧ spurious = false then .reserved else .again .load

/-- The point a search for a free slot has reached: the first loop of `AssignLobby`, its attempt at
the fullest lobby, and the loop over all places in `AssignLobby` or `GetNotFullRoom`. -/
inductive Search where
  | count (i : ℕ) (fullest : Option ℕ) (bestCount : ℤ)
  | best (i : ℕ) (pc : ReservePc)
  | scan (i : ℕ) (pc : ReservePc)
  deriving DecidableEq, Repr

/-- `AssignLobby` starts by looking for the fullest lobby, `GetNotFullRoom` with the scan. -/
def Search.start : Kind → Search
  | .lobby => .count 0 none (-1)
  | .room => .scan 0 .load

/-- What one access of a search leads to. -/
inductive SearchOutcome where
  | again (search : Search)
  | reserved (index : ℕ)
  | failed
  deriving DecidableEq, Repr

/-- `AssignLobby` and `GetNotFullRoom` over `places` places with these slot counters. -/
def Search.next (places : ℕ) (availableSlots : ℕ → ℤ) (spurious : Bool) : Search → SearchOutcome
  | .count i fullest bestCount =>
      if i < places then
        let cnt := maxLobbyPlayers - availableSlots i
        if cnt < maxLobbyPlayers ∧ bestCount < cnt then .again (.count (i + 1) (some i) cnt)
        else .again (.count (i + 1) fullest bestCount)
      else
        match fullest with
        | some i => .again (.best i .load)
        | none => .again (.scan 0 .load)
  | .best i pc =>
      match tryReserveSlot (availableSlots i) spurious pc with
      | .again pc => .again (.best i pc)
      | .reserved => .reserved i
      | .full => .again (.scan 0 .load)
  | .scan i pc =>
      if i < places then
        match tryReserveSlot (availableSlots i) spurious pc with
        | .again pc => .again (.scan i pc)
        | .reserved => .reserved i
        | .full => .again (.scan (i + 1) .load)
      else .failed

/-! ## Clients -/

/-- The point a call of `LeaveLobby` or `LeaveRoom` has reached. -/
inductive LeavePc where
  | lock
  | doAsync (index : ℕ)
  | notify (index : ℕ)
  | resetPointer
  | resetIndex
  deriving DecidableEq, Repr

/-- The point a login result has reached. -/
inductive LoginPc where
  | idle
  | isConnected (ok : Bool)
  | reject
  | setPlayer
  | add
  | assignLobby (search : Search)
  | doAsync (lobby : ℕ)
  deriving DecidableEq, Repr

/-- The point a request has reached.  `HandleReqRoomEnterPacket` leaves the lobby for a room and
`HandleReqRoomExitPacket` leaves the room for a lobby. -/
inductive RequestPc where
  | idle
  | leave (target : Kind) (pc : LeavePc)
  | search (target : Kind) (search : Search)
  | makeRoom
  | doAsync (target : PlaceId)
  | chatLock (kind : Kind) (message : List UInt8)
  | chatAsync (target : PlaceId) (message : List UInt8)
  deriving DecidableEq, Repr

/-- The point a `Disconnect` has reached. -/
inductive DisconnectPc where
  | idle
  | hasPlayer
  | leave (kind : Kind) (pc : LeavePc)
  | remove
  | reset
  | done
  deriving DecidableEq, Repr

/-- A `GameSession` with its `Player` and the calls in progress.  `hasPlayer` says that `m_player`
is set, `alive` that the session object exists; the pointers and indices are those to the current
lobby and the current room. -/
structure Client where
  connected : Bool
  alive : Bool
  loginProcessed : Bool
  hasPlayer : Bool
  current : Kind → Option ℕ
  currentIndex : Kind → ℤ
  login : LoginPc
  request : RequestPc
  disconnect : DisconnectPc

/-- A connected session before its login. -/
def Client.initial : Client :=
  ⟨true, true, false, false, fun _ => none, fun _ => -1, .idle, .idle, .idle⟩

/-- Set the pointer to the current place of a kind. -/
def Client.setCurrent (c : Client) (kind : Kind) (index : Option ℕ) : Client :=
  { c with current := Function.update c.current kind index }

/-- Set the index of the current place of a kind. -/
def Client.setIndex (c : Client) (kind : Kind) (index : ℤ) : Client :=
  { c with currentIndex := Function.update c.currentIndex kind index }

/-- The account id and the name with which the player of each session is made. -/
structure Accounts (P : Type*) where
  playerId : P → ℕ
  playerName : P → List UInt8

/-- What an access of a client does to the rest of the server. -/
inductive Effect (P : Type*) where
  | none
  | doAsync (target : PlaceId) (job : Job P)
  | reserve (target : PlaceId)
  | makeRoom
  | addPlayer
  | removePlayer

section Clients

variable {P : Type*} (acc : Accounts P) (p : P)

/-- `Player::LeaveLobby` and `Player::LeaveRoom`: the client, the effect, and the next point unless
the call returns. -/
def leave (kind : Kind) (c : Client) : LeavePc → Client × Effect P × Option LeavePc
  | .lock =>
      (c, .none, some (match c.current kind with
        | some index => .doAsync index
        | none => .resetPointer))
  | .doAsync index =>
      (c, .doAsync ⟨kind, index⟩ (.exit p), some (match kind with
        | .lobby => .resetPointer
        | .room => .notify index))
  | .notify index =>
      (c, .doAsync ⟨kind, index⟩
        (.broadcast
          (.notiRoomExit (acc.playerId p) (fieldChars (acc.playerName p) playerNameSize))),
        some .resetPointer)
  | .resetPointer => (c.setCurrent kind none, .none, some .resetIndex)
  | .resetIndex => (c.setIndex kind (-1), .none, none)

/-- `GameSession::OnLoginResult` behind the exchange of `m_loginProcessed`. -/
def onLoginResult (availableSlots : PlaceId → ℤ) (spurious : Bool) (c : Client) :
    Option (Client × Effect P) :=
  match c.login with
  | .idle => none
  | .isConnected ok =>
      some ({ c with
        login :=
          if c.connected = false then .idle
          else if ok then .setPlayer
          else .reject }, .none)
  | .reject =>
      -- `Disconnect(L"LoginFailed")`, without effect if the session is disconnected already.
      some ({ c with
        login := .idle
        connected := false
        disconnect := if c.connected then .hasPlayer else c.disconnect }, .none)
  | .setPlayer => some ({ c with hasPlayer := true, login := .add }, .none)
  | .add => some ({ c with login := .assignLobby (.start .lobby) }, .addPlayer)
  | .assignLobby search =>
      some (match search.next maxLobbyCount (fun i => availableSlots ⟨.lobby, i⟩) spurious with
        | .again search => ({ c with login := .assignLobby search }, .none)
        | .reserved lobby => ({ c with login := .doAsync lobby }, .reserve ⟨.lobby, lobby⟩)
        | .failed => ({ c with login := .idle }, .none))
  | .doAsync lobby => some ({ c with login := .idle }, .doAsync ⟨.lobby, lobby⟩ (.enter p))

/-- `HandleReqRoomEnterPacket`, `HandleReqRoomExitPacket`, `HandleReqLobbyChatPacket` and
`HandleReqRoomChatPacket` behind the fetch of the player. -/
def handleRequest (roomNum : ℕ) (availableSlots : PlaceId → ℤ) (spurious : Bool) (c : Client) :
    Option (Client × Effect P) :=
  match c.request with
  | .idle => none
  | .leave target pc =>
      let left := leave acc p target.other c pc
      some ({ left.1 with
        request := match left.2.2 with
          | some pc => .leave target pc
          | none => .search target (.start target) }, left.2.1)
  | .search target search =>
      some (match search.next (target.places roomNum) (fun i => availableSlots ⟨target, i⟩)
          spurious with
        | .again search => ({ c with request := .search target search }, .none)
        | .reserved index =>
            ({ c with request := .doAsync ⟨target, index⟩ }, .reserve ⟨target, index⟩)
        | .failed =>
            ({ c with request := match target with
                | .lobby => .idle
                | .room => .makeRoom }, .none))
  | .makeRoom => some ({ c with request := .doAsync ⟨.room, roomNum⟩ }, .makeRoom)
  | .doAsync target => some ({ c with request := .idle }, .doAsync target (.enter p))
  | .chatLock kind message =>
      some ({ c with
        request := match c.current kind with
          | some index => .chatAsync ⟨kind, index⟩ message
          | none => .idle }, .none)
  | .chatAsync target message =>
      some ({ c with request := .idle }, .doAsync target (match target.kind with
        | .lobby => .chat p message
        | .room => .broadcast (.notiRoomChat (acc.playerId p)
            (fieldChars (acc.playerName p) playerNameSize) (fieldChars message messageSize))))

/-- `GameSession::OnDisconnected` behind the exchange of `m_connected`. -/
def onDisconnected (c : Client) : Option (Client × Effect P) :=
  match c.disconnect with
  | .idle => none
  | .hasPlayer =>
      some ({ c with disconnect := if c.hasPlayer then .leave .lobby .lock else .reset }, .none)
  | .leave kind pc =>
      let left := leave acc p kind c pc
      some ({ left.1 with
        disconnect := match left.2.2 with
          | some pc => .leave kind pc
          | none => match kind with
            | .lobby => .leave .room .lock
            | .room => .remove }, left.2.1)
  | .remove => some ({ c with disconnect := .reset }, .removePlayer)
  | .reset => some ({ c with hasPlayer := false, disconnect := .done }, .none)
  | .done => none

end Clients

/-! ## The server -/

/-- All sessions, lobbies and rooms, `m_roomNum`, `PlayerSystem`, and the packets sent by the
places. -/
structure State (P : Type*) where
  client : P → Client
  place : PlaceId → Place P
  roomNum : ℕ
  playerSystem : ℕ → Option P
  sent : List (PlaceId × P × Notice)

/-- What can happen: a call begins, a call makes its next access, a session object is destroyed, a
place starts its next job or its job makes its next access. -/
inductive Op (P : Type*) where
  | loginResult (p : P) (ok : Bool)
  | reqRoomEnter (p : P)
  | reqRoomExit (p : P)
  | reqChat (p : P) (kind : Kind) (message : List UInt8)
  | disconnect (p : P)
  | destroy (p : P)
  | login (p : P) (spurious : Bool)
  | request (p : P) (spurious : Bool)
  | onDisconnected (p : P)
  | startJob (target : PlaceId)
  | runJob (target : PlaceId)
  deriving DecidableEq

section Steps

variable {P : Type*} [DecidableEq P] (acc : Accounts P)

/-- What the jobs read of the players. -/
def State.registry (s : State P) : Registry P where
  playerId := acc.playerId
  playerName := acc.playerName
  ownerSession p := (s.client p).alive

/-- Replace one client. -/
def State.setClient (s : State P) (p : P) (c : Client) : State P :=
  { s with client := Function.update s.client p c }

/-- Replace one place. -/
def State.setPlace (s : State P) (target : PlaceId) (place : Place P) : State P :=
  { s with place := Function.update s.place target place }

/-- The effect of an access of a client on the rest of the server. -/
def State.apply (s : State P) (p : P) : Effect P → State P
  | .none => s
  | .doAsync target job => s.setPlace target ((s.place target).doAsync job)
  | .reserve target => s.setPlace target (s.place target).reserve
  | .makeRoom =>
      -- The room is in its initial state: nobody finds a room before it is made.
      { s.setPlace ⟨.room, s.roomNum⟩ (s.place ⟨.room, s.roomNum⟩).reserve with
        roomNum := s.roomNum + 1 }
  | .addPlayer =>
      { s with
        playerSystem := Function.update s.playerSystem (acc.playerId p)
          (some ((s.playerSystem (acc.playerId p)).getD p)) }
  | .removePlayer =>
      { s with playerSystem := Function.update s.playerSystem (acc.playerId p) none }

/-- A client that has made an access. -/
def State.access (s : State P) (p : P) (r : Client × Effect P) : State P :=
  (s.apply acc p r.2).setClient p r.1

/-- A place whose job has reached this point, or has returned. -/
def State.goOn (s : State P) (target : PlaceId) (players : SortedMap ℕ P)
    (running : Option (Job P × Stage)) : State P :=
  s.setPlace target { s.place target with players := players, running := running }

/-- Packets sent by a place. -/
def State.send (s : State P) (target : PlaceId) (packets : List (P × Notice)) : State P :=
  { s with sent := s.sent ++ packets.map fun m => (target, m) }

/-- The start of `Lobby::Enter` and `Room::Enter`: only a room looks at its size. -/
def enterBody (kind : Kind) (reg : Registry P) (players : SortedMap ℕ P) (p : P) :
    SortedMap ℕ P × Stage :=
  if kind = .room ∧ maxRoomPlayer ≤ players.size then (players, .release)
  else
    match players.find? (reg.playerId p) with
    | some _ => (players, .release)
    | none => (players.insert (reg.playerId p) p, .pointer)

/-- The end of `Lobby::Enter` and `Room::Enter` for an existing session: the packets of the lobby,
or `Player::EnterRoom`. -/
def State.entered (s : State P) (target : PlaceId) (p : P) : State P :=
  match target.kind with
  | .lobby =>
      s.send target (Lobby.welcome (s.registry acc) target.index (s.place target).players p)
  | .room =>
      match (s.client p).current .room with
      | some index =>
          s.setPlace ⟨.room, index⟩ ((s.place ⟨.room, index⟩).doAsync
            (.broadcast (.notiRoomEnter (acc.playerId p) ((s.registry acc).nameField p))))
      | none => s

/-- The next access of the job that runs on a place. -/
def runJob (s : State P) (target : PlaceId) : Option (State P) :=
  let place := s.place target
  match place.running with
  | none => none
  | some (.enter p, .body) =>
      let body := enterBody target.kind (s.registry acc) place.players p
      some (s.goOn target body.1 (some (.enter p, body.2)))
  | some (.enter p, .pointer) =>
      some ((s.goOn target place.players (some (.enter p, .index))).setClient p
        ((s.client p).setCurrent target.kind (some target.index)))
  | some (.enter p, .index) =>
      some ((s.goOn target place.players (some (.enter p, .session))).setClient p
        ((s.client p).setIndex target.kind target.index))
  | some (.enter p, .session) =>
      if (s.client p).alive then some ((s.goOn target place.players none).entered acc target p)
      else
        some (s.goOn target (place.players.erase (acc.playerId p)) (some (.enter p, .release)))
  | some (.exit p, .body) =>
      match place.players.find? (acc.playerId p) with
      | none => some (s.goOn target place.players none)
      | some _ =>
          some (s.goOn target (place.players.erase (acc.playerId p))
            (some (.exit p, .release)))
  | some (job, .release) =>
      let released := s.setPlace target
        { place with availableSlots := place.availableSlots + 1, running := none }
      some (match job, target.kind with
        | .exit p, .lobby =>
            released.send target (broadcast (s.registry acc) place.players
              (.notiLobbyPlayerExit (acc.playerId p) ((s.registry acc).nameField p)))
        | _, _ => released)
  | some (.chat p message, _) =>
      some ((s.goOn target place.players none).send target
        (Lobby.chat (s.registry acc) place.players p message).sent)
  | some (.broadcast packet, _) =>
      some ((s.goOn target place.players none).send target
        (DhNet.broadcast (s.registry acc) place.players packet))
  | some (.exit _, _) => none

/-- A request of a session whose player is set begins, unless another one is in progress. -/
def State.startRequest (s : State P) (p : P) (pc : RequestPc) : Option (State P) :=
  if (s.client p).alive ∧ (s.client p).hasPlayer ∧ (s.client p).request = .idle then
    some (s.setClient p { s.client p with request := pc })
  else none

/-- One step of the server. -/
def step (s : State P) : Op P → Option (State P)
  | .loginResult p ok =>
      if (s.client p).alive ∧ (s.client p).loginProcessed = false then
        some (s.setClient p { s.client p with
          loginProcessed := true
          login := .isConnected ok })
      else none
  | .reqRoomEnter p => s.startRequest p (.leave .room .lock)
  | .reqRoomExit p => s.startRequest p (.leave .lobby .lock)
  | .reqChat p kind message => s.startRequest p (.chatLock kind message)
  | .disconnect p =>
      if (s.client p).connected then
        some (s.setClient p { s.client p with connected := false, disconnect := .hasPlayer })
      else none
  | .destroy p =>
      if (s.client p).disconnect = .done ∧ (s.client p).login = .idle ∧
          (s.client p).request = .idle then
        some (s.setClient p { s.client p with alive := false })
      else none
  | .login p spurious =>
      (onLoginResult p (fun target => (s.place target).availableSlots) spurious (s.client p)).map
        (s.access acc p)
  | .request p spurious =>
      (handleRequest acc p s.roomNum (fun target => (s.place target).availableSlots) spurious
        (s.client p)).map (s.access acc p)
  | .onDisconnected p => (onDisconnected acc p (s.client p)).map (s.access acc p)
  | .startJob target =>
      match (s.place target).running, (s.place target).waiting with
      | none, job :: waiting =>
          some (s.setPlace target
            { s.place target with waiting := waiting, running := some (job, .body) })
      | _, _ => none
  | .runJob target => runJob acc s target

/-- Sessions before their login, empty lobbies, and no rooms. -/
def State.initial : State P :=
  ⟨fun _ => .initial, fun target => .fresh target.kind, 0, fun _ => none, []⟩

/-- The server. -/
def system : Transition.System (State P) (Op P) := ⟨(· = .initial), step acc⟩

/-- The server from other states on. -/
def systemFrom (start : State P → Prop) : Transition.System (State P) (Op P) := ⟨start, step acc⟩

theorem reachable_of_systemFrom {s s' : State P} (reach : (system acc).Reachable s)
    (h : (systemFrom acc (· = s)).Reachable s') : (system acc).Reachable s' := by
  refine h.invariant ?_ fun _ _ _ reach hstep => reach.step hstep
  rintro _ rfl
  exact reach

/-! ## What a job can do -/

/-- The accesses that the job of a place can make, with what they find. -/
inductive JobStep (s : State P) (target : PlaceId) : State P → Prop
  | refused {p : P} (running : (s.place target).running = some (.enter p, .body))
      (why : target.kind = .room ∧ maxRoomPlayer ≤ (s.place target).players.size ∨
        ((s.place target).players.find? (acc.playerId p)).isSome) :
      JobStep s target (s.goOn target (s.place target).players (some (.enter p, .release)))
  | inserted {p : P} (running : (s.place target).running = some (.enter p, .body))
      (absent : (s.place target).players.find? (acc.playerId p) = none) :
      JobStep s target (s.goOn target ((s.place target).players.insert (acc.playerId p) p)
        (some (.enter p, .pointer)))
  | pointer {p : P} (running : (s.place target).running = some (.enter p, .pointer)) :
      JobStep s target
        ((s.goOn target (s.place target).players (some (.enter p, .index))).setClient p
          ((s.client p).setCurrent target.kind (some target.index)))
  | index {p : P} (running : (s.place target).running = some (.enter p, .index)) :
      JobStep s target ((s.goOn target (s.place target).players
        (some (.enter p, .session))).setClient p ((s.client p).setIndex target.kind target.index))
  | entered {p : P} (running : (s.place target).running = some (.enter p, .session))
      (alive : (s.client p).alive = true) :
      JobStep s target ((s.goOn target (s.place target).players none).entered acc target p)
  | dead {p : P} (running : (s.place target).running = some (.enter p, .session))
      (dead : (s.client p).alive = false) :
      JobStep s target (s.goOn target ((s.place target).players.erase (acc.playerId p))
        (some (.enter p, .release)))
  | absent {p : P} (running : (s.place target).running = some (.exit p, .body))
      (absent : (s.place target).players.find? (acc.playerId p) = none) :
      JobStep s target (s.goOn target (s.place target).players none)
  | erased {p q : P} (running : (s.place target).running = some (.exit p, .body))
      (found : (s.place target).players.find? (acc.playerId p) = some q) :
      JobStep s target (s.goOn target ((s.place target).players.erase (acc.playerId p))
        (some (.exit p, .release)))
  | released {job : Job P} (running : (s.place target).running = some (job, .release))
      (packets : List (P × Notice)) :
      JobStep s target ((s.setPlace target { s.place target with
        availableSlots := (s.place target).availableSlots + 1
        running := none }).send target packets)
  | sent {job : Job P} {stage : Stage} (running : (s.place target).running = some (job, stage))
      (enter : ∀ p, job ≠ .enter p) (exit : ∀ p, job ≠ .exit p) (stage : stage ≠ .release)
      (packets : List (P × Notice)) :
      JobStep s target ((s.goOn target (s.place target).players none).send target packets)

theorem jobStep_of_runJob {s s' : State P} {target : PlaceId} (h : runJob acc s target = some s') :
    JobStep acc s target s' := by
  unfold runJob at h
  rcases hrunning : (s.place target).running with _ | ⟨job, stage⟩
  · simp only [hrunning] at h
    cases h
  have hrelease : stage = .release → s' = s.setPlace target { s.place target with
      availableSlots := (s.place target).availableSlots + 1, running := none } →
        JobStep acc s target s' := by
    rintro rfl rfl
    have hstep : JobStep acc s target (State.send _ target []) := .released hrunning []
    simpa only [State.send, List.map_nil, List.append_nil] using hstep
  cases job with
  | enter p =>
    cases stage with
    | body =>
      simp only [hrunning, Option.some.injEq] at h
      subst h
      unfold enterBody
      split_ifs with hfull
      · exact .refused hrunning (.inl hfull)
      · cases hfind : (s.place target).players.find? (acc.playerId p) with
        | some q =>
          simp only [State.registry, hfind]
          exact .refused hrunning (.inr (by rw [hfind]; rfl))
        | none =>
          simp only [State.registry, hfind]
          exact .inserted hrunning hfind
    | pointer =>
      simp only [hrunning, Option.some.injEq] at h
      subst h
      exact .pointer hrunning
    | index =>
      simp only [hrunning, Option.some.injEq] at h
      subst h
      exact .index hrunning
    | session =>
      simp only [hrunning] at h
      split_ifs at h with halive
      · obtain rfl := Option.some.inj h
        exact .entered hrunning halive
      · obtain rfl := Option.some.inj h
        exact .dead hrunning (by simpa using halive)
    | release =>
      simp only [hrunning, Option.some.injEq] at h
      exact hrelease rfl h.symm
  | exit p =>
    cases stage with
    | body =>
      simp only [hrunning] at h
      cases hfind : (s.place target).players.find? (acc.playerId p) with
      | none =>
        simp only [hfind, Option.some.injEq] at h
        subst h
        exact .absent hrunning hfind
      | some q =>
        simp only [hfind, Option.some.injEq] at h
        subst h
        exact .erased hrunning hfind
    | release =>
      simp only [hrunning, Option.some.injEq] at h
      cases hkind : target.kind with
      | lobby =>
        simp only [hkind] at h
        subst h
        exact .released hrunning _
      | room =>
        simp only [hkind] at h
        exact hrelease rfl h.symm
    | _ =>
      simp only [hrunning] at h
      cases h
  | chat p message =>
    cases stage with
    | release =>
      simp only [hrunning, Option.some.injEq] at h
      exact hrelease rfl h.symm
    | _ =>
      simp only [hrunning, Option.some.injEq] at h
      subst h
      exact .sent hrunning nofun nofun nofun _
  | broadcast packet =>
    cases stage with
    | release =>
      simp only [hrunning, Option.some.injEq] at h
      exact hrelease rfl h.symm
    | _ =>
      simp only [hrunning, Option.some.injEq] at h
      subst h
      exact .sent hrunning nofun nofun nofun _

end Steps

end Server

end DhNet
