import DhNet.Game.Server
import DhNet.Util.JobQueue

/-!
# The loops over the members of a place

`Lobby::Enter`, `Lobby::Broadcast` and `Room::Broadcast` go through `m_players` and call `Send` on
the sessions of the members.  A `Send` that finds the connection reset disconnects the session on
the spot, and `OnDisconnected` queues an `Exit` or a `Leave`, all on the thread that is in the
middle of the loop.

The lobbies and rooms are job queues of `DhNet.Util.JobQueue` here, and so are the temporary queues
of `ThreadManager::PushGlobalQueue`; the second entry that such a queue gets in the global queue
finds it empty and is left out.  While a job of a place runs, its thread goes through the statements
of the body.  An iterator is the key of the element it stands on, so that a change of the map under
it matters.

Threads outside of the places queue any job at any time, and everything else that happens to the
clients is arbitrary (`Op.client`), except that a session object that was destroyed does not come
back.  The slots, `PlayerSystem` and the locks of the sessions are left out.
-/

namespace DhNet

namespace BroadcastLoop

open Server (Kind PlaceId Job Client Accounts)

/-! ## The bodies of the jobs -/

/-- The loops: over the members that are told of a newcomer, over the members that the newcomer is
told of, and over all members. -/
inductive Loop where
  | notiLobbyPlayerEnter (playerId : ℕ)
  | resLobbyEnter
  | broadcast
  deriving DecidableEq

/-- The loop sends to the member with this id. -/
def Loop.addresses : Loop → ℕ → Bool
  | .notiLobbyPlayerEnter playerId, id => id ≠ playerId
  | .resLobbyEnter, _ => false
  | .broadcast, _ => true

/-- The point the body of a job has reached.  An iterator is the key of its element, or `none` at
the end; `visited` lists the members addressed so far, and whether `Send` was called. -/
inductive BodyPc (P : Type*) where
  | start
  | pointer
  | index
  | session
  | element (loop : Loop) (it : Option ℕ) (visited : List (P × Bool))
  | advance (loop : Loop) (key : ℕ) (visited : List (P × Bool))
  | welcome
  | finished
  deriving DecidableEq

/-- The body of a running job, and the session that a `Send` in it is disconnecting. -/
structure Body (P : Type*) where
  pc : BodyPc P
  disconnect : Option P
  deriving DecidableEq

/-- What a statement of a body leaves: `m_players`, the clients, the rest of the body, and the
`DoAsync` that it makes. -/
structure Outcome (P : Type*) where
  players : SortedMap ℕ P
  client : P → Client
  body : Body P
  call : Option (PlaceId × Job P) := none

section Bodies

variable {P : Type*} [DecidableEq P] (acc : Accounts P) (q : PlaceId) (players : SortedMap ℕ P)
  (client : P → Client)

/-- What the jobs read of the players. -/
def registry : Registry P where
  playerId := acc.playerId
  playerName := acc.playerName
  ownerSession p := (client p).alive

/-- The body goes on here. -/
def goOn (pc : BodyPc P) : Outcome P := { players, client, body := ⟨pc, none⟩ }

/-- The body begins a loop. -/
def iterate (loop : Loop) : Outcome P := goOn players client (.element loop players.firstKey [])

/-- `Send` on the session of `r`, after which the body goes on at `pc`; `reset` says that the
connection turns out to be reset. -/
def send (r : P) (reset : Bool) (pc : BodyPc P) : Outcome P :=
  if reset ∧ (client r).connected then
    { players
      client := Function.update client r
        { client r with connected := false, disconnect := .hasPlayer }
      body := ⟨pc, some r⟩ }
  else goOn players client pc

/-- The first statements of a job. -/
def startJob : Job P → Outcome P
  | .enter p =>
      let body := Server.enterBody q.kind (registry acc client) players p
      goOn body.1 client (if body.2 = .pointer then .pointer else .finished)
  | .exit p =>
      match players.find? (acc.playerId p) with
      | none => goOn players client .finished
      | some _ =>
          let left := players.erase (acc.playerId p)
          match q.kind with
          | .lobby => iterate left client .broadcast
          | .room => goOn left client .finished
  | .chat _ _ => iterate players client .broadcast
  | .broadcast _ => iterate players client .broadcast

/-- The end of `Lobby::Enter` and `Room::Enter` from `GetOwnerSession` on, with the `DoAsync` of
`Player::EnterRoom`. -/
def enterSession (p : P) : Outcome P :=
  if (client p).alive then
    match q.kind with
    | .lobby => iterate players client (.notiLobbyPlayerEnter (acc.playerId p))
    | .room =>
        { goOn players client .finished with
          call := ((client p).current .room).map fun index => (⟨.room, index⟩,
            .broadcast (.notiRoomEnter (acc.playerId p) ((registry acc client).nameField p))) }
  else goOn (players.erase (acc.playerId p)) client .finished

/-- One turn of a loop on the element with this key; nothing is defined for an iterator whose
element is gone. -/
def visit (reset : Bool) (loop : Loop) (key : ℕ) (visited : List (P × Bool)) : Option (Outcome P) :=
  (players.find? key).map fun r =>
    if loop.addresses key then
      if (client r).alive then
        send players client r reset (.advance loop key (visited ++ [(r, true)]))
      else goOn players client (.advance loop key (visited ++ [(r, false)]))
    else goOn players client (.advance loop key visited)

/-- What follows a loop. -/
def Loop.done : Loop → Outcome P
  | .notiLobbyPlayerEnter _ => iterate players client .resLobbyEnter
  | .resLobbyEnter => goOn players client .welcome
  | .broadcast => goOn players client .finished

/-- The next statement of the body of a job. -/
def bodyStep (task : Option (Job P)) (reset : Bool) : BodyPc P → Option (Outcome P)
  | .start => task.map (startJob acc q players client)
  | .pointer =>
      match task with
      | some (.enter p) =>
          some (goOn players (Function.update client p
            ((client p).setCurrent q.kind (some q.index))) .index)
      | _ => none
  | .index =>
      match task with
      | some (.enter p) =>
          some (goOn players
            (Function.update client p ((client p).setIndex q.kind q.index)) .session)
      | _ => none
  | .session =>
      match task with
      | some (.enter p) => some (enterSession acc q players client p)
      | _ => none
  | .element loop none _ => some (loop.done players client)
  | .element loop (some key) visited => visit players client reset loop key visited
  | .advance loop key visited =>
      some (goOn players client (.element loop (players.keyAfter key) visited))
  | .welcome =>
      match task with
      | some (.enter p) => some (send players client p reset .finished)
      | _ => none
  | .finished => none

/-- The next statement of the `Disconnect` of `r` inside a `Send`. -/
def disconnectStep (pc : BodyPc P) (r : P) : Outcome P :=
  match Server.onDisconnected acc r (client r) with
  | none => goOn players client pc
  | some (c, e) =>
      { players
        client := Function.update client r c
        body := ⟨pc, some r⟩
        call := match e with
          | .doAsync target job => some (target, job)
          | _ => none }

end Bodies

/-! ## The threads -/

/-- The queues: places, and the temporary queues of callbacks. -/
inductive Queue where
  | place (target : PlaceId)
  | callback (n : ℕ)
  deriving DecidableEq

/-- The queues with their threads, the clients, `m_players` of the places, and the bodies of the
jobs of places that run on each thread, innermost first.  A callback is the job `none`. -/
structure State (P T : Type*) where
  queues : JobQueue.State Queue (Option (Job P)) T
  client : P → Client
  players : PlaceId → SortedMap ℕ P
  body : T → List (Body P)

/-- What a thread does: queue a job from outside, queue a callback, take up the global queue, go on
inside the queues, make the next statement of a job or of the `Disconnect` inside it; or something
happens to a client. -/
inductive Op (P : Type*) where
  | doAsync (target : PlaceId) (job : Job P)
  | pushGlobalQueue (n : ℕ)
  | doGlobalQueueWork
  | next (timeUp : Bool)
  | body (reset : Bool)
  | onDisconnected
  | client (p : P) (c : Client)

section Model

variable {P T : Type*} [DecidableEq P] [DecidableEq T] (acc : Accounts P)

def State.setBody (s : State P T) (t : T) (body : List (Body P)) : State P T :=
  { s with body := Function.update s.body t body }

/-- Thread `t` makes a step inside the queues. -/
def State.queueStep (s : State P T) (t : T) (op : JobQueue.Op Queue (Option (Job P))) :
    Option (State P T) :=
  (JobQueue.step s.queues (t, op)).map fun queues => { s with queues := queues }

/-- `DoAsync` on a place. -/
def State.doAsync (s : State P T) (t : T) (target : PlaceId) (job : Job P) : Option (State P T) :=
  s.queueStep t (.doAsync (.place target) (some job))

/-- What a statement of the innermost job of thread `t`, a job of `q`, leaves. -/
def State.apply (s : State P T) (t : T) (q : PlaceId) (o : Outcome P) : State P T :=
  { s with
    players := Function.update s.players q o.players
    client := o.client
    body := Function.update s.body t (o.body :: (s.body t).tail) }

/-- A statement of the innermost job of thread `t`, with the `DoAsync` that it makes. -/
def State.statement (s : State P T) (t : T) (q : PlaceId) (o : Outcome P) : Option (State P T) :=
  match o.call with
  | none => some (s.apply t q o)
  | some (target, job) => (s.apply t q o).doAsync t target job

/-- One step of thread `a.1`. -/
def step (s : State P T) (a : T × Op P) : Option (State P T) :=
  match a.2, (s.queues.thread a.1).stack with
  | .doAsync target job, [] => s.doAsync a.1 target job
  | .doAsync target job, .execute (.callback _) (.running _ _ _) :: _ => s.doAsync a.1 target job
  | .pushGlobalQueue n, [] => s.queueStep a.1 (.doAsync (.callback n) none)
  | .doGlobalQueueWork, _ => s.queueStep a.1 .doGlobalQueueWork
  | .next timeUp, .execute (.place _) (.run (_ :: _) _) :: _ =>
      (s.setBody a.1 (⟨.start, none⟩ :: s.body a.1)).queueStep a.1 (.next timeUp)
  | .next timeUp, .execute (.place _) (.running _ _ _) :: _ =>
      match s.body a.1 with
      | ⟨.finished, none⟩ :: bodies => (s.setBody a.1 bodies).queueStep a.1 (.next timeUp)
      | _ => none
  | .next timeUp, _ => s.queueStep a.1 (.next timeUp)
  | .body reset, .execute (.place q) (.running task _ _) :: _ =>
      match s.body a.1 with
      | ⟨pc, none⟩ :: _ =>
          (bodyStep acc q (s.players q) s.client task reset pc).bind (s.statement a.1 q)
      | _ => none
  | .onDisconnected, .execute (.place q) (.running _ _ _) :: _ =>
      match s.body a.1 with
      | ⟨pc, some r⟩ :: _ => s.statement a.1 q (disconnectStep acc (s.players q) s.client pc r)
      | _ => none
  | .client p c, _ =>
      if c.alive ∧ (s.client p).alive = false then none
      else some { s with client := Function.update s.client p c }
  | _, _ => none

/-- Any clients and any members, under their ids, and no jobs. -/
structure Initial (s : State P T) : Prop where
  queues : s.queues = .initial
  keyed : ∀ q id p, (s.players q).find? id = some p → acc.playerId p = id
  body : ∀ t, s.body t = []

/-- The places with their threads. -/
def system (T : Type*) [DecidableEq T] : Transition.System (State P T) (T × Op P) :=
  ⟨Initial acc, step acc⟩

end Model

end BroadcastLoop

end DhNet
