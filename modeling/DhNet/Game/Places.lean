import DhNet.Lib.SortedMap
import DhNet.Game.PacketHandlers

/-!
# Lobbies and rooms

The jobs that run on a `Lobby` or a `Room`.  A job works on `m_players`, a map sorted by player id,
and its outcome says besides the new map whether it returns the reserved slot (`fetch_add` on
`m_availableSlots`), whether it sets the current lobby or room of the player, what it sends to the
members' sessions, and what it queues on its own place.

Every `GameSession` makes at most one `Player`, so a player and its session are one value of `P`
here; `Registry` holds what the jobs read of them.
-/

namespace DhNet

/-- `MAX_LOBBY_PLAYERS` of the server and `MAX_LOBBY_PLAYER` of the protocol. -/
def maxLobbyPlayers : ℕ := 50

/-- `MAX_LOBBY_COUNT`. -/
def maxLobbyCount : ℕ := 5

/-! ## Packets -/

/-- The packets that lobbies and rooms send, by their fields. -/
inductive Notice where
  | resLobbyEnter (lobbyIndex : ℕ) (players : List (ℕ × List UInt8))
  | notiLobbyPlayerEnter (playerId : ℕ) (playerName : List UInt8)
  | notiLobbyPlayerExit (playerId : ℕ) (playerName : List UInt8)
  | notiLobbyChat (playerId : ℕ) (playerName message : List UInt8)
  | notiRoomEnter (playerId : ℕ) (playerName : List UInt8)
  | notiRoomExit (playerId : ℕ) (playerName : List UInt8)
  | notiRoomChat (playerId : ℕ) (playerName message : List UInt8)
  deriving DecidableEq, Repr

/-- `ResLobbyEnter::AddPlayer` on the players listed so far. -/
def ResLobbyEnter.addPlayer (players : List (ℕ × List UInt8)) (playerId : ℕ)
    (playerName : List UInt8) : List (ℕ × List UInt8) :=
  if maxLobbyPlayers ≤ players.length then players
  else players ++ [(playerId, fieldChars playerName playerNameSize)]

/-- What the jobs read of the players: the id, the name, and whether the session object still
exists. -/
structure Registry (P : Type*) where
  playerId : P → ℕ
  playerName : P → List UInt8
  ownerSession : P → Bool

/-- What a job does. -/
structure JobOutcome (P : Type*) where
  players : SortedMap ℕ P
  release : Bool := false
  current : Bool := false
  sent : List (P × Notice) := []
  queued : List Notice := []

section Jobs

variable {P : Type*} (reg : Registry P)

/-- The name of a player in the field of a packet. -/
def Registry.nameField (p : P) : List UInt8 := fieldChars (reg.playerName p) playerNameSize

/-- `Lobby::Broadcast` and `Room::Broadcast`. -/
def broadcast (players : SortedMap ℕ P) (packet : Notice) : List (P × Notice) :=
  (players.entries.filter fun e => reg.ownerSession e.2).map fun e => (e.2, packet)

namespace Lobby

/-- What `Lobby::Enter` sends once the player is a member: a notice to the others and the list of
all members to the newcomer. -/
def welcome (lobbyIndex : ℕ) (players : SortedMap ℕ P) (p : P) : List (P × Notice) :=
  ((players.entries.filter fun e => e.1 ≠ reg.playerId p ∧ reg.ownerSession e.2 = true).map fun e =>
    (e.2, .notiLobbyPlayerEnter (reg.playerId p) (reg.nameField p))) ++
  [(p, .resLobbyEnter lobbyIndex (players.entries.foldl (fun listed e =>
    ResLobbyEnter.addPlayer listed (reg.playerId e.2) (reg.playerName e.2)) []))]

/-- `Lobby::Enter`. -/
def enter (lobbyIndex : ℕ) (players : SortedMap ℕ P) (p : P) : JobOutcome P :=
  match players.find? (reg.playerId p) with
  | some _ => { players := players, release := true }
  | none =>
      let joined := players.insert (reg.playerId p) p
      if reg.ownerSession p then
        { players := joined, current := true, sent := welcome reg lobbyIndex joined p }
      else { players := joined.erase (reg.playerId p), release := true, current := true }

/-- `Lobby::Exit`. -/
def exit (players : SortedMap ℕ P) (p : P) : JobOutcome P :=
  match players.find? (reg.playerId p) with
  | none => { players := players }
  | some _ =>
      let left := players.erase (reg.playerId p)
      { players := left
        release := true
        sent := broadcast reg left (.notiLobbyPlayerExit (reg.playerId p) (reg.nameField p)) }

/-- `Lobby::Chat`. -/
def chat (players : SortedMap ℕ P) (p : P) (message : List UInt8) : JobOutcome P :=
  { players := players
    sent := broadcast reg players
      (.notiLobbyChat (reg.playerId p) (reg.nameField p) (fieldChars message messageSize)) }

end Lobby

namespace Room

/-- `Room::Enter`; `Player::EnterRoom` queues the notice on the room. -/
def enter (players : SortedMap ℕ P) (p : P) : JobOutcome P :=
  if maxRoomPlayer ≤ players.size then { players := players, release := true }
  else
    match players.find? (reg.playerId p) with
    | some _ => { players := players, release := true }
    | none =>
        let joined := players.insert (reg.playerId p) p
        if reg.ownerSession p then
          { players := joined
            current := true
            queued := [.notiRoomEnter (reg.playerId p) (reg.nameField p)] }
        else { players := joined.erase (reg.playerId p), release := true, current := true }

/-- `Room::Leave`. -/
def leave (players : SortedMap ℕ P) (p : P) : JobOutcome P :=
  match players.find? (reg.playerId p) with
  | none => { players := players }
  | some _ => { players := players.erase (reg.playerId p), release := true }

end Room

end Jobs

end DhNet
