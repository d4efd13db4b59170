import DhNet.Game.GameSession

/-!
# The packet handlers of the server

The seven handlers that `GameServer::RegisterPacket` registers.  A handler receives a pointer to
`plainBuf` and casts it to the packet it expects, so it may read behind the plaintext and behind
`plainBuf`; reading behind the mapped part of the stack (`limit` bytes from `plainBuf` on) is an
access violation (`Output.fault`).

The state of the server is reduced to what the handlers read of it (`ServerView`): the results of
`AssignLobby` and of `GetNotFullRoom` or `MakeRoom` are given here.
-/

namespace DhNet

/-- What the handlers read and change of a `Player`. -/
structure PlayerView where
  playerId : ℕ
  name : List UInt8
  currentLobby : Option ℕ
  currentRoom : Option ℕ
  deriving DecidableEq

/-- What the handlers read and change of the session and of the server: the player of the session,
whether there is a `DbSystem`, the room that `GetNotFullRoom` finds or `MakeRoom` makes, the lobby
that `AssignLobby` returns, index and size of the rooms, and the contents of the send chunk that is
allocated next. -/
structure ServerView where
  player : Option PlayerView
  hasDbSystem : Bool
  notFullRoom : ℕ
  assignedLobby : Option ℕ
  rooms : List (ℕ × ℕ)
  chunk : Pointer

/-- What a handler queues on a lobby or a room or submits to `DbSystem`. -/
inductive Output where
  | lobbyEnter (lobby playerId : ℕ)
  | lobbyExit (lobby playerId : ℕ)
  | lobbyChat (lobby playerId : ℕ) (message : List UInt8)
  | roomEnter (room playerId : ℕ)
  | roomLeave (room playerId : ℕ)
  | roomExitNotice (room playerId : ℕ) (name : List UInt8)
  | roomChatNotice (room playerId : ℕ) (name message : List UInt8)
  | authenticate (username password : List UInt8)
  | fault
  deriving DecidableEq, Repr

/-! ## Strings -/

/-- The characters of a C string in a field of `size` bytes, read by a bounded copy. -/
def boundedString (p : Pointer) (size : ℕ) : List UInt8 := (p.bytes size).takeWhile (· != 0)

/-- The characters of a C string of which `size` bytes are mapped; `none` when the terminator is
not among them. -/
def cString (p : Pointer) (size : ℕ) : Option (List UInt8) :=
  if (0 : UInt8) ∈ p.bytes size then some (boundedString p size) else none

/-- The characters that `strncpy_s` copies of a string into a field of `size` bytes. -/
def fieldChars (text : List UInt8) (size : ℕ) : List UInt8 :=
  (text.takeWhile (· != 0)).take (size - 1)

/-! ## Packets -/

/-- `sizeof(m_username)`. -/
def usernameSize : ℕ := 16

/-- `sizeof(m_password)`. -/
def passwordSize : ℕ := 64

/-- `sizeof(m_playerName)`. -/
def playerNameSize : ℕ := 16

/-- `sizeof(m_message)`. -/
def messageSize : ℕ := 256

/-- `MAX_ROOM_PLAYER`. -/
def maxRoomPlayer : ℕ := 8

/-- The answer to a rejected login. -/
def resLoginFailed (chunk : Pointer) : Pointer :=
  .overlay (PacketHeader.init .resLoginFailed sizeofPacketHeader) chunk

/-- `sizeof(TestPacket)`. -/
def sizeofTestPacket : ℕ := sizeofPacketHeader + 256

/-- The answer to a test packet, `"Test(Server)"` with its terminator. -/
def testPacket (chunk : Pointer) : Pointer :=
  .overlay (PacketHeader.init .test sizeofTestPacket ++
    [84, 101, 115, 116, 40, 83, 101, 114, 118, 101, 114, 41, 0]) chunk

/-- An `int32` in little-endian order. -/
def int32Bytes (n : ℕ) : List UInt8 := uint16Bytes n ++ uint16Bytes (n / 65536)

/-- `sizeof(ResRoomList)`. -/
def sizeofResRoomList : ℕ := sizeofPacketHeader + 4 + 20 * 12

/-- `ResRoomList` filled by `AddRoom`, which keeps the first 20 rooms. -/
def resRoomList (rooms : List (ℕ × ℕ)) : List UInt8 :=
  let body := (rooms.take 20).flatMap fun (index, count) =>
    int32Bytes index ++ int32Bytes count ++ int32Bytes maxRoomPlayer
  PacketHeader.init .resRoomList sizeofResRoomList ++ int32Bytes (rooms.take 20).length ++ body ++
    List.replicate (20 * 12 - body.length) 0

/-! ## The methods of `Player` -/

namespace PlayerView

/-- `Player::LeaveLobby`. -/
def leaveLobby (player : PlayerView) : PlayerView × List Output :=
  ({ player with currentLobby := none },
    match player.currentLobby with
    | some lobby => [.lobbyExit lobby player.playerId]
    | none => [])

/-- `Player::LeaveRoom`. -/
def leaveRoom (player : PlayerView) : PlayerView × List Output :=
  ({ player with currentRoom := none },
    match player.currentRoom with
    | some room => [.roomLeave room player.playerId,
        .roomExitNotice room player.playerId (fieldChars player.name playerNameSize)]
    | none => [])

/-- `Player::LeaveRoomAndReenterLobby`, with the result of `AssignLobby`. -/
def leaveRoomAndReenterLobby (player : PlayerView) (assigned : Option ℕ) :
    PlayerView × List Output :=
  (player.leaveRoom.1, player.leaveRoom.2 ++
    match assigned with
    | some lobby => [.lobbyEnter lobby player.playerId]
    | none => [])

/-- `Player::RoomChat`. -/
def roomChat (player : PlayerView) (message : List UInt8) : List Output :=
  match player.currentRoom with
  | some room => [.roomChatNotice room player.playerId (fieldChars player.name playerNameSize)
      (fieldChars message messageSize)]
  | none => []

/-- `Player::LobbyChat`. -/
def lobbyChat (player : PlayerView) (message : List UInt8) : List Output :=
  match player.currentLobby with
  | some lobby => [.lobbyChat lobby player.playerId message]
  | none => []

end PlayerView

/-! ## The handlers -/

/-- The outcome of a handler that only queues. -/
def queued (result : Bool) (view : ServerView) (outputs : List Output) :
    HandlerReply ServerView Output :=
  ⟨result, outputs.map .output, view⟩

/-- A handler that starts by fetching the player. -/
def withPlayer (view : ServerView) (handler : PlayerView → HandlerReply ServerView Output) :
    HandlerReply ServerView Output :=
  match view.player with
  | none => queued false view []
  | some player => handler player

/-- A chat handler: it constructs a `std::string` from the message behind the header. -/
def handleChat (chat : PlayerView → List UInt8 → List Output) (limit : ℕ) (view : ServerView)
    (p : Pointer) : HandlerReply ServerView Output :=
  withPlayer view fun player =>
    match cString (p.advance sizeofPacketHeader) (limit - sizeofPacketHeader) with
    | none => queued false view [.fault]
    | some message => queued true view (chat player message)

/-- `HandleReqLobbyChatPacket`. -/
def handleReqLobbyChatPacket (limit : ℕ) (view : ServerView) (p : Pointer) :
    HandlerReply ServerView Output :=
  handleChat PlayerView.lobbyChat limit view p

/-- `HandleReqRoomChatPacket`. -/
def handleReqRoomChatPacket (limit : ℕ) (view : ServerView) (p : Pointer) :
    HandlerReply ServerView Output :=
  handleChat PlayerView.roomChat limit view p

/-- `HandleReqRoomListPacket`. -/
def handleReqRoomListPacket (view : ServerView) (_ : Pointer) : HandlerReply ServerView Output :=
  withPlayer view fun _ => ⟨true, [.send (.ofList (resRoomList view.rooms))], view⟩

/-- `HandleReqRoomEnterPacket`. -/
def handleReqRoomEnterPacket (view : ServerView) (_ : Pointer) : HandlerReply ServerView Output :=
  withPlayer view fun player =>
    queued true { view with player := some player.leaveLobby.1 }
      (player.leaveLobby.2 ++ [.roomEnter view.notFullRoom player.playerId])

/-- `HandleReqRoomExitPacket`. -/
def handleReqRoomExitPacket (view : ServerView) (_ : Pointer) : HandlerReply ServerView Output :=
  withPlayer view fun player =>
    queued true
      { view with player := some (player.leaveRoomAndReenterLobby view.assignedLobby).1 }
      (player.leaveRoomAndReenterLobby view.assignedLobby).2

/-- `HandleReqLoginPacket`. -/
def handleReqLoginPacket (view : ServerView) (p : Pointer) : HandlerReply ServerView Output :=
  let username := boundedString (p.advance sizeofPacketHeader) usernameSize
  let password := boundedString (p.advance (sizeofPacketHeader + usernameSize)) passwordSize
  if username.length < 4 ∨ 16 < username.length ∨ password.length < 8 ∨ 64 < password.length then
    ⟨true, [.send (resLoginFailed view.chunk)], view⟩
  else if view.hasDbSystem then queued true view [.authenticate username password]
  else ⟨true, [.send (resLoginFailed view.chunk)], view⟩

/-- `HandleTestPacket`. -/
def handleTestPacket (view : ServerView) (_ : Pointer) : HandlerReply ServerView Output :=
  ⟨true, [.send (testPacket view.chunk)], view⟩

/-- The packets for which a handler is registered. -/
def registered : List PacketEnum :=
  [.test, .reqRoomEnter, .reqLogin, .reqRoomChat, .reqRoomExit, .reqLobbyChat, .reqRoomList]

/-- The registered packet with this number. -/
def findRegistered (num : ℕ) : Option PacketEnum := registered.find? fun packet => packet.num = num

/-- `GameServer::RegisterPacket`, on a stack with `limit` mapped bytes from `plainBuf` on. -/
def gameHandler (limit : ℕ) : PacketEnum → ServerView → Pointer → HandlerReply ServerView Output
  | .test => handleTestPacket
  | .reqRoomEnter => handleReqRoomEnterPacket
  | .reqLogin => handleReqLoginPacket
  | .reqRoomChat => handleReqRoomChatPacket limit
  | .reqRoomExit => handleReqRoomExitPacket
  | .reqLobbyChat => handleReqLobbyChatPacket limit
  | .reqRoomList => handleReqRoomListPacket
  | _ => fun view _ => queued false view []

/-- `GameSession::OnDisconnected` resets the player of the session. -/
def leaveEverything (view : ServerView) : ServerView := { view with player := none }

/-- The handlers of the server. -/
def gameHandlers (limit : ℕ) : Handlers ServerView Output where
  find num := (findRegistered num).map (gameHandler limit)
  onDisconnected := leaveEverything

end DhNet
