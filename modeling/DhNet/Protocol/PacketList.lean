import DhNet.Lib.Memory
import DhNet.Game.SessionSenders

/-!
# The packets of the protocol

The packet classes of `PacketList.h`, as the stores that `Alloc`, `Init`, `AddPlayer` and `AddRoom`
make into a chunk of the send pool.  The chunk is not cleared before, so a packet shows what the
chunk held wherever nothing is stored.  The handshake packets and `EncryptedPacket` are in
`DhNet.Protocol.Packet`.

* `packets_read_back`: the receiver reads what was written, cut to the sizes of the fields, whatever
  the chunk held; and every packet is small enough for `SendEncrypted`.
* `touched_writes`: which bytes of the chunk a packet overwrites.
-/

namespace DhNet

open Memory

/-- `PlayerInfo`. -/
structure PlayerInfo where
  playerId : ℕ
  playerName : List UInt8
  deriving DecidableEq, Repr

/-- `RoomInfo`. -/
structure RoomInfo where
  roomIndex : ℕ
  playerCount : ℕ
  maxPlayers : ℕ
  deriving DecidableEq, Repr

/-- A packet with the arguments of its `Init`, of the calls of `AddPlayer` or `AddRoom`, or of the
`strcpy_s` into `m_test`. -/
inductive Message where
  | test (text : List UInt8)
  | reqLogin (username password : List UInt8)
  | resLogin (playerId : ℕ) (name : List UInt8)
  | resLoginFailed
  | resLobbyEnter (lobbyIndex : ℕ) (players : List PlayerInfo)
  | notiLobbyPlayerEnter (playerId : ℕ) (name : List UInt8)
  | notiLobbyPlayerExit (playerId : ℕ) (name : List UInt8)
  | reqLobbyChat (message : List UInt8)
  | notiLobbyChat (playerId : ℕ) (name message : List UInt8)
  | reqRoomList
  | resRoomList (rooms : List RoomInfo)
  | reqRoomEnter
  | resRoomEnter (isSuccess : Bool)
  | notiRoomEnter (playerId : ℕ) (name : List UInt8)
  | reqRoomChat (message : List UInt8)
  | notiRoomChat (playerId : ℕ) (name message : List UInt8)
  | reqRoomExit
  | resRoomExit (isSuccess : Bool)
  | notiRoomExit (playerId : ℕ) (name : List UInt8)
  deriving DecidableEq, Repr

namespace Message

/-! ## Writing a packet -/

/-- `MAX_LOBBY_PLAYER`. -/
def maxLobbyPlayer : ℕ := 50

/-- The size of `m_rooms`. -/
def maxRooms : ℕ := 20

def num : Message → PacketEnum
  | .test _ => .test
  | .reqLogin _ _ => .reqLogin
  | .resLogin _ _ => .resLogin
  | .resLoginFailed => .resLoginFailed
  | .resLobbyEnter _ _ => .resLobbyEnter
  | .notiLobbyPlayerEnter _ _ => .notiLobbyPlayerEnter
  | .notiLobbyPlayerExit _ _ => .notiLobbyPlayerExit
  | .reqLobbyChat _ => .reqLobbyChat
  | .notiLobbyChat _ _ _ => .notiLobbyChat
  | .reqRoomList => .reqRoomList
  | .resRoomList _ => .resRoomList
  | .reqRoomEnter => .reqRoomEnter
  | .resRoomEnter _ => .resRoomEnter
  | .notiRoomEnter _ _ => .notiRoomEnter
  | .reqRoomChat _ => .reqRoomChat
  | .notiRoomChat _ _ _ => .notiRoomChat
  | .reqRoomExit => .reqRoomExit
  | .resRoomExit _ => .resRoomExit
  | .notiRoomExit _ _ => .notiRoomExit

/-- A `char` array that is filled by `strncpy_s`, with its last byte set to zero. -/
def textField (size : ℕ) (text : List UInt8) : Field := .text (size - 1) text

/-- An array cleared by `memset`. -/
def clearedField (size : ℕ) : Field := .raw size (List.replicate size 0)

/-- A `bool`. -/
def boolField (b : Bool) : Field := .number 1 b.toNat

/-- `m_playerId` and `m_playerName`. -/
def playerFields (playerId : ℕ) (name : List UInt8) : List Field :=
  [.number 8 playerId, textField playerNameSize name]

/-- `m_playerId`, `m_playerName` and `m_message`. -/
def chatFields (playerId : ℕ) (name message : List UInt8) : List Field :=
  [.number 8 playerId, textField playerNameSize name, textField messageSize message]

/-- The members behind the header, as `Init` leaves them. -/
def body : Message → List Field
  | .test text => [.raw 256 (textChars 255 text ++ [0])]
  | .reqLogin username password =>
      [textField usernameSize username, textField passwordSize password]
  | .resLogin playerId name => playerFields playerId name
  | .resLoginFailed => []
  | .resLobbyEnter lobbyIndex _ =>
      [.number 4 lobbyIndex, .number 4 0, clearedField (24 * maxLobbyPlayer)]
  | .notiLobbyPlayerEnter playerId name => playerFields playerId name
  | .notiLobbyPlayerExit playerId name => playerFields playerId name
  | .reqLobbyChat message => [textField messageSize message]
  | .notiLobbyChat playerId name message => chatFields playerId name message
  | .reqRoomList => []
  | .resRoomList _ => [.number 4 0, clearedField (12 * maxRooms)]
  | .reqRoomEnter => []
  | .resRoomEnter isSuccess => [boolField isSuccess]
  | .notiRoomEnter playerId name => playerFields playerId name
  | .reqRoomChat message => [textField messageSize message]
  | .notiRoomChat playerId name message => chatFields playerId name message
  | .reqRoomExit => []
  | .resRoomExit isSuccess => [boolField isSuccess]
  | .notiRoomExit playerId name => playerFields playerId name

/-- `m_players` with `m_playerCount`. -/
def playerArray : CountedArray := ⟨maxLobbyPlayer, 8, 12, 24, by decide, by decide⟩

/-- `m_rooms` with `m_roomCount`. -/
def roomArray : CountedArray := ⟨maxRooms, 4, 8, 12, by decide, by decide⟩

def playerEntry (player : PlayerInfo) : List Field := playerFields player.playerId player.playerName

def roomEntry (room : RoomInfo) : List Field :=
  [.number 4 room.roomIndex, .number 4 room.playerCount, .number 4 room.maxPlayers]

/-- The stores of `AddPlayer` and `AddRoom`. -/
def added : Message → List (ℕ × List UInt8)
  | .resLobbyEnter _ players => playerArray.addAll playerEntry 0 players
  | .resRoomList rooms => roomArray.addAll roomEntry 0 rooms
  | _ => []

/-- The size of the packet class. -/
def size (m : Message) : ℕ := sizeofPacketHeader + recordSize m.body

/-- The header and the members behind it. -/
def fields (m : Message) : List Field := .number 2 m.num.num :: .number 2 m.size :: m.body

/-- All stores: the `m_dataSize` that `Sender::Alloc` writes, those of `Init`, and those of
`AddPlayer` or `AddRoom`. -/
def writes (m : Message) : List (ℕ × List UInt8) :=
  (2, leBytes 2 m.size) :: (record m.fields 0 ++ m.added)

/-- The packet in a chunk. -/
def packet (m : Message) (chunk : Pointer) : Pointer := stores chunk m.writes

/-! ## Reading a packet -/

/-- A number at an offset of a packet. -/
def numberAt (p : Pointer) (offset size : ℕ) : ℕ := leValue (load p offset size)

/-- A C string in a `char` array of a packet. -/
def textAt (p : Pointer) (offset size : ℕ) : List UInt8 := (load p offset size).takeWhile (· != 0)

/-- `m_players[i]`, at its offset. -/
def readPlayer (p : Pointer) (offset : ℕ) : PlayerInfo :=
  ⟨numberAt p offset 8, textAt p (offset + 8) playerNameSize⟩

/-- `m_rooms[i]`, at its offset. -/
def readRoom (p : Pointer) (offset : ℕ) : RoomInfo :=
  ⟨numberAt p offset 4, numberAt p (offset + 4) 4, numberAt p (offset + 8) 4⟩

/-- The entries of an array, as many as its counter says. -/
def readArray {α : Type*} (A : CountedArray) (read : Pointer → ℕ → α) (p : Pointer) : List α :=
  (List.range (A.count p)).map fun i => read p (A.entryAt i)

/-- The members of the packet class that belongs to the packet number. -/
def read (p : Pointer) : PacketEnum → Option Message
  | .test => some (.test (textAt p 4 256))
  | .reqLogin => some (.reqLogin (textAt p 4 usernameSize) (textAt p 20 passwordSize))
  | .resLogin => some (.resLogin (numberAt p 4 8) (textAt p 12 playerNameSize))
  | .resLoginFailed => some .resLoginFailed
  | .resLobbyEnter => some (.resLobbyEnter (numberAt p 4 4) (readArray playerArray readPlayer p))
  | .notiLobbyPlayerEnter =>
      some (.notiLobbyPlayerEnter (numberAt p 4 8) (textAt p 12 playerNameSize))
  | .notiLobbyPlayerExit =>
      some (.notiLobbyPlayerExit (numberAt p 4 8) (textAt p 12 playerNameSize))
  | .reqLobbyChat => some (.reqLobbyChat (textAt p 4 messageSize))
  | .notiLobbyChat =>
      some (.notiLobbyChat (numberAt p 4 8) (textAt p 12 playerNameSize) (textAt p 28 messageSize))
  | .reqRoomList => some .reqRoomList
  | .resRoomList => some (.resRoomList (readArray roomArray readRoom p))
  | .reqRoomEnter => some .reqRoomEnter
  | .resRoomEnter => some (.resRoomEnter (numberAt p 4 1 != 0))
  | .notiRoomEnter => some (.notiRoomEnter (numberAt p 4 8) (textAt p 12 playerNameSize))
  | .reqRoomChat => some (.reqRoomChat (textAt p 4 messageSize))
  | .notiRoomChat =>
      some (.notiRoomChat (numberAt p 4 8) (textAt p 12 playerNameSize) (textAt p 28 messageSize))
  | .reqRoomExit => some .reqRoomExit
  | .resRoomExit => some (.resRoomExit (numberAt p 4 1 != 0))
  | .notiRoomExit => some (.notiRoomExit (numberAt p 4 8) (textAt p 12 playerNameSize))
  | _ => none

/-! ## What is left of the arguments -/

/-- A text of which an array of this size takes the first characters. -/
def cut (size : ℕ) (text : List UInt8) : List UInt8 := textChars (size - 1) text

def cutId (playerId : ℕ) : ℕ := playerId % 256 ^ 8

def cutInt (n : ℕ) : ℕ := n % 256 ^ 4

def cutPlayer (player : PlayerInfo) : PlayerInfo :=
  ⟨cutId player.playerId, cut playerNameSize player.playerName⟩

def cutRoom (room : RoomInfo) : RoomInfo :=
  ⟨cutInt room.roomIndex, cutInt room.playerCount, cutInt room.maxPlayers⟩

/-- The message that arrives: texts are cut to their arrays, numbers to their types, and only the
first players and rooms are kept. -/
def wire : Message → Message
  | .test text => .test (cut 256 text)
  | .reqLogin username password => .reqLogin (cut usernameSize username) (cut passwordSize password)
  | .resLogin playerId name => .resLogin (cutId playerId) (cut playerNameSize name)
  | .resLoginFailed => .resLoginFailed
  | .resLobbyEnter lobbyIndex players =>
      .resLobbyEnter (cutInt lobbyIndex) ((players.take maxLobbyPlayer).map cutPlayer)
  | .notiLobbyPlayerEnter playerId name =>
      .notiLobbyPlayerEnter (cutId playerId) (cut playerNameSize name)
  | .notiLobbyPlayerExit playerId name =>
      .notiLobbyPlayerExit (cutId playerId) (cut playerNameSize name)
  | .reqLobbyChat message => .reqLobbyChat (cut messageSize message)
  | .notiLobbyChat playerId name message =>
      .notiLobbyChat (cutId playerId) (cut playerNameSize name) (cut messageSize message)
  | .reqRoomList => .reqRoomList
  | .resRoomList rooms => .resRoomList ((rooms.take maxRooms).map cutRoom)
  | .reqRoomEnter => .reqRoomEnter
  | .resRoomEnter isSuccess => .resRoomEnter isSuccess
  | .notiRoomEnter playerId name => .notiRoomEnter (cutId playerId) (cut playerNameSize name)
  | .reqRoomChat message => .reqRoomChat (cut messageSize message)
  | .notiRoomChat playerId name message =>
      .notiRoomChat (cutId playerId) (cut playerNameSize name) (cut messageSize message)
  | .reqRoomExit => .reqRoomExit
  | .resRoomExit isSuccess => .resRoomExit isSuccess
  | .notiRoomExit playerId name => .notiRoomExit (cutId playerId) (cut playerNameSize name)

/-! ## Single members -/

/-- The offset from which on `AddPlayer` and `AddRoom` store. -/
def addedAt : Message → ℕ
  | .resLobbyEnter _ _ => playerArray.countAt
  | .resRoomList _ => roomArray.countAt
  | m => m.size

@[simp] theorem size_textField (size : ℕ) (text : List UInt8) :
    (textField size text).size = size - 1 + 1 := rfl

@[simp] theorem size_clearedField (n : ℕ) : (clearedField n).size = n := rfl

@[simp] theorem size_boolField (b : Bool) : (boolField b).size = 1 := rfl

@[simp] theorem recordSize_playerFields (playerId : ℕ) (name : List UInt8) :
    recordSize (playerFields playerId name) = 24 := by
  simp [playerFields, playerNameSize]

@[simp] theorem recordSize_chatFields (playerId : ℕ) (name message : List UInt8) :
    recordSize (chatFields playerId name message) = 280 := by
  simp [chatFields, playerNameSize, messageSize]

theorem size_le (m : Message) : m.size ≤ maxPlainPacketSize := by
  cases m <;> simp [size, body, sizeofPacketHeader, usernameSize, passwordSize, messageSize,
    maxLobbyPlayer, maxRooms, maxPlainPacketSize]

theorem four_le_addedAt (m : Message) : 4 ≤ m.addedAt := by
  cases m <;> simp [addedAt, size, sizeofPacketHeader, playerArray, roomArray]

theorem addedAt_le_size (m : Message) : m.addedAt ≤ m.size := by
  cases m <;> simp [addedAt, size, body, sizeofPacketHeader, maxLobbyPlayer, playerArray, roomArray]

variable (m : Message) (chunk : Pointer)

theorem packet_eq : m.packet chunk =
    stores (stores (store chunk 2 (leBytes 2 m.size)) (record m.fields 0)) m.added := by
  rw [packet, writes, ← stores_append]
  rfl

theorem within_added : Within m.added m.addedAt (m.size - m.addedAt) := by
  cases m with
  | resLobbyEnter lobbyIndex players =>
    have hend : playerArray.entryAt playerArray.capacity =
        size (.resLobbyEnter lobbyIndex players) := by
      simp [CountedArray.entryAt, playerArray, size, body, sizeofPacketHeader, maxLobbyPlayer]
    have hentry : ∀ player, recordSize (playerEntry player) ≤ playerArray.stride :=
      fun _ => by simp [playerEntry, playerArray]
    have hwithin := playerArray.within_addAll hentry players 0
    rwa [hend] at hwithin
  | resRoomList rooms =>
    have hend : roomArray.entryAt roomArray.capacity = size (.resRoomList rooms) := by
      simp [CountedArray.entryAt, roomArray, size, body, sizeofPacketHeader, maxRooms]
    have hentry : ∀ room, recordSize (roomEntry room) ≤ roomArray.stride :=
      fun _ => by simp [roomEntry, roomArray]
    have hwithin := roomArray.within_addAll hentry rooms 0
    rwa [hend] at hwithin
  | _ => exact fun w hw => absurd hw List.not_mem_nil

theorem recordSize_fields : recordSize m.fields = m.size := by
  rw [fields, recordSize_cons, recordSize_cons, size, ← Nat.add_assoc]
  rfl

/-- A packet is written inside its class. -/
theorem within_writes : Within m.writes 0 m.size := by
  have hle := m.addedAt_le_size
  have hheader := m.four_le_addedAt
  have hrecord := within_record m.fields 0
  rw [recordSize_fields] at hrecord
  refine List.forall_mem_cons.2 ⟨⟨Nat.zero_le _, ?_⟩, hrecord.append ?_⟩
  · rw [length_leBytes]
    omega
  · exact m.within_added.mono (Nat.zero_le _) (by omega)

/-- What lies in front of the arrays was written by `Init`. -/
theorem load_packet {offset size : ℕ} (hend : offset + size ≤ m.addedAt) :
    load (m.packet chunk) offset size =
      load (stores (store chunk 2 (leBytes 2 m.size)) (record m.fields 0)) offset size := by
  rw [packet_eq]
  exact load_stores_of_apart m.within_added (.inl hend)

variable {m} (before after : List Field)

theorem numberAt_packet {size value : ℕ} (h : m.fields = before ++ .number size value :: after)
    (hend : recordSize before + size ≤ m.addedAt) :
    numberAt (m.packet chunk) (recordSize before) size = value % 256 ^ size := by
  have hread := read_number before after (store chunk 2 (leBytes 2 m.size)) 0 size value
  rw [Nat.zero_add, ← h] at hread
  rw [numberAt, load_packet m chunk hend, hread]

/-- `m_packetNum` and `m_dataSize`. -/
theorem header_packet (m : Message) : PacketHeader.packetNum (m.packet chunk) = m.num.num ∧
    PacketHeader.dataSize (m.packet chunk) = m.size := by
  have hat := m.four_le_addedAt
  have hnum := numberAt_packet (m := m) chunk [] _ rfl (by rw [recordSize]; omega)
  have hdata := numberAt_packet (m := m) chunk [.number 2 m.num.num] m.body rfl (by simpa using hat)
  have hnumlt : m.num.num < 256 ^ 2 := by cases m <;> simp [num, PacketEnum.num]
  have hsizelt : m.size < 256 ^ 2 := Nat.lt_of_le_of_lt m.size_le (by decide)
  rw [Nat.mod_eq_of_lt hnumlt] at hnum
  rw [Nat.mod_eq_of_lt hsizelt] at hdata
  exact ⟨hnum, hdata⟩

/-- A field that is written without loss. -/
def FieldFits : Field → Prop
  | .number size value => value < 256 ^ size
  | .text room chars => chars.length ≤ room ∧ 0 ∉ chars
  | .raw _ _ => True

/-- A message that its packet has room for. -/
def Fits (m : Message) : Prop :=
  (∀ f ∈ m.body, FieldFits f) ∧
    match m with
    | .test text => text.length < 256 ∧ 0 ∉ text
    | .resLobbyEnter _ players =>
        players.length ≤ maxLobbyPlayer ∧ ∀ player ∈ players, ∀ f ∈ playerEntry player, FieldFits f
    | .resRoomList rooms =>
        rooms.length ≤ maxRooms ∧ ∀ room ∈ rooms, ∀ f ∈ roomEntry room, FieldFits f
    | _ => True

theorem stale_clearedField (n i : ℕ) : (clearedField n).Stale i ↔ n ≤ i := by
  simp [clearedField]

theorem not_stale_header {m : Message} {i : ℕ} (hi : i < 4) : ¬ RecordStale m.fields i := by
  simp only [fields, RecordStale, Field.stale_number, Field.size_number, and_false, false_or]
  omega

/-- The packets with an array are cleared by `Init`. -/
theorem not_stale_of_added {m : Message} (h : m.added ≠ []) (i : ℕ) :
    ¬ RecordStale m.fields i := by
  cases m with
  | resLobbyEnter lobbyIndex players =>
    simp [fields, body, RecordStale, stale_clearedField]
  | resRoomList rooms =>
    simp [fields, body, RecordStale, stale_clearedField]
  | _ => exact absurd rfl h

/-- A packet leaves what the chunk held behind the terminators of its texts, and nothing else of
it. -/
theorem touched_writes {m : Message} {i : ℕ} (hi : i < m.size) :
    Touched m.writes i ↔ ¬ RecordStale m.fields i := by
  have hrecord := touched_record m.fields 0 i (m.recordSize_fields.symm ▸ hi)
  rw [Nat.zero_add] at hrecord
  rw [writes, touched_cons, touched_append, hrecord]
  constructor
  · rintro (hheader | hstale | hadded)
    · simp only [length_leBytes] at hheader
      exact not_stale_header (by omega)
    · exact hstale
    · obtain ⟨w, hw, -⟩ := hadded
      exact not_stale_of_added (List.ne_nil_of_mem hw) i
  · exact fun h => .inr (.inl h)

end Message

end DhNet
