import DhNet.Core.SessionProof

/-!
# Packets

The packet numbers, the header as it is written by `PacketHeader::Init`, and the handshake and
wrapper packets with their sizes.
-/

namespace DhNet

/-- `PacketEnum`. -/
inductive PacketEnum where
  | test
  | reqKeyExchange
  | resKeyExchange
  | encrypted
  | reqLogin
  | resLogin
  | resLoginFailed
  | resLobbyEnter
  | notiLobbyPlayerEnter
  | notiLobbyPlayerExit
  | reqLobbyChat
  | notiLobbyChat
  | reqRoomList
  | resRoomList
  | reqRoomEnter
  | resRoomEnter
  | notiRoomEnter
  | reqRoomChat
  | notiRoomChat
  | reqRoomExit
  | resRoomExit
  | notiRoomExit
  deriving DecidableEq, Repr

/-- The underlying value of a packet number. -/
def PacketEnum.num : PacketEnum → ℕ
  | .test => 0
  | .reqKeyExchange => 1
  | .resKeyExchange => 2
  | .encrypted => 3
  | .reqLogin => 10
  | .resLogin => 11
  | .resLoginFailed => 12
  | .resLobbyEnter => 30
  | .notiLobbyPlayerEnter => 31
  | .notiLobbyPlayerExit => 32
  | .reqLobbyChat => 33
  | .notiLobbyChat => 34
  | .reqRoomList => 35
  | .resRoomList => 36
  | .reqRoomEnter => 60
  | .resRoomEnter => 61
  | .notiRoomEnter => 62
  | .reqRoomChat => 63
  | .notiRoomChat => 64
  | .reqRoomExit => 65
  | .resRoomExit => 66
  | .notiRoomExit => 67

/-- `MAX_PLAIN_PACKET_SIZE`. -/
def maxPlainPacketSize : ℕ := 1280

/-- The memory at the start of which the bytes stand, followed by `rest`. -/
def Pointer.overlay (bytes : List UInt8) (rest : Pointer) : Pointer :=
  fun i => bytes.getD i (rest i)

/-- A pointer to the bytes, followed by zeros. -/
def Pointer.ofList (bytes : List UInt8) : Pointer := .overlay bytes fun _ => 0

/-- A `uint16` in little-endian order. -/
def uint16Bytes (n : ℕ) : List UInt8 := [UInt8.ofNat n, UInt8.ofNat (n / 256)]

/-- The header written by `PacketHeader::Init`. -/
def PacketHeader.init (num : PacketEnum) (size : ℕ) : List UInt8 :=
  uint16Bytes num.num ++ uint16Bytes size

/-- `sizeof(clientPubKey)` and `sizeof(serverPubKey)`. -/
def pubKeySize : ℕ := 65

/-- `sizeof(ReqKeyExchange)`. -/
def sizeofReqKeyExchange : ℕ := sizeofPacketHeader + pubKeySize

/-- `sizeof(ResKeyExchange)`. -/
def sizeofResKeyExchange : ℕ := sizeofPacketHeader + pubKeySize

/-- The client's key exchange packet. -/
def reqKeyExchange (clientPubKey : List UInt8) : List UInt8 :=
  PacketHeader.init .reqKeyExchange sizeofReqKeyExchange ++ clientPubKey

/-- The server's key exchange packet. -/
def resKeyExchange (serverPubKey : List UInt8) : List UInt8 :=
  PacketHeader.init .resKeyExchange sizeofResKeyExchange ++ serverPubKey

/-- An `EncryptedPacket` with the given payload. -/
def encryptedPacket (payload : List UInt8) : List UInt8 :=
  PacketHeader.init .encrypted (sizeofPacketHeader + payload.length) ++ payload

/-! ## Reading a header back -/

theorem Pointer.overlay_advance (bytes : List UInt8) (rest : Pointer) (n : ℕ) :
    (Pointer.overlay bytes rest).advance n = .overlay (bytes.drop n) (rest.advance n) := by
  funext i
  simp [Pointer.overlay, Pointer.advance, List.getD_eq_getElem?_getD]

/-- The first bytes of an overlay, and then those behind it. -/
theorem Pointer.bytes_overlay (bytes : List UInt8) (rest : Pointer) (n : ℕ) :
    (Pointer.overlay bytes rest).bytes n =
      bytes.take n ++ (rest.advance bytes.length).bytes (n - bytes.length) := by
  apply List.ext_getElem?
  intro i
  rw [Pointer.getElem?_bytes, List.getElem?_append, List.length_take]
  simp only [Pointer.getElem?_bytes, Pointer.advance, Pointer.overlay, List.getD_eq_getElem?_getD]
  rcases Nat.lt_or_ge i bytes.length with hi | hi
  · rcases Nat.lt_or_ge i n with hn | hn
    · rw [if_pos hn, if_pos (by omega), List.getElem?_take_of_lt hn, List.getElem?_eq_getElem hi]
      rfl
    · rw [if_neg (by omega), if_neg (by omega), if_neg (by omega)]
  · rw [if_neg (show ¬ i < min n bytes.length by omega), List.getElem?_eq_none hi]
    rcases Nat.lt_or_ge i n with hn | hn
    · rw [if_pos hn, if_pos (by omega), Option.getD_none]
      congr 2
      omega
    · rw [if_neg (by omega), if_neg (by omega)]

theorem uint16_roundTrip {n : ℕ} (h : n < 65536) :
    (UInt8.ofNat n).toNat + 256 * (UInt8.ofNat (n / 256)).toNat = n := by
  rw [UInt8.toNat_ofNat', UInt8.toNat_ofNat']
  omega

/-- A pointer that shows a packet with this header. -/
theorem PacketHeader.read_init {num : PacketEnum} {size n : ℕ} {body : List UInt8} {p : Pointer}
    (hsize : size < 65536) (hp : p.bytes n = PacketHeader.init num size ++ body) :
    PacketHeader.packetNum p = num.num ∧ PacketHeader.dataSize p = size := by
  have hn : n = 4 + body.length := by
    have hlen := congrArg List.length hp
    rwa [Pointer.length_bytes, List.length_append] at hlen
  have hbyte : ∀ i < 4, p i = (PacketHeader.init num size).getD i 0 := by
    intro i hi
    have := congrArg (fun l => l[i]?) hp
    simp only [Pointer.getElem?_bytes] at this
    rw [if_pos (by omega), List.getElem?_append_left hi] at this
    rw [List.getD_eq_getElem?_getD, ← this]
    rfl
  have hnum : num.num < 65536 := by cases num <;> decide
  constructor
  · rw [PacketHeader.packetNum, hbyte 0 (by decide), hbyte 1 (by decide)]
    exact uint16_roundTrip hnum
  · rw [PacketHeader.dataSize, hbyte 2 (by decide), hbyte 3 (by decide)]
    exact uint16_roundTrip hsize

theorem length_init (num : PacketEnum) (size : ℕ) :
    (PacketHeader.init num size).length = sizeofPacketHeader := rfl

/-- A packet whose header announces its length is one frame. -/
theorem isFrame_init (num : PacketEnum) {size : ℕ} (body : List UInt8)
    (hsize : size = sizeofPacketHeader + body.length) (hlt : size < 65536) :
    packetFormat.IsFrame (PacketHeader.init num size ++ body) := by
  have hlen : (PacketHeader.init num size ++ body).length = sizeofPacketHeader + body.length := by
    rw [List.length_append, length_init]
  refine ⟨by rw [hlen]; exact Nat.le_add_right _ _, ?_⟩
  rw [hlen, ← hsize]
  exact uint16_roundTrip hlt

end DhNet
