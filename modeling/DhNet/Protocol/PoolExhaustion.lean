import DhNet.Core.SendPoolUse
import DhNet.Protocol.SecureSession

/-!
# A pool without enough chunks

`SendPool::Alloc` returns a null pointer when it finds no run of free chunks, and so does
`Sender::Alloc`, but `GetSenderAndPacket` calls a method on the result before anyone can test it.
`SendEncrypted` tests the `SenderRef` that it never gets to see.

The contents of the chunks are left out; how a `SenderRef` is released is in `DhNet.Core.SendPool`.

* `pool_exhaustion_survived_iff`: when the calls survive.
-/

namespace DhNet

/-- What ends the process: a method on a null `Sender`, a packet without a header, and the checks of
the pool. -/
inductive AllocFault where
  | nullSender
  | packetSize
  | assertion (failed : Assertion)
  deriving DecidableEq, Repr

namespace Sender

/-- `Sender::Alloc` for a packet of this size. -/
def alloc (pool : SendPool) (size : ℕ) : Except AllocFault (SendPool × Option ℕ) :=
  if size < sizeofPacketHeader then .error .packetSize
  else
    match pool.alloc (UInt16.ofNat size) with
    | .error failed => .error (.assertion failed)
    | .ok allocated => .ok allocated

/-- `Sender::GetWritePointer` through a `SenderRef`. -/
def getWritePointer (pool : SendPool) : Option ℕ → Except AllocFault (Option ℕ)
  | none => .error .nullSender
  | some sender => .ok (pool.senderList sender).tempChunk

/-- `Sender::GetSenderAndPacket` for a packet of this size: the pool, the packet and the `Sender`.
-/
def getSenderAndPacket (pool : SendPool) (size : ℕ) :
    Except AllocFault (SendPool × Option ℕ × Option ℕ) := do
  let (pool, sender) ← alloc pool size
  let packet ← getWritePointer pool sender
  return (pool, packet, sender)

end Sender

/-- `sizeof(EncryptedPacket)`. -/
def sizeofEncryptedPacket : ℕ := sizeofPacketHeader + maxPlainPacketSize + 28

/-- `SendEncrypted` with the pool that it allocates from; with a `Sender` it goes on as in
`Activity.sendEncrypted`. -/
def Activity.allocAndSendEncrypted {K π ω : Type*} (env : SecureEnv K) (handlers : Handlers π ω)
    (pool : SendPool) (a : Activity K π ω) (inner : Pointer) :
    Except AllocFault (SendPool × Activity K π ω) :=
  let innerLen := PacketHeader.dataSize inner
  if innerLen = 0 ∨ maxPlainPacketSize < innerLen then .ok (pool, a)
  else
    match Sender.getSenderAndPacket pool sizeofEncryptedPacket with
    | .error fault => .error fault
    | .ok (pool, _, none) => .ok (pool, a)
    | .ok (pool, _, some _) => .ok (pool, a.sendEncrypted env handlers inner)

namespace SendPool

/-- There is a run of free chunks for a packet of this size. -/
def HasRun (pool : SendPool) (size : ℕ) : Prop :=
  ∃ i, pool.FreeRun i (chunksFor (UInt16.ofNat size))

/-- The packet and the `Sender` that a call got, with its memory: a run of chunks that was free, is
in use now, and has room for the packet. -/
def ValidPair (before after : SendPool) (size : ℕ) (packet sender : Option ℕ) : Prop :=
  ∃ i, packet = some i ∧ sender = some i ∧
    before.FreeRun i (chunksFor (UInt16.ofNat size)) ∧
    (∀ k, i ≤ k → k < i + chunksFor (UInt16.ofNat size) → after.useFlag.getD k false = true) ∧
    size ≤ chunksFor (UInt16.ofNat size) * sizeofDataChunk

end SendPool

section Exhaustion

open SendPool

variable {pool : SendPool} {size : ℕ}

theorem getSenderAndPacket_of_not_hasRun (hsize : sizeofPacketHeader ≤ size)
    (h : ¬ pool.HasRun size) : Sender.getSenderAndPacket pool size = .error .nullSender := by
  have hnone : pool.getAllocIndex (chunksFor (UInt16.ofNat size)) = none := by
    refine Option.eq_none_iff_forall_ne_some.2 fun i hi => h ?_
    exact (getAllocIndex_isSome_iff (Nat.succ_pos _)).1 ⟨i, hi⟩
  have halloc : Sender.alloc pool size = .ok (pool, none) := by
    rw [Sender.alloc, if_neg hsize.not_gt, SendPool.alloc, hnone]
  rw [Sender.getSenderAndPacket, halloc]
  rfl

theorem getSenderAndPacket_of_hasRun {R : Type*} {n : ℕ} {s : Senders.State R} {L : Leases R n}
    (hs : Senders.Represents s L) (hsize : sizeofPacketHeader ≤ size) (hlt : size < 65536)
    (h : s.pool.HasRun size) :
    ∃ pool packet sender, Sender.getSenderAndPacket s.pool size = .ok (pool, packet, sender) ∧
      ValidPair s.pool pool size packet sender := by
  have hpos : 0 < chunksFor (UInt16.ofNat size) := Nat.succ_pos _
  obtain ⟨i, hi⟩ := (getAllocIndex_isSome_iff hpos).2 h
  have hrun : s.pool.FreeRun i (chunksFor (UInt16.ofNat size)) := getAllocIndex_spec hpos hi
  have hset := Sender.setSendDataChunk_of_free
    (hs.tempChunk_of_free (hrun.2 i (le_refl i) (by omega))) i hpos
  have hroom : size ≤ chunksFor (UInt16.ofNat size) * sizeofDataChunk := by
    rw [chunksFor, UInt16.toNat_ofNat', sizeofDataChunk]
    omega
  have huse := (useLoop_spec (chunksFor (UInt16.ofNat size)) i s.pool.useFlag hrun.1).2
  obtain ⟨after, halloc, hflags, hchunk⟩ : ∃ after, Sender.alloc s.pool size = .ok (after, some i) ∧
      after.useFlag = useLoop i (chunksFor (UInt16.ofNat size)) s.pool.useFlag ∧
      (after.senderList i).tempChunk = some i := by
    refine ⟨{ s.pool with
      useFlag := useLoop i (chunksFor (UInt16.ofNat size)) s.pool.useFlag
      useSize := s.pool.useSize + UInt16.ofNat (chunksFor (UInt16.ofNat size) * sizeofDataChunk)
      senderList := Function.update s.pool.senderList i
        ⟨some i, i, chunksFor (UInt16.ofNat size)⟩ }, ?_, rfl, by simp⟩
    rw [Sender.alloc, if_neg hsize.not_gt]
    simp only [SendPool.alloc, hi, hset]
    rfl
  refine ⟨after, some i, some i, ?_, i, rfl, rfl, hrun, fun k h1 h2 => ?_, hroom⟩
  · rw [Sender.getSenderAndPacket, halloc]
    exact congrArg (fun chunk => Except.ok (after, chunk, some i)) hchunk
  · rw [hflags]
    exact (huse k).2 (.inl ⟨h1, h2⟩)

section Calls

variable {K π ω : Type*} (env : SecureEnv K) (handlers : Handlers π ω) (a : Activity K π ω)
  (inner : Pointer)

theorem allocAndSendEncrypted_of_size
    (h : PacketHeader.dataSize inner = 0 ∨ maxPlainPacketSize < PacketHeader.dataSize inner) :
    a.allocAndSendEncrypted env handlers pool inner = .ok (pool, a) := if_pos h

theorem allocAndSendEncrypted_of_not_hasRun
    (hinner : ¬ (PacketHeader.dataSize inner = 0 ∨
      maxPlainPacketSize < PacketHeader.dataSize inner))
    (h : ¬ pool.HasRun sizeofEncryptedPacket) :
    a.allocAndSendEncrypted env handlers pool inner = .error .nullSender := by
  rw [Activity.allocAndSendEncrypted, if_neg hinner, getSenderAndPacket_of_not_hasRun (by decide) h]

/-- `GetSenderAndPacket` returns a valid pair or a pair of null pointers, and `SendEncrypted` leaves
the session and the pool alone when there is no run of free chunks for an `EncryptedPacket`, exactly
if there are enough chunks for the packet, and those for the `EncryptedPacket` are there or not
asked for because of the size of the inner packet. -/
theorem pool_exhaustion_survived_iff {R : Type*} [DecidableEq R] {n : ℕ} {s : Senders.State R}
    (hs : (Senders.system R n).Reachable s) (hsize : sizeofPacketHeader ≤ size)
    (hlt : size < 65536) :
    ((∃ pool packet sender, Sender.getSenderAndPacket s.pool size = .ok (pool, packet, sender) ∧
        (ValidPair s.pool pool size packet sender ∨ packet = none ∧ sender = none)) ∧
      (¬ s.pool.HasRun sizeofEncryptedPacket →
        a.allocAndSendEncrypted env handlers s.pool inner = .ok (s.pool, a))) ↔
      s.pool.HasRun size ∧ (s.pool.HasRun sizeofEncryptedPacket ∨
        PacketHeader.dataSize inner = 0 ∨ maxPlainPacketSize < PacketHeader.dataSize inner) := by
  obtain ⟨L, hL⟩ := Senders.represents_of_reachable hs
  constructor
  · rintro ⟨⟨pool, packet, sender, hpair, -⟩, hencrypted⟩
    constructor
    · by_contra hrun
      rw [getSenderAndPacket_of_not_hasRun hsize hrun] at hpair
      cases hpair
    · by_contra hneither
      rw [not_or] at hneither
      have hsent := hencrypted hneither.1
      rw [allocAndSendEncrypted_of_not_hasRun env handlers a inner hneither.2 hneither.1] at hsent
      cases hsent
  · rintro ⟨hrun, hencrypted⟩
    obtain ⟨pool, packet, sender, hpair, hvalid⟩ := getSenderAndPacket_of_hasRun hL hsize hlt hrun
    refine ⟨⟨pool, packet, sender, hpair, .inl hvalid⟩, fun hexhausted => ?_⟩
    exact allocAndSendEncrypted_of_size env handlers a inner (hencrypted.resolve_left hexhausted)

end Calls

/-- A library that refuses everything. -/
def refusingEnv : SecureEnv Unit where
  ssl := ⟨fun _ _ => none, fun _ => none, fun _ => none, fun _ _ _ => none, fun _ _ _ _ => none⟩
  keyPair _ := none
  nonce _ := []
  sendReset _ := false
  stack _ _ := 0

/-- No packet handlers. -/
def noHandlers : Handlers Unit Empty := ⟨fun _ => none, id⟩

/-- A session with a key. -/
def keyedSession : Activity Unit Unit Empty := ⟨true, ⟨true, some [], none, (), 0, 0, 0, 0⟩, []⟩

/-- A packet that consists of its header. -/
def shortPacket : Pointer := .ofList (PacketHeader.init .test sizeofPacketHeader)

/-- A fresh pool of two chunks has enough of them. -/
theorem pool_exhaustion_survived_iff_fresh :
    (Senders.system Bool 2).Reachable (.initial 2) ∧ ∃ pool packet sender,
      Sender.getSenderAndPacket (Senders.State.initial (R := Bool) 2).pool sizeofEncryptedPacket =
        .ok (pool, packet, sender) ∧
      (ValidPair (Senders.State.initial (R := Bool) 2).pool pool sizeofEncryptedPacket packet
          sender ∨
        packet = none ∧ sender = none) := by
  have hreach : (Senders.system Bool 2).Reachable (.initial 2) := .init rfl
  have hrun : (Senders.State.initial (R := Bool) 2).pool.HasRun sizeofEncryptedPacket := by
    refine ⟨0, by decide, fun k _ hk => ?_⟩
    have : k < 2 := hk
    interval_cases k <;> rfl
  exact ⟨hreach, ((pool_exhaustion_survived_iff refusingEnv noHandlers keyedSession shortPacket
    hreach (by decide) (by decide)).2 ⟨hrun, .inl hrun⟩).1⟩

theorem not_hasRun_of_used (h : pool.useFlag = [true]) (size : ℕ) : ¬ pool.HasRun size := by
  rintro ⟨i, hlen, hfree⟩
  have hpos : 0 < chunksFor (UInt16.ofNat size) := Nat.succ_pos _
  rw [h, List.length_singleton] at hlen
  obtain rfl : i = 0 := by omega
  have hflag := hfree 0 le_rfl (by omega)
  rw [h] at hflag
  cases hflag

/-- The only chunk of a pool is taken: `GetSenderAndPacket` and `SendEncrypted` use a null pointer.
-/
theorem exhausted_pool_uses_null_sender : ∃ s, (Senders.system Bool 1).Reachable s ∧
    Sender.getSenderAndPacket s.pool sizeofEncryptedPacket = .error .nullSender ∧
    keyedSession.allocAndSendEncrypted refusingEnv noHandlers s.pool shortPacket =
      .error .nullSender := by
  obtain ⟨s, hs, hused⟩ : ∃ s, (Senders.system Bool 1).run (.initial 1) [.alloc false 10] = some s ∧
      s.pool.useFlag = [true] := ⟨_, rfl, rfl⟩
  have hrun := not_hasRun_of_used hused sizeofEncryptedPacket
  exact ⟨s, Transition.System.reachable_of_run (.init rfl) hs,
    getSenderAndPacket_of_not_hasRun (by decide) hrun,
    allocAndSendEncrypted_of_not_hasRun _ _ _ _ (by decide) hrun⟩

end Exhaustion

end DhNet
