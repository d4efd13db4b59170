import DhNet.Lib.System
import DhNet.Core.SessionProof

/-!
# Bounds of the receive buffer

A frame has at most 65535 bytes, `Clean` makes room as soon as less than 65536 bytes are free, and
the buffer is ten times as large: so the bytes that wait for the rest of their frame never fill the
buffer, and `Clean` never copies between ranges that overlap.

* `receiving`: completions in any number with any bytes, any derived session and any result of the
  next `WSARecv`, and calls of `Disconnect` by other threads.
* `recvLoop_end`: what the loop of `ProcessRecv` leaves in the buffer.
* `recv_buffer_bounds`: the bounds over whole runs.
-/

namespace DhNet

theorem PacketHeader.dataSize_lt (p : Pointer) : PacketHeader.dataSize p < 65536 := by
  have h2 := (p 2).toNat_lt
  have h3 := (p 3).toNat_lt
  unfold dataSize
  omega

namespace RecvBuffer

/-- `Clean` copies the data to the front of the buffer. -/
def Compacts (b : RecvBuffer) : Prop := b.dataSize ≠ 0 ∧ b.freeSize < b.bufferSize

/-- What `RegisterRecv` relies on: `WSARecv` gets an address inside the buffer and never a length
of zero. -/
structure Roomy (b : RecvBuffer) : Prop where
  readPos_le : b.readPos ≤ b.writePos
  dataSize_le : b.dataSize ≤ 65534
  freeSize_ge : 65536 ≤ b.freeSize
  writePos_lt : b.writePos < b.capacity

@[simp] theorem clean_bufferSize (b : RecvBuffer) : b.clean.bufferSize = b.bufferSize := by
  unfold clean
  split_ifs <;> rfl

theorem Roomy.of_sizes {b : RecvBuffer} (dataSize : b.dataSize ≤ 65534)
    (freeSize : 65536 ≤ b.freeSize) : b.Roomy where
  readPos_le := b.readPos_le
  dataSize_le := dataSize
  freeSize_ge := freeSize
  writePos_lt := by
    unfold RecvBuffer.freeSize at freeSize
    omega

/-- With less than a whole frame of data, `Clean` leaves room for 65536 bytes. -/
theorem roomy_clean {b : RecvBuffer} (size : b.bufferSize = 65536) (short : b.dataSize ≤ 65534) :
    b.clean.Roomy := by
  unfold clean
  split_ifs with hempty hfull
  · refine .of_sizes ?_ ?_ <;> simp [dataSize, freeSize, capacity, size]
  · refine .of_sizes ?_ ?_
    · simpa [dataSize] using short
    · simp only [freeSize, capacity, size]
      omega
  · exact .of_sizes short (by omega)

/-- With less than a whole frame of data, a compaction copies it to a range before its own. -/
theorem Compacts.disjoint {b : RecvBuffer} (compacts : b.Compacts) (size : b.bufferSize = 65536)
    (short : b.dataSize ≤ 65534) : b.dataSize ≤ b.readPos := by
  have hfull := compacts.2
  simp only [freeSize, capacity, size] at hfull
  unfold dataSize at short ⊢
  omega

end RecvBuffer

namespace Session

variable {σ ε : Type*}

/-- What happens to a session that receives: the outstanding receive completes, `result` being what
the next `WSARecv` reports, or another thread calls `Disconnect`. -/
inductive RecvOp where
  | complete (bytes : List UInt8) (result : WsaResult)
  | disconnect (cause : DisconnectCause)
  deriving DecidableEq, Repr

/-- A session from `ProcessConnect` on. -/
def receiving (cls : SessionClass σ ε) : Transition.System (Session σ ε) RecvOp where
  init s := ∃ app, s = start app
  step s
    | .complete bytes result =>
        if s.recvPosted then some (s.receive cls bytes result) else none
    | .disconnect cause => some (s.disconnect cls cause)

/-- A completion has at least one byte and at most the `FreeSize` that was posted, and only
`ProcessRecv` names an overflow as the cause of a `Disconnect`. -/
def FitsPosted (s : Session σ ε) : RecvOp → Prop
  | .complete bytes _ => bytes ≠ [] ∧ bytes.length ≤ s.recvBuffer.freeSize
  | .disconnect cause => cause ≠ .onWriteOverflow ∧ cause ≠ .onReadOverflow

/-- No `Disconnect` of `ProcessRecv` was for an overflow. -/
def NoOverflow (s : Session σ ε) : Prop :=
  ∀ cause ∈ ownDisconnects s.trace, cause ≠ .onWriteOverflow ∧ cause ≠ .onReadOverflow

/-- The buffer on which `ProcessRecv` calls `Clean` after the outstanding receive has completed with
these bytes, unless it returns before. -/
def reachesClean (cls : SessionClass σ ε) (s : Session σ ε) (bytes : List UInt8) :
    Option RecvBuffer :=
  ((s.recvBuffer.fill bytes).onWrite bytes.length).bind fun b =>
    let left := recvLoop cls b.dataSize { s with recvPosted := false, recvBuffer := b }
    if left.2 then some left.1.recvBuffer else none

variable {cls : SessionClass σ ε} {s t : Session σ ε}

theorem NoOverflow.disconnect (h : s.NoOverflow) (cause : DisconnectCause)
    (other : cause ≠ .onWriteOverflow ∧ cause ≠ .onReadOverflow) :
    (s.disconnect cls cause).NoOverflow := by
  intro c hc
  simp only [Session.disconnect, Conn.disconnect, ownDisconnects_append,
    ownDisconnects_disconnect, List.mem_append, List.mem_singleton] at hc
  rcases hc with hc | rfl
  · exact h c hc
  · exact other

/-- `OnRecv` adds no `Disconnect` of `ProcessRecv` to the trace. -/
theorem NoOverflow.onRecv (h : s.NoOverflow) (p : Pointer) (b : RecvBuffer) :
    NoOverflow { s with toConn := (s.toConn.onRecv cls p).1, recvBuffer := b } := by
  intro c hc
  simp only [Conn.onRecv, ownDisconnects_append, ownDisconnects_onRecv, List.append_nil] at hc
  exact h c hc

/-- How the loop of `ProcessRecv` leaves the session: without an overflow, and, if it ends by
`break`, with less data than the largest frame has. -/
theorem recvLoop_end (cls : SessionClass σ ε) {fuel : ℕ} (enough : s.recvBuffer.dataSize ≤ fuel)
    (h : s.NoOverflow) :
    (recvLoop cls fuel s).1.NoOverflow ∧
    (recvLoop cls fuel s).1.recvBuffer.bufferSize = s.recvBuffer.bufferSize ∧
    (recvLoop cls fuel s).1.recvPosted = s.recvPosted ∧
    ((recvLoop cls fuel s).2 = true → (recvLoop cls fuel s).1.recvBuffer.dataSize ≤ 65534) := by
  induction fuel generalizing s with
  | zero => exact ⟨h, rfl, rfl, fun _ => enough.trans (Nat.zero_le _)⟩
  | succ fuel ih =>
    have hlt := PacketHeader.dataSize_lt s.recvBuffer.readPointer
    by_cases hshort : s.recvBuffer.dataSize < sizeofPacketHeader
    · rw [recvLoop, if_pos hshort]
      refine ⟨h, rfl, rfl, fun _ => ?_⟩
      change s.recvBuffer.dataSize ≤ 65534
      unfold sizeofPacketHeader at hshort
      omega
    rw [recvLoop, if_neg hshort]
    simp only
    by_cases hinvalid : PacketHeader.dataSize s.recvBuffer.readPointer < sizeofPacketHeader
    · rw [if_pos hinvalid]
      exact ⟨h.disconnect .invalidPacketSize (by decide), rfl, rfl, Bool.false_ne_true.elim⟩
    rw [if_neg hinvalid]
    by_cases hwait : s.recvBuffer.dataSize < PacketHeader.dataSize s.recvBuffer.readPointer
    · rw [if_pos hwait]
      refine ⟨h, rfl, rfl, fun _ => ?_⟩
      change s.recvBuffer.dataSize ≤ 65534
      omega
    rw [if_neg hwait]
    have hrecv : ∀ b, NoOverflow { s with
        toConn := (s.toConn.onRecv cls s.recvBuffer.readPointer).1, recvBuffer := b } :=
      h.onRecv s.recvBuffer.readPointer
    generalize s.toConn.onRecv cls s.recvBuffer.readPointer = reply at hrecv
    obtain ⟨c, _ | _⟩ := reply
    · exact ⟨(hrecv s.recvBuffer).disconnect .onReadError (by decide), rfl, rfl,
        Bool.false_ne_true.elim⟩
    · obtain ⟨b, hb, -, -, hdata, hsize⟩ := RecvBuffer.onRead_of_le (Nat.not_lt.1 hwait)
      rw [hb]
      -- At least the header is read, so one turn less is enough for the rest.
      have hfuel : b.dataSize ≤ fuel := by
        unfold sizeofPacketHeader at hinvalid
        omega
      rw [← hsize]
      exact ih hfuel (hrecv b)

/-- What every session keeps while it receives. -/
structure Bounded (s : Session σ ε) : Prop where
  bufferSize : s.recvBuffer.bufferSize = 65536
  noOverflow : s.NoOverflow
  roomy : s.recvPosted = true → s.recvBuffer.Roomy

theorem bounded_start (app : σ) : (start app : Session σ ε).Bounded where
  bufferSize := rfl
  noOverflow _ hc := absurd hc List.not_mem_nil
  roomy _ := by
    refine .of_sizes ?_ ?_
    · simp [start, RecvBuffer.init, RecvBuffer.dataSize]
    · change 65536 ≤ 0x10000 * 10 - 0
      omega

theorem Bounded.disconnect (h : s.Bounded) {cause : DisconnectCause}
    (other : cause ≠ .onWriteOverflow ∧ cause ≠ .onReadOverflow) :
    (s.disconnect cls cause).Bounded :=
  ⟨h.bufferSize, h.noOverflow.disconnect cause other, h.roomy⟩

/-- The buffer on which `Clean` is called. -/
theorem Bounded.reachesClean (h : s.Bounded) {bytes : List UInt8}
    (fits : bytes.length ≤ s.recvBuffer.freeSize) {b : RecvBuffer}
    (reaches : s.reachesClean cls bytes = some b) :
    b.bufferSize = 65536 ∧ b.dataSize ≤ 65534 := by
  obtain ⟨b', hwrite, -, -, hsize⟩ := s.recvBuffer.fill_onWrite fits
  obtain ⟨-, hsize', -, hshort⟩ := recvLoop_end cls (le_refl b'.dataSize)
    (s := { s with recvPosted := false, recvBuffer := b' }) h.noOverflow
  simp only [Session.reachesClean, hwrite, Option.bind_some] at reaches
  split_ifs at reaches with hbreak
  obtain rfl := Option.some.inj reaches
  exact ⟨hsize'.trans (hsize.trans h.bufferSize), hshort hbreak⟩

theorem Bounded.registerRecv (h : s.Bounded) (roomy : s.recvBuffer.Roomy) (result : WsaResult) :
    (s.registerRecv cls result).Bounded := by
  unfold Session.registerRecv
  split_ifs
  · cases result with
    | success => exact ⟨h.bufferSize, h.noOverflow, fun _ => roomy⟩
    | pending => exact ⟨h.bufferSize, h.noOverflow, fun _ => roomy⟩
    | error code =>
      simp only [Session.handleError]
      split_ifs
      · exact h.disconnect (by decide)
      · exact h
  · exact h

/-- A completion that fits keeps the bounds. -/
theorem Bounded.receive (h : s.Bounded) {bytes : List UInt8} (nonempty : bytes ≠ [])
    (fits : bytes.length ≤ s.recvBuffer.freeSize) (result : WsaResult) :
    (s.receive cls bytes result).Bounded := by
  unfold Session.receive
  split_ifs with hposted
  swap
  · exact h
  obtain ⟨b, hwrite, -, -, hsize⟩ := s.recvBuffer.fill_onWrite fits
  obtain ⟨hno, hsize', hposted', hshort⟩ := recvLoop_end cls (le_refl b.dataSize)
    (s := { s with recvPosted := false, recvBuffer := b }) h.noOverflow
  have hlen : bytes.length ≠ 0 := by simpa using nonempty
  simp only [processRecv, if_neg hlen, hwrite]
  generalize recvLoop cls b.dataSize { s with recvPosted := false, recvBuffer := b } = left at *
  obtain ⟨t, _ | _⟩ := left
  · exact ⟨hsize'.trans (hsize.trans h.bufferSize), hno,
      fun posted => absurd (hposted'.symm.trans posted) Bool.false_ne_true⟩
  · have hsize64 : t.recvBuffer.bufferSize = 65536 := hsize'.trans (hsize.trans h.bufferSize)
    have hroomy := RecvBuffer.roomy_clean hsize64 (hshort rfl)
    exact Bounded.registerRecv (s := { t with recvBuffer := t.recvBuffer.clean })
      ⟨(RecvBuffer.clean_bufferSize _).trans hsize64, hno, fun _ => hroomy⟩ hroomy result

theorem Reachable.bounded (h : (receiving cls).Reach FitsPosted s) : s.Bounded := by
  refine h.invariant (P := Bounded) ?_ ?_
  · rintro s ⟨app, rfl⟩
    exact bounded_start app
  · rintro s (⟨bytes, result⟩ | cause) t - hs fits hstep
    · simp only [receiving] at hstep
      split_ifs at hstep
      obtain rfl := Option.some.inj hstep
      exact hs.receive fits.1 fits.2 result
    · obtain rfl := Option.some.inj hstep
      exact hs.disconnect fits

/-- In every run no overflow disconnects the session, and whenever a completion gets to `Clean`, a
compaction copies between disjoint ranges and `RegisterRecv` finds room for 65536 bytes. -/
theorem recv_buffer_bounds (reach : (receiving cls).Reach FitsPosted s) :
    s.NoOverflow ∧ (s.recvPosted = true → s.recvBuffer.Roomy) ∧
    ∀ (bytes : List UInt8), s.recvPosted = true → bytes ≠ [] →
      bytes.length ≤ s.recvBuffer.freeSize →
      ((s.recvBuffer.fill bytes).onWrite bytes.length).isSome ∧
      ∀ b, s.reachesClean cls bytes = some b →
        (b.Compacts → b.dataSize ≤ b.readPos) ∧ b.clean.Roomy := by
  have hs := Reachable.bounded reach
  refine ⟨hs.noOverflow, hs.roomy, fun bytes _ _ fits => ⟨?_, fun b reaches => ?_⟩⟩
  · obtain ⟨b, hwrite, -⟩ := s.recvBuffer.fill_onWrite fits
    rw [hwrite]
    rfl
  · obtain ⟨hsize, hshort⟩ := hs.reachesClean fits reaches
    exact ⟨fun compacts => compacts.disjoint hsize hshort, RecvBuffer.roomy_clean hsize hshort⟩

/-- A session that waits for the rest of a packet and gets one more byte of it. -/
theorem recv_buffer_bounds_partial_packet : ∃ (s : Session Unit Empty) (b : RecvBuffer),
    s.recvBuffer.dataSize = 5 ∧ s.NoOverflow ∧ s.recvBuffer.Roomy ∧
    s.reachesClean acceptAll [6] = some b ∧ b.dataSize = 6 ∧ b.clean.Roomy := by
  have reach : (receiving acceptAll).Reach FitsPosted
      ((start ()).receive acceptAll [1, 0, 8, 0, 5] .pending) :=
    .step (a := .complete [1, 0, 8, 0, 5] .pending) (.init ⟨(), rfl⟩) ⟨nofun, by decide⟩ rfl
  obtain ⟨hno, hroomy, hclean⟩ := recv_buffer_bounds reach
  obtain ⟨-, hnext⟩ := hclean [6] rfl nofun (by decide)
  exact ⟨_, _, rfl, hno, hroomy rfl, rfl, rfl, (hnext _ rfl).2⟩

end Session

end DhNet
