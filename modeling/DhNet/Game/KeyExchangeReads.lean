import DhNet.Game.GameSessionProof

/-!
# The bytes that the key exchange reads

`ProcessRecv` hands a frame to `OnRecv` as soon as it has the `m_dataSize` bytes of the header, and
`m_dataSize` is at least 4.  `HandleKeyExchange` takes the frame for a `ReqKeyExchange` of 69 bytes.

* `recvCalls`, `onRecvCalls`: the sessions on which `OnRecv` is called, with the buffer as it is
  then.
* `keyExchangeReads`: the addresses that `HandleKeyExchange` reads; `handleKeyExchange_congr` says
  that it depends on no other byte.
* `keyExchange_reads_iff`: when these addresses are those of the frame.
-/

namespace DhNet

namespace Session

variable {σ ε : Type*} (cls : SessionClass σ ε)

/-- The sessions on which the loop of `ProcessRecv` calls `OnRecv`, in at most `fuel` turns. -/
def recvCalls : ℕ → Session σ ε → List (Session σ ε)
  | 0, _ => []
  | fuel + 1, s =>
      if s.recvBuffer.dataSize < sizeofPacketHeader then []
      else
        let packet := s.recvBuffer.readPointer
        if PacketHeader.dataSize packet < sizeofPacketHeader then []
        else if s.recvBuffer.dataSize < PacketHeader.dataSize packet then []
        else
          s :: match s.toConn.onRecv cls packet with
            | (_, false) => []
            | (c, true) =>
                match s.recvBuffer.onRead (PacketHeader.dataSize packet) with
                | none => []
                | some b => recvCalls fuel { s with toConn := c, recvBuffer := b }

/-- The sessions on which the completion of the outstanding receive calls `OnRecv`. -/
def onRecvCalls (s : Session σ ε) (bytes : List UInt8) : List (Session σ ε) :=
  if s.recvPosted = false ∨ bytes.length = 0 then []
  else
    match (s.recvBuffer.fill bytes).onWrite bytes.length with
    | none => []
    | some b => recvCalls cls b.dataSize { s with recvPosted := false, recvBuffer := b }

/-- The frame at the read cursor. -/
def frame (s : Session σ ε) : List UInt8 :=
  s.recvBuffer.readPointer.bytes (PacketHeader.dataSize s.recvBuffer.readPointer)

variable {cls} {s u : Session σ ε}

/-- The trace of the loop has the frames of these calls. -/
theorem packets_recvLoop (cls : SessionClass σ ε) (fuel : ℕ) (s : Session σ ε) :
    packets (recvLoop cls fuel s).1.trace =
      packets s.trace ++ (recvCalls cls fuel s).map Session.frame := by
  induction fuel generalizing s with
  | zero => simp [recvLoop, recvCalls]
  | succ fuel ih =>
    simp only [recvLoop, recvCalls]
    split_ifs
    · simp
    · simp [Session.disconnect, Conn.disconnect]
    · simp
    · have htrace : packets (s.toConn.onRecv cls s.recvBuffer.readPointer).1.trace =
          packets s.trace ++ [s.frame] := by
        simp [Conn.onRecv, Session.frame]
      generalize s.toConn.onRecv cls s.recvBuffer.readPointer = reply at htrace
      obtain ⟨c, _ | _⟩ := reply
      · simp [Session.disconnect, Conn.disconnect, htrace]
      · cases s.recvBuffer.onRead (PacketHeader.dataSize s.recvBuffer.readPointer) with
        | none => simp [Session.disconnect, Conn.disconnect, htrace]
        | some b => simp [ih, htrace]

theorem packets_registerRecv (s : Session σ ε) (result : WsaResult) :
    packets (s.registerRecv cls result).trace = packets s.trace := by
  unfold registerRecv
  split_ifs
  · cases result with
    | success => rfl
    | pending => rfl
    | error code =>
      simp only [handleError]
      split_ifs
      · simp [Session.disconnect, Conn.disconnect]
      · rfl
  · rfl

/-- A completion adds the frames of its calls of `OnRecv` to the trace, and no others. -/
theorem packets_receive (s : Session σ ε) (bytes : List UInt8) (result : WsaResult) :
    packets (s.receive cls bytes result).trace =
      packets s.trace ++ (s.onRecvCalls cls bytes).map Session.frame := by
  unfold receive onRecvCalls
  cases hposted : s.recvPosted with
  | false => simp
  | true =>
    by_cases hempty : bytes.length = 0
    · simp [processRecv, hempty, Session.disconnect, Conn.disconnect]
    · simp only [processRecv, hempty, if_true, if_false, or_self, Bool.true_eq_false]
      cases (s.recvBuffer.fill bytes).onWrite bytes.length with
      | none => simp [Session.disconnect, Conn.disconnect]
      | some b =>
        have hloop := packets_recvLoop cls b.dataSize
          { s with recvPosted := false, recvBuffer := b }
        simp only at hloop ⊢
        rw [← hloop]
        generalize recvLoop cls b.dataSize { s with recvPosted := false, recvBuffer := b } = left
        obtain ⟨t, _ | _⟩ := left
        · rfl
        · exact packets_registerRecv _ result

/-- What `ProcessRecv` has checked when it calls `OnRecv`. -/
theorem bounds_of_mem_recvCalls {fuel : ℕ} (hu : u ∈ recvCalls cls fuel s) :
    sizeofPacketHeader ≤ PacketHeader.dataSize u.recvBuffer.readPointer ∧
      PacketHeader.dataSize u.recvBuffer.readPointer ≤ u.recvBuffer.dataSize := by
  induction fuel generalizing s with
  | zero => simp [recvCalls] at hu
  | succ fuel ih =>
    simp only [recvCalls] at hu
    split_ifs at hu with hshort hinvalid hwait
    · cases hu
    · cases hu
    · cases hu
    · rcases List.mem_cons.1 hu with rfl | hu
      · exact ⟨Nat.not_lt.1 hinvalid, Nat.not_lt.1 hwait⟩
      · generalize s.toConn.onRecv cls s.recvBuffer.readPointer = reply at hu
        obtain ⟨c, _ | _⟩ := reply
        · cases hu
        · cases hread : s.recvBuffer.onRead
              (PacketHeader.dataSize s.recvBuffer.readPointer) with
          | none => simp [hread] at hu
          | some b =>
            rw [hread] at hu
            exact ih hu

theorem bounds_of_mem_onRecvCalls {bytes : List UInt8} (hu : u ∈ s.onRecvCalls cls bytes) :
    sizeofPacketHeader ≤ PacketHeader.dataSize u.recvBuffer.readPointer ∧
      PacketHeader.dataSize u.recvBuffer.readPointer ≤ u.recvBuffer.dataSize := by
  unfold onRecvCalls at hu
  split_ifs at hu
  · cases hu
  · split at hu
    · cases hu
    · exact bounds_of_mem_recvCalls hu

end Session

namespace GameSession

variable {K π ω : Type*} (env : SecureEnv K) (handlers : Handlers π ω)

/-- The offsets from `_pkt` at which `HandleKeyExchange` reads: `ImportPeerKey` copies the 65 bytes
of `clientPubKey`, unless there is no key pair. -/
def handleKeyExchangeReads (st : SecureState K π) : List ℕ :=
  match env.keyPair st.keyPairs with
  | none => []
  | some _ => List.range' sizeofPacketHeader pubKeySize

/-- The addresses in `m_buffer` that `HandleKeyExchange` reads in the call of `OnRecv`. -/
def keyExchangeReads (u : Session (SecureState K π) (SecureEvent ω)) : List ℕ :=
  if u.app.handshakeDone = false ∧
      PacketHeader.packetNum u.recvBuffer.readPointer = PacketEnum.reqKeyExchange.num then
    (handleKeyExchangeReads env u.app).map (u.recvBuffer.readPos + ·)
  else []

/-- `OnRecv` disconnects the session. -/
def Rejects (u : Session (SecureState K π) (SecureEvent ω)) : Prop :=
  (onRecv env handlers u.connected u.app u.recvBuffer.readPointer).actions.any
    Action.isDisconnect = true

/-- The key exchange stays inside its frame, and a frame without room for the key is rejected. -/
def ReadsOwnFrame (u : Session (SecureState K π) (SecureEvent ω)) : Prop :=
  (∀ address ∈ keyExchangeReads env u, u.recvBuffer.readPos ≤ address ∧
    address < u.recvBuffer.readPos + PacketHeader.dataSize u.recvBuffer.readPointer) ∧
  (PacketHeader.dataSize u.recvBuffer.readPointer < sizeofReqKeyExchange → Rejects env handlers u)

variable {env handlers}

/-- `HandleKeyExchange` depends on no byte of the packet but those it reads. -/
theorem handleKeyExchange_congr {a : Activity K π ω} {p q : Pointer}
    (h : ∀ i ∈ handleKeyExchangeReads env a.state, p i = q i) :
    handleKeyExchange env handlers a p = handleKeyExchange env handlers a q := by
  unfold handleKeyExchange
  unfold handleKeyExchangeReads at h
  cases hpair : env.keyPair a.state.keyPairs with
  | none => rfl
  | some priv =>
    have hkey : pubKey p = pubKey q := by
      refine Pointer.bytes_congr fun i hi => ?_
      rw [hpair] at h
      exact h _ (List.mem_range'_1.2 ⟨Nat.le_add_right _ _, Nat.add_lt_add_left hi _⟩)
    simp only [hkey]

/-- Without a key pair the session is disconnected before the packet is read. -/
theorem handleKeyExchange_of_none {a : Activity K π ω} {p : Pointer}
    (h : env.keyPair a.state.keyPairs = none) :
    (handleKeyExchange env handlers a p).actions = a.actions ++ [.disconnect .keyGenFailed] := by
  simp [handleKeyExchange, h, Activity.disconnect, Activity.modify]

/-- The reads go to the end of a `ReqKeyExchange`, whatever the size of the frame. -/
theorem keyExchangeReads_within_iff {u : Session (SecureState K π) (SecureEvent ω)} {n : ℕ}
    (hdone : u.app.handshakeDone = false)
    (hnum : PacketHeader.packetNum u.recvBuffer.readPointer = PacketEnum.reqKeyExchange.num)
    (hpair : env.keyPair u.app.keyPairs ≠ none) :
    (∀ address ∈ keyExchangeReads env u, u.recvBuffer.readPos ≤ address ∧
      address < u.recvBuffer.readPos + n) ↔ sizeofReqKeyExchange ≤ n := by
  obtain ⟨priv, hpriv⟩ := Option.ne_none_iff_exists'.1 hpair
  simp only [keyExchangeReads, hdone, hnum, and_self, if_true, handleKeyExchangeReads, hpriv,
    List.forall_mem_map, List.mem_range'_1, sizeofReqKeyExchange, sizeofPacketHeader, pubKeySize]
  constructor
  · intro h
    have := h 68 (by decide)
    omega
  · intro h i hi
    omega

/-- The key exchange reads only its own frame exactly if the frame has room for the key, or nothing
is read because the handshake is over or no key pair could be made. -/
theorem keyExchange_reads_iff {s u : Session (SecureState K π) (SecureEvent ω)}
    {bytes : List UInt8} (hu : u ∈ s.onRecvCalls (cls env handlers) bytes)
    (hnum : PacketHeader.packetNum u.recvBuffer.readPointer = PacketEnum.reqKeyExchange.num) :
    (u.recvBuffer.readPos + PacketHeader.dataSize u.recvBuffer.readPointer ≤
        u.recvBuffer.writePos ∧
      u.recvBuffer.writePos ≤ u.recvBuffer.capacity) ∧
    (ReadsOwnFrame env handlers u ↔
      sizeofReqKeyExchange ≤ PacketHeader.dataSize u.recvBuffer.readPointer ∨
        u.app.handshakeDone = true ∨ env.keyPair u.app.keyPairs = none) := by
  obtain ⟨-, hdata⟩ := Session.bounds_of_mem_onRecvCalls hu
  have hle := u.recvBuffer.readPos_le
  refine ⟨⟨?_, u.recvBuffer.writePos_le⟩, ?_⟩
  · unfold RecvBuffer.dataSize at hdata
    omega
  by_cases hdone : u.app.handshakeDone = true
  · refine iff_of_true ⟨?_, fun _ => ?_⟩ (.inr (.inl hdone))
    · simp [keyExchangeReads, hdone]
    · simp [Rejects, onRecv, hdone, hnum, PacketEnum.num, Activity.disconnect, Activity.reply,
        Action.isDisconnect]
  rw [Bool.not_eq_true] at hdone
  by_cases hpair : env.keyPair u.app.keyPairs = none
  · refine iff_of_true ⟨?_, fun _ => ?_⟩ (.inr (.inr hpair))
    · simp [keyExchangeReads, handleKeyExchangeReads, hpair]
    · simp [Rejects, onRecv, hdone, hnum, Activity.reply, SecureState.begin,
        handleKeyExchange_of_none, hpair, Action.isDisconnect]
  · have hwithin := keyExchangeReads_within_iff
      (n := PacketHeader.dataSize u.recvBuffer.readPointer) hdone hnum hpair
    constructor
    · exact fun h => .inl (hwithin.1 h.1)
    · rintro (hsize | hdone' | hnone)
      · exact ⟨hwithin.2 hsize, fun hshort => absurd hsize (Nat.not_le.2 hshort)⟩
      · simp [hdone] at hdone'
      · exact absurd hnone hpair

/-- A whole key exchange packet in one completion. -/
theorem keyExchange_reads_whole_packet :
    ∃ u ∈ (Session.start (fresh ())).onRecvCalls (cls sampleEnv noHandlers)
        (reqKeyExchange (4 :: 2 :: List.replicate 63 0)),
      u.app.handshakeDone = false ∧ keyExchangeReads sampleEnv u = List.range' 4 65 ∧
      ReadsOwnFrame sampleEnv noHandlers u := by
  have hcall : _ ∈ (Session.start (fresh ())).onRecvCalls (cls sampleEnv noHandlers)
      (reqKeyExchange (4 :: 2 :: List.replicate 63 0)) := List.mem_cons_self ..
  exact ⟨_, hcall, rfl, rfl, (keyExchange_reads_iff hcall rfl).2.2 (.inl (by decide +kernel))⟩

/-- The header of a key exchange alone, followed by bytes that belong to the next frame: the key
is read from there, and the handshake succeeds. -/
theorem keyExchange_reads_beyond_frame :
    ∃ u ∈ (Session.start (fresh ())).onRecvCalls (cls sampleEnv noHandlers)
        (PacketHeader.init .reqKeyExchange 4 ++ 4 :: 2 :: List.replicate 63 0),
      PacketHeader.packetNum u.recvBuffer.readPointer = PacketEnum.reqKeyExchange.num ∧
      PacketHeader.dataSize u.recvBuffer.readPointer = 4 ∧
      ¬ ReadsOwnFrame sampleEnv noHandlers u ∧ ¬ Rejects sampleEnv noHandlers u ∧
      (onRecv sampleEnv noHandlers u.connected u.app
        u.recvBuffer.readPointer).app.handshakeDone = true := by
  refine ⟨_, List.mem_cons_self .., by decide +kernel, by decide +kernel, fun h => ?_, ?_, ?_⟩
  · have := h.1 68 (by decide +kernel)
    revert this
    decide +kernel
  · unfold Rejects
    decide +kernel
  · decide +kernel

end GameSession

end DhNet
