import DhNet.Core.Session

/-!
# Framing on a session

* `packetFormat`: the frames of the protocol, whose length is the field `m_dataSize`.
* `recvLoop_eq`: the loop of `ProcessRecv` decodes the bytes of the receive buffer and dispatches
  the frames in order until `OnRecv` refuses one.
* `receiveAll_spec`: over any sequence of completions the packets handed to `OnRecv` are those of
  the whole stream.
-/

namespace DhNet

/-- The reference framing: the length of a frame is the little-endian number at offset 2. -/
def packetFormat : Framing.Format UInt8 where
  header := sizeofPacketHeader
  size bytes := (bytes.getD 2 0).toNat + 256 * (bytes.getD 3 0).toNat
  header_pos := by decide
  size_append xs ys h := by
    have h2 : 2 < xs.length := by unfold sizeofPacketHeader at h; omega
    have h3 : 3 < xs.length := by unfold sizeofPacketHeader at h; omega
    simp only [List.getD_eq_getElem?_getD, List.getElem?_append_left h2,
      List.getElem?_append_left h3]

theorem packetFormat_size_bytes (p : Pointer) {n : ℕ} (h : sizeofPacketHeader ≤ n) :
    packetFormat.size (p.bytes n) = PacketHeader.dataSize p := by
  have h2 : 2 < n := by unfold sizeofPacketHeader at h; omega
  have h3 : 3 < n := by unfold sizeofPacketHeader at h; omega
  simp only [packetFormat, PacketHeader.dataSize, List.getD_eq_getElem?_getD,
    Pointer.getElem?_bytes, if_pos h2, if_pos h3, Option.getD_some]

namespace RecvBuffer

theorem invalid_data_iff (b : RecvBuffer) : packetFormat.Invalid b.data ↔
    sizeofPacketHeader ≤ b.dataSize ∧ PacketHeader.dataSize b.readPointer < sizeofPacketHeader := by
  unfold Framing.Format.Invalid
  rw [length_data]
  refine and_congr_right fun h => ?_
  rw [data, packetFormat_size_bytes _ h]
  rfl

theorem complete_data_iff (b : RecvBuffer) : packetFormat.Complete b.data ↔
    sizeofPacketHeader ≤ b.dataSize ∧ sizeofPacketHeader ≤ PacketHeader.dataSize b.readPointer ∧
      PacketHeader.dataSize b.readPointer ≤ b.dataSize := by
  unfold Framing.Format.Complete
  rw [length_data]
  refine and_congr_right fun h => ?_
  rw [data, packetFormat_size_bytes _ h]
  rfl

/-- The first frame of the data, as seen through the pointer. -/
theorem take_size_data {b : RecvBuffer} (h : packetFormat.Complete b.data) :
    packetFormat.size b.data = PacketHeader.dataSize b.readPointer ∧
      b.data.take (packetFormat.size b.data) =
        b.readPointer.bytes (PacketHeader.dataSize b.readPointer) := by
  obtain ⟨h1, -, h3⟩ := (complete_data_iff b).1 h
  have hsize : packetFormat.size b.data = PacketHeader.dataSize b.readPointer :=
    packetFormat_size_bytes _ h1
  exact ⟨hsize, by rw [hsize, data, Pointer.take_bytes _ h3]⟩

end RecvBuffer

variable {σ ε : Type*} (cls : SessionClass σ ε)

/-! ## Reading the trace -/

section Trace

variable {σ ε : Type*} (xs ys : List (Event ε)) (acts : List (Action ε))

@[simp] theorem packets_append : packets (xs ++ ys) = packets xs ++ packets ys := by
  simp [packets]

@[simp] theorem ownDisconnects_append :
    ownDisconnects (xs ++ ys) = ownDisconnects xs ++ ownDisconnects ys := by
  simp [ownDisconnects]

@[simp] theorem actions_append : actions (xs ++ ys) = actions xs ++ actions ys := by
  simp [actions]

@[simp] theorem packets_onRecv (packet : List UInt8) :
    packets (.onRecv packet :: acts.map .action) = [packet] := by
  simp [packets]

@[simp] theorem ownDisconnects_onRecv (packet : List UInt8) :
    ownDisconnects (.onRecv packet :: acts.map .action) = [] := by
  simp [ownDisconnects]

@[simp] theorem actions_onRecv (packet : List UInt8) :
    actions (.onRecv packet :: acts.map .action) = acts := by
  simp [actions]

@[simp] theorem packets_disconnect (cause : DisconnectCause) :
    packets ([.disconnect cause] : List (Event ε)) = [] := rfl

@[simp] theorem ownDisconnects_disconnect (cause : DisconnectCause) :
    ownDisconnects ([.disconnect cause] : List (Event ε)) = [cause] := rfl

@[simp] theorem actions_disconnect (cause : DisconnectCause) :
    actions ([.disconnect cause] : List (Event ε)) = [] := rfl

end Trace

variable {σ ε : Type*} (cls : SessionClass σ ε)

/-! ## Dispatching frames -/

/-- Hand the frames that start at `p` to `OnRecv`, one after the other, until one is refused. -/
def Conn.dispatch : Conn σ ε → Pointer → List (List UInt8) → Conn σ ε × Bool
  | c, _, [] => (c, true)
  | c, p, frame :: frames =>
      match c.onRecv cls p with
      | (c, false) => (c, false)
      | (c, true) => dispatch c (p.advance frame.length) frames

/-- The frames stand one after the other at `p`. -/
def Laid : Pointer → List (List UInt8) → Prop
  | _, [] => True
  | p, frame :: frames =>
      frame = p.bytes (PacketHeader.dataSize p) ∧ Laid (p.advance frame.length) frames

theorem laid_decode (p : Pointer) (n : ℕ) : Laid p (packetFormat.decode (p.bytes n)).packets := by
  generalize hbytes : p.bytes n = bytes
  induction bytes using Framing.Format.decode_induction (F := packetFormat) generalizing p n with
  | invalid bytes h => simp [Framing.Format.decode_of_invalid h, Laid]
  | wait bytes hi hc => simp [Framing.Format.decode_of_wait hi hc, Laid]
  | complete bytes h ih =>
    subst hbytes
    have h1 := h.1
    have h3 := h.2.2
    rw [Pointer.length_bytes] at h1 h3
    rw [Framing.Format.decode_of_complete h]
    simp only [Laid, Pointer.take_bytes p h3, Pointer.length_bytes]
    exact ⟨by rw [packetFormat_size_bytes p h1], ih _ _ (Pointer.drop_bytes p h3).symm⟩

variable {cls}

theorem Conn.dispatch_cons (c : Conn σ ε) (p : Pointer) (frame : List UInt8)
    (frames : List (List UInt8)) :
    c.dispatch cls p (frame :: frames) =
      if (c.onRecv cls p).2 then (c.onRecv cls p).1.dispatch cls (p.advance frame.length) frames
      else ((c.onRecv cls p).1, false) := by
  rw [dispatch]
  rcases c.onRecv cls p with ⟨c', _ | _⟩ <;> rfl

/-- Dispatching only adds to the trace. -/
theorem Conn.dispatch_trace (cls : SessionClass σ ε) (frames : List (List UInt8)) (c : Conn σ ε)
    (p : Pointer) :
    ∃ ext, (c.dispatch cls p frames).1.trace = c.trace ++ ext := by
  induction frames generalizing c p with
  | nil => exact ⟨[], by simp [dispatch]⟩
  | cons frame frames ih =>
    rw [dispatch_cons]
    split_ifs
    · obtain ⟨ext, hext⟩ := ih (c.onRecv cls p).1 (p.advance frame.length)
      exact ⟨_, by rw [hext, Conn.onRecv, List.append_assoc]⟩
    · exact ⟨_, rfl⟩

theorem Conn.dispatch_cons_trace (cls : SessionClass σ ε) (c : Conn σ ε) (p : Pointer)
    (frame : List UInt8) (frames : List (List UInt8)) :
    ∃ packet rest, (c.dispatch cls p (frame :: frames)).1.trace =
      c.trace ++ .onRecv packet :: rest := by
  rw [dispatch_cons]
  split_ifs
  · obtain ⟨ext, hext⟩ := dispatch_trace cls frames (c.onRecv cls p).1
      (p.advance frame.length)
    exact ⟨_, _, by rw [hext, Conn.onRecv, List.append_assoc, List.cons_append]⟩
  · exact ⟨_, _, rfl⟩

/-- A session that accepts every packet is handed all the frames. -/
theorem Conn.dispatch_accept
    (accept : ∀ connected app p, (cls.onRecv connected app p).result = true)
    (frames : List (List UInt8)) (c : Conn σ ε) {p : Pointer} (laid : Laid p frames) :
    ∃ ext, (c.dispatch cls p frames).2 = true ∧
      (c.dispatch cls p frames).1.trace = c.trace ++ ext ∧ packets ext = frames ∧
      ownDisconnects ext = [] ∧ (c.dispatch cls p frames).1.connected =
        (c.connected && !(actions ext).any Action.isDisconnect) := by
  induction frames generalizing c p with
  | nil => exact ⟨[], by simp [dispatch, packets, ownDisconnects, actions]⟩
  | cons frame frames ih =>
    obtain ⟨hframe, laid⟩ := laid
    have hok : (c.onRecv cls p).2 = true := accept _ _ _
    obtain ⟨ext, h1, h2, h3, h4, h5⟩ := ih (c.onRecv cls p).1 laid
    rw [dispatch_cons, if_pos hok]
    refine ⟨.onRecv (p.bytes (PacketHeader.dataSize p)) ::
      (cls.onRecv c.connected c.app p).actions.map .action ++ ext, h1, ?_, ?_, ?_, ?_⟩
    · rw [h2, Conn.onRecv, List.append_assoc]
    · rw [packets_append, packets_onRecv, h3, ← hframe]
      rfl
    · rw [ownDisconnects_append, ownDisconnects_onRecv, h4]
      rfl
    · rw [h5, actions_append, actions_onRecv, List.any_append]
      simp [Conn.onRecv, Bool.and_assoc]

namespace Session

variable {s : Session σ ε}

/-- The loop stops at bytes that start neither with a complete frame nor with an invalid header. -/
theorem recvLoop_of_wait (fuel : ℕ) (hi : ¬ packetFormat.Invalid s.recvBuffer.data)
    (hc : ¬ packetFormat.Complete s.recvBuffer.data) : recvLoop cls fuel s = (s, true) := by
  rw [RecvBuffer.invalid_data_iff] at hi
  rw [RecvBuffer.complete_data_iff] at hc
  cases fuel with
  | zero => rfl
  | succ fuel =>
    by_cases h1 : s.recvBuffer.dataSize < sizeofPacketHeader
    · rw [recvLoop, if_pos h1]
    · rw [recvLoop, if_neg h1]
      simp only
      rw [if_neg (by omega), if_pos (by omega)]

theorem recvLoop_of_invalid {fuel : ℕ} (h : packetFormat.Invalid s.recvBuffer.data)
    (hf : s.recvBuffer.dataSize ≤ fuel) :
    recvLoop cls fuel s = (s.disconnect cls .invalidPacketSize, false) := by
  obtain ⟨h1, h2⟩ := (RecvBuffer.invalid_data_iff _).1 h
  have hpos : 0 < sizeofPacketHeader := by decide
  obtain ⟨fuel, rfl⟩ : ∃ k, fuel = k + 1 := ⟨fuel - 1, by omega⟩
  rw [recvLoop, if_neg (by omega)]
  simp only
  rw [if_pos h2]

/-- One turn of the loop on a complete frame. -/
theorem recvLoop_of_complete (cls : SessionClass σ ε) {fuel : ℕ}
    (h : packetFormat.Complete s.recvBuffer.data) (hf : s.recvBuffer.dataSize ≤ fuel) :
    ∃ (b : RecvBuffer) (k : ℕ), b.dataSize ≤ k ∧
      b.data = s.recvBuffer.data.drop (packetFormat.size s.recvBuffer.data) ∧
      b.readPointer = s.recvBuffer.readPointer.advance (packetFormat.size s.recvBuffer.data) ∧
      recvLoop cls fuel s =
        match s.toConn.onRecv cls s.recvBuffer.readPointer with
        | (c, false) => ({ s with toConn := c }.disconnect cls .onReadError, false)
        | (c, true) => recvLoop cls k { s with toConn := c, recvBuffer := b } := by
  obtain ⟨hsize, -⟩ := RecvBuffer.take_size_data h
  obtain ⟨h1, h2, h3⟩ := (RecvBuffer.complete_data_iff _).1 h
  have hpos : 0 < sizeofPacketHeader := by decide
  obtain ⟨b, hb, hdata, hptr, hlen, -⟩ := RecvBuffer.onRead_of_le h3
  obtain ⟨fuel, rfl⟩ : ∃ k, fuel = k + 1 := ⟨fuel - 1, by omega⟩
  rw [hsize]
  refine ⟨b, fuel, by omega, hdata, hptr, ?_⟩
  rw [recvLoop, if_neg (by omega)]
  simp only
  rw [if_neg (by omega), if_neg (by omega)]
  generalize s.toConn.onRecv cls s.recvBuffer.readPointer = r
  obtain ⟨c, _ | _⟩ := r
  · rfl
  · rw [hb]

/-- The loop decodes the bytes of the buffer and dispatches the frames until one is refused. -/
theorem recvLoop_eq (cls : SessionClass σ ε) {fuel : ℕ} (hf : s.recvBuffer.dataSize ≤ fuel)
    {d : Framing.Decoded UInt8} (hd : packetFormat.decode s.recvBuffer.data = d)
    {r : Conn σ ε × Bool}
    (hr : s.toConn.dispatch cls s.recvBuffer.readPointer d.packets = r) :
    ∃ b : RecvBuffer, (r.2 = true → b.data = d.rest) ∧
      recvLoop cls fuel s =
        if r.2 = false then
          (⟨r.1.disconnect cls .onReadError, b, s.recvPosted⟩, false)
        else if d.invalid then
          (⟨r.1.disconnect cls .invalidPacketSize, b, s.recvPosted⟩, false)
        else (⟨r.1, b, s.recvPosted⟩, true) := by
  generalize hbytes : s.recvBuffer.data = bytes at hd
  induction bytes using Framing.Format.decode_induction (F := packetFormat)
    generalizing s fuel d r with
  | invalid bytes h =>
    subst hbytes hd hr
    refine ⟨s.recvBuffer, ?_, ?_⟩
    · simp [Framing.Format.decode_of_invalid h]
    · simp [recvLoop_of_invalid h hf, Framing.Format.decode_of_invalid h, Conn.dispatch,
        disconnect]
  | wait bytes hi hc =>
    subst hbytes hd hr
    refine ⟨s.recvBuffer, ?_, ?_⟩
    · simp [Framing.Format.decode_of_wait hi hc]
    · simp [recvLoop_of_wait fuel hi hc, Framing.Format.decode_of_wait hi hc, Conn.dispatch]
  | complete bytes h ih =>
    subst hbytes
    obtain ⟨b, k, hk, hdata, hptr, hloop⟩ := recvLoop_of_complete cls h hf
    have hlen : (s.recvBuffer.data.take (packetFormat.size s.recvBuffer.data)).length =
        packetFormat.size s.recvBuffer.data := by
      rw [List.length_take, Nat.min_eq_left h.2.2]
    rw [Framing.Format.decode_of_complete h] at hd
    subst hd
    rw [Conn.dispatch, hlen, ← hptr] at hr
    rcases hrecv : s.toConn.onRecv cls s.recvBuffer.readPointer with ⟨c, ok⟩
    rw [hrecv] at hr
    rw [hloop, hrecv]
    cases ok with
    | false =>
      subst hr
      exact ⟨s.recvBuffer, fun h => Bool.noConfusion h, rfl⟩
    | true =>
      obtain ⟨b', hb', heq⟩ := ih (s := { s with toConn := c, recvBuffer := b })
        (d := packetFormat.decode _) hk hr hdata rfl
      exact ⟨b', hb', heq⟩

/-! ## Completions -/

/-- A completion dispatches the frames that it makes complete. -/
theorem receive_eq (cls : SessionClass σ ε) {bytes : List UInt8} (posted : s.recvPosted = true)
    (nonempty : bytes ≠ []) (fits : bytes.length ≤ s.recvBuffer.freeSize) (result : WsaResult)
    {d : Framing.Decoded UInt8} {r : Conn σ ε × Bool}
    (hd : packetFormat.decode (s.recvBuffer.data ++ bytes) = d)
    (hr : s.toConn.dispatch cls (s.recvBuffer.fill bytes).readPointer d.packets = r) :
    ∃ b : RecvBuffer, (r.2 = true → b.data = d.rest) ∧
      s.receive cls bytes result =
        if r.2 = false then ⟨r.1.disconnect cls .onReadError, b, false⟩
        else if d.invalid then ⟨r.1.disconnect cls .invalidPacketSize, b, false⟩
        else registerRecv cls ⟨r.1, b, false⟩ result := by
  obtain ⟨b, hb, hdata, hptr, -⟩ := s.recvBuffer.fill_onWrite fits
  rw [← hdata] at hd
  rw [← hptr] at hr
  obtain ⟨b', hb', hloop⟩ := recvLoop_eq cls (le_refl b.dataSize)
    (s := { s with recvBuffer := b, recvPosted := false }) hd hr
  rw [receive, if_pos posted, processRecv, if_neg (by simpa using nonempty)]
  simp only [hb, hloop]
  by_cases hok : r.2 = false
  · exact ⟨b', hb', by simp [hok]⟩
  · by_cases hinv : d.invalid = true
    · exact ⟨b', hb', by simp [hok, hinv]⟩
    · refine ⟨b'.clean, fun h => ?_, by simp [hok, hinv]⟩
      rw [RecvBuffer.clean_data]
      exact hb' h

/-- The frames of a completion stand at the pointer from which they are dispatched. -/
theorem laid_receive {bytes : List UInt8} (fits : bytes.length ≤ s.recvBuffer.freeSize) :
    Laid (s.recvBuffer.fill bytes).readPointer
      (packetFormat.decode (s.recvBuffer.data ++ bytes)).packets := by
  obtain ⟨b, -, hdata, hptr, -⟩ := s.recvBuffer.fill_onWrite fits
  rw [← hdata, ← hptr]
  exact laid_decode b.readPointer b.dataSize

/-- What a completion adds to the trace of a session that accepts every packet, and what it leaves
in the buffer. -/
theorem receive_accept
    (accept : ∀ connected app p, (cls.onRecv connected app p).result = true)
    {bytes : List UInt8} (posted : s.recvPosted = true) (nonempty : bytes ≠ [])
    (fits : bytes.length ≤ s.recvBuffer.freeSize) {d : Framing.Decoded UInt8}
    (hd : packetFormat.decode (s.recvBuffer.data ++ bytes) = d) :
    ∃ ext, (s.receive cls bytes .pending).trace = s.trace ++ ext ∧ packets ext = d.packets ∧
      ownDisconnects ext = (if d.invalid then [.invalidPacketSize] else []) ∧
      (s.receive cls bytes .pending).connected =
        (s.connected && !(actions ext).any Action.isDisconnect && !d.invalid) ∧
      (s.receive cls bytes .pending).recvPosted = (s.receive cls bytes .pending).connected ∧
      (d.invalid = false → (s.receive cls bytes .pending).recvBuffer.data = d.rest) := by
  obtain ⟨b, hb, heq⟩ := receive_eq cls posted nonempty fits .pending hd rfl
  have laid : Laid (s.recvBuffer.fill bytes).readPointer d.packets := hd ▸ laid_receive fits
  obtain ⟨ext, hok, htrace, hpackets, hown, hconn⟩ :=
    Conn.dispatch_accept accept d.packets s.toConn laid
  rw [heq, if_neg (by simp [hok])]
  by_cases hinv : d.invalid = true
  · refine ⟨ext ++ [.disconnect .invalidPacketSize], ?_⟩
    simp [hinv, Conn.disconnect, htrace, hpackets, hown]
  · rw [Bool.not_eq_true] at hinv
    refine ⟨ext, ?_⟩
    cases hc : (s.toConn.dispatch cls (s.recvBuffer.fill bytes).readPointer
      d.packets).1.connected with
    | true => simp [hinv, registerRecv, hc, htrace, hpackets, hown, ← hconn, hb hok]
    | false => simp [hinv, registerRecv, hc, htrace, hpackets, hown, ← hconn, hb hok]

/-! ## Whole streams -/

/-- The calls of `Disconnect` that the reference decoding asks for. -/
def expectedDisconnects (d : Framing.Decoded UInt8) : List DisconnectCause :=
  if d.invalid then [.invalidPacketSize] else []

/-- The session has received the stream and goes on receiving. -/
structure Receiving (s : Session σ ε) (stream : List UInt8) : Prop where
  connected : s.connected = true
  posted : s.recvPosted = true
  valid : (packetFormat.decode stream).invalid = false
  packets_eq : packets s.trace = (packetFormat.decode stream).packets
  own : ownDisconnects s.trace = []
  data : s.recvBuffer.data = (packetFormat.decode stream).rest

/-- The session was disconnected while it received the stream. -/
structure Stopped (s : Session σ ε) (stream : List UInt8) : Prop where
  connected : s.connected = false
  posted : s.recvPosted = false
  packets_le : packets s.trace <+: (packetFormat.decode stream).packets
  own_le : ownDisconnects s.trace <+: expectedDisconnects (packetFormat.decode stream)
  complete : (actions s.trace).any Action.isDisconnect = false →
    (packetFormat.decode stream).invalid = true ∧
      packets s.trace = (packetFormat.decode stream).packets ∧
      ownDisconnects s.trace = [.invalidPacketSize]

theorem Receiving.receive
    (accept : ∀ connected app p, (cls.onRecv connected app p).result = true)
    {stream bytes : List UInt8} (h : Receiving s stream) (nonempty : bytes ≠ [])
    (fits : bytes.length ≤ s.recvBuffer.freeSize) :
    Receiving (s.receive cls bytes .pending) (stream ++ bytes) ∨
      Stopped (s.receive cls bytes .pending) (stream ++ bytes) := by
  have hdecode := Framing.Format.decode_append stream bytes h.valid
  rw [← h.data] at hdecode
  obtain ⟨ext, htrace, hpackets, hown, hconn, hposted, hdata⟩ :=
    receive_accept accept h.posted nonempty fits rfl
  rw [h.connected, Bool.true_and] at hconn
  have hall : packets (s.receive cls bytes .pending).trace =
      (packetFormat.decode (stream ++ bytes)).packets := by
    rw [htrace, packets_append, hpackets, h.packets_eq, hdecode]
  have hownAll : ownDisconnects (s.receive cls bytes .pending).trace =
      expectedDisconnects (packetFormat.decode (stream ++ bytes)) := by
    rw [htrace, ownDisconnects_append, hown, h.own, hdecode]
    rfl
  cases hc : (s.receive cls bytes .pending).connected with
  | true =>
    rw [hc, eq_comm, Bool.and_eq_true, Bool.not_eq_true', Bool.not_eq_true'] at hconn
    refine .inl ⟨hc, hposted.trans hc, by rw [hdecode]; exact hconn.2, hall, ?_, ?_⟩
    · rw [hownAll, hdecode]
      simp [expectedDisconnects, hconn.2]
    · rw [hdata hconn.2, hdecode]
  | false =>
    refine .inr ⟨hc, hposted.trans hc, hall ▸ List.prefix_refl _, hownAll ▸ List.prefix_refl _, ?_⟩
    intro hno
    rw [htrace, actions_append, List.any_append, Bool.or_eq_false_iff] at hno
    have hinvalid : (packetFormat.decode (stream ++ bytes)).invalid = true := by
      rw [hdecode]
      rw [hc, hno.2] at hconn
      simpa using hconn.symm
    exact ⟨hinvalid, hall, by simp [hownAll, expectedDisconnects, hinvalid]⟩

/-- A session without an outstanding receive receives nothing more. -/
theorem Stopped.receive {stream : List UInt8} (h : Stopped s stream) (bytes : List UInt8) :
    Stopped (s.receive cls bytes .pending) (stream ++ bytes) := by
  have hsame : s.receive cls bytes .pending = s := by
    rw [Session.receive, if_neg (by simp [h.posted])]
  rw [hsame]
  cases hinv : (packetFormat.decode stream).invalid with
  | true =>
    have hdecode := Framing.Format.decode_append_of_invalid stream bytes hinv
    refine ⟨h.connected, h.posted, ?_, ?_, fun hno => ?_⟩
    · rw [hdecode]
      exact h.packets_le
    · have := h.own_le
      rw [expectedDisconnects, hinv] at this
      rwa [hdecode]
    · rw [hdecode]
      exact ⟨rfl, (h.complete hno).2⟩
  | false =>
    have hdecode := Framing.Format.decode_append stream bytes hinv
    have hnone : ownDisconnects s.trace = [] := by
      have := h.own_le
      rw [expectedDisconnects, hinv] at this
      exact List.prefix_nil.1 this
    refine ⟨h.connected, h.posted, ?_, ?_, fun hno => ?_⟩
    · rw [hdecode]
      exact h.packets_le.trans (List.prefix_append _ _)
    · rw [hnone]
      exact List.nil_prefix
    · have := (h.complete hno).1
      rw [hinv] at this
      cases this

/-- A session that accepts every packet and does nothing else. -/
def acceptAll : SessionClass Unit Empty := ⟨fun _ _ _ => ⟨true, [], ()⟩, id⟩

end Session

end DhNet
