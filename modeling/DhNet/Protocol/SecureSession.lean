import DhNet.Protocol.Crypto

/-!
# Encrypted sessions

`GameSession` on the server and `ServerSession` on the client share their encryption state, their
`Send` and their `SendEncrypted`.  A call of one of their methods is an `Activity`: it carries
`m_connected`, the state of the session and the actions made so far.

What the environment decides is fixed in advance by `SecureEnv`: the outcome of each key
generation, each nonce, the contents of the stack where `plainBuf` will be, and whether handing a
frame to the socket ends in `HandleError` with a reset connection.  A packet handler is given by
what it does (`HandlerReply`); `ω` are the handlers' other outputs.
-/

namespace DhNet

/-- What the environment decides in the course of a session. -/
structure SecureEnv (K : Type*) where
  ssl : OpenSsl K
  keyPair : ℕ → Option K
  nonce : ℕ → List UInt8
  sendReset : ℕ → Bool
  stack : ℕ → Pointer

/-- The encryption state, the state `π` of the handlers, and the number of key generations, sends,
encryptions and received packets so far. -/
structure SecureState (K π : Type*) where
  handshakeDone : Bool
  cipher : Option (List UInt8)
  myPrivKey : Option K
  app : π
  keyPairs : ℕ
  sends : ℕ
  encryptions : ℕ
  frames : ℕ

/-- One more frame was handed to `Session::Send`. -/
def SecureState.countSend {K π : Type*} (st : SecureState K π) : SecureState K π :=
  { st with sends := st.sends + 1 }

/-- One more nonce was drawn. -/
def SecureState.drawNonce {K π : Type*} (st : SecureState K π) : SecureState K π :=
  { st with encryptions := st.encryptions + 1 }

/-- What a session does besides disconnecting: hand a frame, and with it the packet that it carries
encrypted, to `Session::Send`, set `m_handshakeDone`, call `PacketHandler::Process` on a decrypted
packet, use a null `m_cipher`, or an output of a handler. -/
inductive SecureEvent (ω : Type*) where
  | send (packet : Option (List UInt8)) (frame : List UInt8)
  | handshakeDone
  | process (packetNum : ℕ) (packet : List UInt8)
  | nullCipher
  | output (value : ω)
  deriving DecidableEq, Repr

/-- What a handler does: pass a packet to `Send`, call `Disconnect`, or another output. -/
inductive Effect (ω : Type*) where
  | send (sender : Pointer)
  | disconnect (cause : DisconnectCause)
  | output (value : ω)

/-- The outcome of a packet handler. -/
structure HandlerReply (π ω : Type*) where
  result : Bool
  effects : List (Effect ω)
  app : π

/-- The registered packet handlers and the handlers' part of `OnDisconnected`. -/
structure Handlers (π ω : Type*) where
  find : ℕ → Option (π → Pointer → HandlerReply π ω)
  onDisconnected : π → π

/-- A method of a session in progress. -/
structure Activity (K π ω : Type*) where
  connected : Bool
  state : SecureState K π
  actions : List (Action (SecureEvent ω))

namespace Activity

variable {K π ω : Type*} (env : SecureEnv K) (handlers : Handlers π ω)

/-- Change the state of the session. -/
def modify (a : Activity K π ω) (f : SecureState K π → SecureState K π) : Activity K π ω :=
  ⟨a.connected, f a.state, a.actions⟩

/-- Record something the session does. -/
def emit (a : Activity K π ω) (event : SecureEvent ω) : Activity K π ω :=
  ⟨a.connected, a.state, a.actions ++ [.other event]⟩

/-- `Session::Disconnect`. -/
def disconnect (a : Activity K π ω) (cause : DisconnectCause) : Activity K π ω where
  connected := false
  state :=
    if a.connected then { a.state with app := handlers.onDisconnected a.state.app } else a.state
  actions := a.actions ++ [.disconnect cause]

/-- `Session::Send`; `RegisterSend` does nothing on a disconnected session. -/
def sessionSend (a : Activity K π ω) (packet : Option (List UInt8)) (frame : List UInt8) :
    Activity K π ω :=
  let sent := (a.emit (.send packet frame)).modify .countSend
  if a.connected ∧ env.sendReset a.state.sends then sent.disconnect handlers .handleError else sent

/-- `SendEncrypted`; `GetSendSize` is the `m_dataSize` of the packet. -/
def sendEncrypted (a : Activity K π ω) (inner : Pointer) : Activity K π ω :=
  let innerLen := PacketHeader.dataSize inner
  if innerLen = 0 ∨ maxPlainPacketSize < innerLen then a
  else
    match a.state.cipher with
    | none => a.emit .nullCipher
    | some key =>
        let next := a.modify .drawNonce
        match AesGcm.encrypt env.ssl key (env.nonce a.state.encryptions) (inner.bytes innerLen) with
        | none => next
        | some payload =>
            next.sessionSend env handlers (some (inner.bytes innerLen)) (encryptedPacket payload)

/-- `Send` of the derived sessions. -/
def send (a : Activity K π ω) (sender : Pointer) : Activity K π ω :=
  if a.state.handshakeDone then a.sendEncrypted env handlers sender
  else a.sessionSend env handlers none (sender.bytes (PacketHeader.dataSize sender))

/-- One effect of a handler. -/
def effect (a : Activity K π ω) : Effect ω → Activity K π ω
  | .send sender => a.send env handlers sender
  | .disconnect cause => a.disconnect handlers cause
  | .output value => a.emit (.output value)

/-- `PacketHandler::Process` on a decrypted packet. -/
def process (a : Activity K π ω) (inner : Pointer) : Activity K π ω × Bool :=
  let a := a.emit (.process (PacketHeader.packetNum inner)
    (inner.bytes (PacketHeader.dataSize inner)))
  match handlers.find (PacketHeader.packetNum inner) with
  | none => (a, false)
  | some handler =>
      let reply := handler a.state.app inner
      (reply.effects.foldl (effect env handlers) (a.modify fun st => { st with app := reply.app }),
        reply.result)

/-- The outcome of `OnRecv`. -/
def reply (a : Activity K π ω) (result : Bool) : Reply (SecureState K π) (SecureEvent ω) :=
  ⟨result, a.actions, a.state⟩

end Activity

/-- The start of `OnRecv`. -/
def SecureState.begin {K π ω : Type*} (st : SecureState K π) (connected : Bool) :
    Activity K π ω where
  connected := connected
  state := { st with frames := st.frames + 1 }
  actions := []

/-- `plainBuf` after a successful `Decrypt`: the plaintext over what the stack held before. -/
def plainBuf {K π : Type*} (env : SecureEnv K) (st : SecureState K π) (plain : List UInt8) :
    Pointer :=
  .overlay plain (env.stack st.frames)

/-- The size of the payload of an `EncryptedPacket` at `p`. -/
def payloadLen (p : Pointer) : ℕ := PacketHeader.dataSize p - sizeofPacketHeader

/-- The payload of an `EncryptedPacket` at `p`. -/
def payload (p : Pointer) : List UInt8 := (p.advance sizeofPacketHeader).bytes (payloadLen p)

/-- The public key of a key exchange packet at `p`. -/
def pubKey (p : Pointer) : List UInt8 := (p.advance sizeofPacketHeader).bytes pubKeySize

/-! ## What a method adds -/

namespace Activity

variable {K π ω : Type*} {a b c : Activity K π ω}

/-- A later point of the same method, with the handshake left as it was. -/
structure Extends (a b : Activity K π ω) : Prop where
  actions : ∃ ext, b.actions = a.actions ++ ext ∧ .other .handshakeDone ∉ ext
  handshakeDone : b.state.handshakeDone = a.state.handshakeDone
  cipher : b.state.cipher = a.state.cipher

theorem Extends.refl (a : Activity K π ω) : Extends a a := ⟨⟨[], by simp⟩, rfl, rfl⟩

theorem Extends.trans (h : Extends a b) (h' : Extends b c) : Extends a c := by
  obtain ⟨ext, hext, hno⟩ := h.actions
  obtain ⟨ext', hext', hno'⟩ := h'.actions
  refine ⟨⟨ext ++ ext', ?_, ?_⟩, h'.handshakeDone.trans h.handshakeDone, h'.cipher.trans h.cipher⟩
  · rw [hext', hext, List.append_assoc]
  · simp [hno, hno']

theorem extends_emit (a : Activity K π ω) (event : SecureEvent ω) (h : event ≠ .handshakeDone) :
    Extends a (a.emit event) :=
  ⟨⟨[.other event], rfl, by simpa using Ne.symm h⟩, rfl, rfl⟩

/-- A call of `Disconnect` stays on record. -/
theorem Extends.any_isDisconnect (h : Extends a b)
    (ha : a.actions.any Action.isDisconnect = true) :
    b.actions.any Action.isDisconnect = true := by
  obtain ⟨ext, hext, -⟩ := h.actions
  rw [hext, List.any_append, ha, Bool.true_or]

variable (env : SecureEnv K) (handlers : Handlers π ω)

theorem extends_disconnect (a : Activity K π ω) (cause : DisconnectCause) :
    Extends a (a.disconnect handlers cause) := by
  refine ⟨⟨[.disconnect cause], rfl, by simp⟩, ?_, ?_⟩
  · unfold disconnect
    split_ifs <;> rfl
  · unfold disconnect
    split_ifs <;> rfl

theorem extends_sessionSend (a : Activity K π ω) (packet : Option (List UInt8))
    (frame : List UInt8) : Extends a (a.sessionSend env handlers packet frame) := by
  have hsent : Extends a ((a.emit (.send packet frame)).modify .countSend) :=
    ⟨⟨[.other (.send packet frame)], rfl, by simp⟩, rfl, rfl⟩
  unfold sessionSend
  split_ifs
  · exact hsent.trans (extends_disconnect handlers _ _)
  · exact hsent

theorem extends_sendEncrypted (a : Activity K π ω) (inner : Pointer) :
    Extends a (a.sendEncrypted env handlers inner) := by
  have hnext : Extends a (a.modify .drawNonce) := ⟨⟨[], by simp [modify]⟩, rfl, rfl⟩
  unfold sendEncrypted
  simp only
  split_ifs
  · exact .refl a
  · split
    · exact extends_emit a _ (by simp)
    · split
      · exact hnext
      · exact hnext.trans (extends_sessionSend env handlers _ _ _)

theorem extends_effect (a : Activity K π ω) (e : Effect ω) :
    Extends a (a.effect env handlers e) := by
  cases e with
  | send sender =>
    unfold effect send
    split_ifs
    · exact extends_sendEncrypted env handlers a sender
    · exact extends_sessionSend env handlers a _ _
  | disconnect cause => exact extends_disconnect handlers a cause
  | output value => exact extends_emit a _ (by simp)

theorem extends_effects (effects : List (Effect ω)) (a : Activity K π ω) :
    Extends a (effects.foldl (effect env handlers) a) := by
  induction effects generalizing a with
  | nil => exact .refl a
  | cons e effects ih => exact (extends_effect env handlers a e).trans (ih _)

theorem extends_process (a : Activity K π ω) (inner : Pointer) :
    Extends a (a.process env handlers inner).1 := by
  unfold process
  simp only
  split
  · exact extends_emit a _ (by simp)
  · have hemit := extends_emit a (.process (PacketHeader.packetNum inner)
      (inner.bytes (PacketHeader.dataSize inner))) (by simp)
    refine hemit.trans (.trans ?_ (extends_effects env handlers _ _))
    exact ⟨⟨[], by simp [modify]⟩, rfl, rfl⟩

/-! ## Earlier actions do not matter -/

/-- The same point of a method with other actions before it. -/
def prepend (xs : List (Action (SecureEvent ω))) (a : Activity K π ω) : Activity K π ω :=
  ⟨a.connected, a.state, xs ++ a.actions⟩

variable (xs : List (Action (SecureEvent ω)))

theorem disconnect_prepend (a : Activity K π ω) (cause : DisconnectCause) :
    (a.prepend xs).disconnect handlers cause = (a.disconnect handlers cause).prepend xs :=
  congrArg (Activity.mk false _) (List.append_assoc xs a.actions [.disconnect cause])

theorem sessionSend_prepend (a : Activity K π ω) (packet : Option (List UInt8))
    (frame : List UInt8) :
    (a.prepend xs).sessionSend env handlers packet frame =
      (a.sessionSend env handlers packet frame).prepend xs := by
  have hsent : ((a.prepend xs).emit (.send packet frame)).modify .countSend =
      (((a.emit (.send packet frame)).modify .countSend).prepend xs) := by
    simp [prepend, emit, modify]
  have hconn : (a.prepend xs).connected = a.connected := rfl
  have hstate : (a.prepend xs).state = a.state := rfl
  unfold sessionSend
  simp only [hsent, hconn, hstate]
  split_ifs
  · rw [disconnect_prepend]
  · rfl

theorem sendEncrypted_prepend (a : Activity K π ω) (inner : Pointer) :
    (a.prepend xs).sendEncrypted env handlers inner =
      (a.sendEncrypted env handlers inner).prepend xs := by
  have hnext : (a.prepend xs).modify .drawNonce = (a.modify .drawNonce).prepend xs := rfl
  have hstate : (a.prepend xs).state = a.state := rfl
  unfold sendEncrypted
  simp only [hnext, hstate]
  split_ifs
  · rfl
  · split
    · simp [prepend, emit]
    · split
      · rfl
      · rw [sessionSend_prepend]

theorem effect_prepend (a : Activity K π ω) (e : Effect ω) :
    (a.prepend xs).effect env handlers e = (a.effect env handlers e).prepend xs := by
  cases e with
  | send sender =>
    have hstate : (a.prepend xs).state = a.state := rfl
    simp only [effect, send, hstate]
    split_ifs
    · rw [sendEncrypted_prepend]
    · rw [sessionSend_prepend]
  | disconnect cause => exact disconnect_prepend handlers xs a cause
  | output value => simp [effect, prepend, emit]

theorem effects_prepend (effects : List (Effect ω)) (a : Activity K π ω) :
    effects.foldl (effect env handlers) (a.prepend xs) =
      (effects.foldl (effect env handlers) a).prepend xs := by
  induction effects generalizing a with
  | nil => rfl
  | cons e effects ih => rw [List.foldl_cons, effect_prepend, ih, List.foldl_cons]

end Activity

end DhNet
