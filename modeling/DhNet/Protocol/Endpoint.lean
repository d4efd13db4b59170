import DhNet.Protocol.Channel

/-!
# The sessions as endpoints of a channel

* `Sealed`: a frame that carries a packet under a key.
* `Terms`: what the two sides of a connection come to agree on.
* `Endpoint`: what a session class has to do with the frames of its peer; `endpoint_gameSession` and
  `endpoint_serverSession` show that the two session classes do it.
-/

namespace DhNet

variable {K π ω π' ω' : Type*}

/-! ## Assumptions -/

/-- OpenSSL works, nonces have 12 bytes, and the connection is not reset. -/
structure SecureEnv.Reliable (env : SecureEnv K) : Prop where
  lawful : env.ssl.Lawful
  keyPair : ∀ n, ∃ key, env.keyPair n = some key
  nonce : ∀ n, (env.nonce n).length = 12
  noReset : ∀ n, env.sendReset n = false

/-- A handler is registered for the packet. -/
def Handlers.Knows (handlers : Handlers π ω) (packet : List UInt8) : Prop :=
  ∃ handler, handlers.find (PacketHeader.packetNum (.ofList packet)) = some handler

/-- A packet that may be passed to `Send` for a peer with these handlers. -/
def Handlers.Takes (handlers : Handlers π ω) (packet : List UInt8) : Prop :=
  IsPacket packet ∧ handlers.Knows packet

/-- The packets that the handlers of one side send are taken by the other side. -/
def Handlers.SpeakTo (handlers : Handlers π ω) (peer : Handlers π' ω') : Prop :=
  ∀ num handler app p sender, handlers.find num = some handler →
    .send sender ∈ (handler app p).effects →
      peer.Takes (sender.bytes (PacketHeader.dataSize sender))

/-- The handler that `OnRecv` calls for the encrypted packet at `p`, if it calls one, returns
`true`. -/
def Handlers.Approves (env : SecureEnv K) (handlers : Handlers π ω) (st : SecureState K π)
    (p : Pointer) : Prop :=
  ∀ key plain handler, st.cipher = some key → AesGcm.decrypt env.ssl key (payload p) = some plain →
    handlers.find (PacketHeader.packetNum (plainBuf env st plain)) = some handler →
      (handler st.app (plainBuf env st plain)).result = true

/-- No handler calls `Disconnect`. -/
def Handlers.Keep (handlers : Handlers π ω) : Prop :=
  ∀ num handler app p cause, handlers.find num = some handler →
    .disconnect cause ∉ (handler app p).effects

/-! ## Frames that carry a packet -/

/-- A frame that carries a packet of the given kind under a key. -/
def Sealed (ssl : OpenSsl K) (key : List UInt8) (kind : List UInt8 → Prop) (x : SentFrame) : Prop :=
  ∃ packet payload, x = (some packet, encryptedPacket payload) ∧
    payload.length = packet.length + 28 ∧ AesGcm.decrypt ssl key payload = some packet ∧
    IsPacket packet ∧ kind packet

section Frames

variable {p : Pointer} {packet body : List UInt8}

theorem isFrame_encryptedPacket {payload : List UInt8} (h : payload.length = packet.length + 28)
    (hpacket : IsPacket packet) : packetFormat.IsFrame (encryptedPacket payload) := by
  refine isFrame_init .encrypted payload rfl ?_
  have hmax : packet.length ≤ 1280 := hpacket.2.1
  have hheader : sizeofPacketHeader = 4 := rfl
  omega

theorem bytes_drop_header (h : sizeofPacketHeader ≤ PacketHeader.dataSize p) {header : List UInt8}
    (hheader : header.length = sizeofPacketHeader)
    (hp : p.bytes (PacketHeader.dataSize p) = header ++ body) :
    (p.advance sizeofPacketHeader).bytes (PacketHeader.dataSize p - sizeofPacketHeader) = body := by
  rw [← Pointer.drop_bytes p h, hp, List.drop_left' hheader]

/-- What `OnRecv` reads of an encrypted packet. -/
theorem read_encryptedPacket {payload' : List UInt8}
    (hlen : payload'.length = packet.length + 28) (hpacket : IsPacket packet)
    (hp : p.bytes (PacketHeader.dataSize p) = encryptedPacket payload') :
    PacketHeader.packetNum p = PacketEnum.encrypted.num ∧ payloadLen p = packet.length + 28 ∧
      payload p = payload' := by
  have hmax : packet.length ≤ 1280 := hpacket.2.1
  have hheader : sizeofPacketHeader = 4 := rfl
  obtain ⟨hnum, hsize⟩ := PacketHeader.read_init (by omega) hp
  refine ⟨hnum, ?_, bytes_drop_header (by omega) (length_init _ _) hp⟩
  unfold payloadLen
  omega

/-- What `OnRecv` reads of a key exchange packet. -/
theorem read_keyExchange {num : PacketEnum} (hbody : body.length = pubKeySize)
    (hp : p.bytes (PacketHeader.dataSize p) =
      PacketHeader.init num (sizeofPacketHeader + pubKeySize) ++ body) :
    PacketHeader.packetNum p = num.num ∧ pubKey p = body := by
  obtain ⟨hnum, hsize⟩ := PacketHeader.read_init (by decide) hp
  refine ⟨hnum, ?_⟩
  have hread := bytes_drop_header (by omega) (length_init _ _) hp
  rwa [hsize, Nat.add_sub_cancel_left] at hread

/-- The decrypted packet at the start of `plainBuf`. -/
theorem read_overlay (hpacket : IsPacket packet) (rest : Pointer) :
    PacketHeader.dataSize (.overlay packet rest) = packet.length ∧
      PacketHeader.packetNum (.overlay packet rest) = PacketHeader.packetNum (.ofList packet) ∧
      (Pointer.overlay packet rest).bytes packet.length = packet := by
  have hbyte : ∀ i < 4, Pointer.overlay packet rest i = Pointer.ofList packet i := by
    intro i hi
    have hlt : i < packet.length := lt_of_lt_of_le hi hpacket.1
    simp [Pointer.ofList, Pointer.overlay, hlt]
  refine ⟨?_, ?_, ?_⟩
  · rw [← hpacket.2.2, PacketHeader.dataSize, PacketHeader.dataSize, hbyte 2 (by decide),
      hbyte 3 (by decide)]
  · rw [PacketHeader.packetNum, PacketHeader.packetNum, hbyte 0 (by decide), hbyte 1 (by decide)]
  · rw [Pointer.bytes_overlay, List.take_length, Nat.sub_self]
    exact List.append_nil _

end Frames

/-! ## What a method adds -/

@[simp] theorem sends_append (xs ys : List (Action (SecureEvent ω))) :
    sends (xs ++ ys) = sends xs ++ sends ys := by
  simp [sends]

@[simp] theorem processed_append (xs ys : List (Action (SecureEvent ω))) :
    processed (xs ++ ys) = processed xs ++ processed ys := by
  simp [processed]

namespace Activity

/-- A later point of a method that has sent only sealed packets and called `Process` on the given
ones; `quiet` is what keeps it from disconnecting. -/
structure Adds (ssl : OpenSsl K) (key : List UInt8) (kind : List UInt8 → Prop) (quiet : Prop)
    (a b : Activity K π ω) (packets : List (List UInt8)) : Prop where
  actions : ∃ ext, b.actions = a.actions ++ ext ∧ processed ext = packets ∧
    (∀ x ∈ sends ext, Sealed ssl key kind x) ∧ (quiet → ext.any Action.isDisconnect = false)
  handshakeDone : b.state.handshakeDone = a.state.handshakeDone
  cipher : b.state.cipher = a.state.cipher

variable {ssl : OpenSsl K} {key : List UInt8} {kind : List UInt8 → Prop} {quiet : Prop}
  {a b c : Activity K π ω} {env : SecureEnv K} {handlers : Handlers π ω}

theorem Adds.refl (a : Activity K π ω) : Adds ssl key kind quiet a a [] :=
  ⟨⟨[], by simp [processed, sends]⟩, rfl, rfl⟩

theorem Adds.trans {packets packets' : List (List UInt8)}
    (h : Adds ssl key kind quiet a b packets) (h' : Adds ssl key kind quiet b c packets') :
    Adds ssl key kind quiet a c (packets ++ packets') := by
  obtain ⟨ext, hext, hprocessed, hsends, hquiet⟩ := h.actions
  obtain ⟨ext', hext', hprocessed', hsends', hquiet'⟩ := h'.actions
  refine ⟨⟨ext ++ ext', ?_, ?_, ?_, ?_⟩, h'.handshakeDone.trans h.handshakeDone,
    h'.cipher.trans h.cipher⟩
  · rw [hext', hext, List.append_assoc]
  · rw [processed_append, hprocessed, hprocessed']
  · intro x hx
    rw [sends_append] at hx
    exact (List.mem_append.1 hx).elim (hsends x) (hsends' x)
  · intro hq
    rw [List.any_append, hquiet hq, hquiet' hq]
    rfl

/-- The event is neither a send nor a call of `Process`. -/
theorem adds_emit (a : Activity K π ω) {event : SecureEvent ω}
    (hprocess : processed [.other event] = []) (hsend : sends [.other event] = []) :
    Adds ssl key kind quiet a (a.emit event) [] :=
  ⟨⟨[.other event], rfl, hprocess, by simp [hsend], fun _ => rfl⟩, rfl, rfl⟩

theorem sessionSend_of_reliable (reliable : env.Reliable) (a : Activity K π ω)
    (packet : Option (List UInt8)) (frame : List UInt8) :
    a.sessionSend env handlers packet frame =
      (a.emit (.send packet frame)).modify .countSend := by
  rw [sessionSend, if_neg]
  simp [reliable.noReset]

/-- A packet passed to `Send` after the handshake goes out sealed. -/
theorem send_sealed (reliable : env.Reliable) (handshake : a.state.handshakeDone = true)
    (cipher : a.state.cipher = some key) {sender : Pointer} {packet : List UInt8}
    (hpacket : IsPacket packet) (hkind : kind packet)
    (hsender : sender.bytes (PacketHeader.dataSize sender) = packet) :
    ∃ frame, Sealed env.ssl key kind (some packet, frame) ∧
      a.send env handlers sender =
        ((a.modify .drawNonce).emit (.send (some packet) frame)).modify .countSend := by
  have hsize : PacketHeader.dataSize sender = packet.length := by
    rw [← hsender, Pointer.length_bytes]
  have hmin : 4 ≤ packet.length := hpacket.1
  have hmax := hpacket.2.1
  obtain ⟨payload, henc, hlen, hdec⟩ :=
    reliable.lawful.encrypt_decrypt key (env.nonce a.state.encryptions) packet (reliable.nonce _)
  have hin : ¬ (PacketHeader.dataSize sender = 0 ∨
      maxPlainPacketSize < PacketHeader.dataSize sender) := by
    omega
  refine ⟨encryptedPacket payload, ⟨packet, payload, rfl, hlen, hdec, hpacket, hkind⟩, ?_⟩
  rw [send, if_pos handshake, sendEncrypted]
  simp only [if_neg hin, cipher, hsender, henc]
  exact sessionSend_of_reliable reliable _ _ _

theorem adds_effect (reliable : env.Reliable) (handshake : a.state.handshakeDone = true)
    (cipher : a.state.cipher = some key) {e : Effect ω}
    (speaks : ∀ sender, e = .send sender →
      IsPacket (sender.bytes (PacketHeader.dataSize sender)) ∧
        kind (sender.bytes (PacketHeader.dataSize sender)))
    (keeps : quiet → ∀ cause, e ≠ .disconnect cause) :
    Adds env.ssl key kind quiet a (a.effect env handlers e) [] := by
  cases e with
  | send sender =>
    obtain ⟨hpacket, hkind⟩ := speaks sender rfl
    obtain ⟨frame, hsealed, hsend⟩ :=
      send_sealed reliable handshake cipher hpacket hkind rfl
    rw [effect, hsend]
    exact ⟨⟨[.other (.send _ frame)], rfl, rfl, by simpa [sends] using hsealed, fun _ => rfl⟩,
      rfl, rfl⟩
  | disconnect cause =>
    have hext := extends_disconnect handlers a cause
    exact ⟨⟨[.disconnect cause], rfl, rfl, by simp [sends],
      fun hq => absurd rfl (keeps hq cause)⟩,
      hext.handshakeDone, hext.cipher⟩
  | output value => exact adds_emit a rfl rfl

theorem adds_effects (reliable : env.Reliable) (effects : List (Effect ω)) {a : Activity K π ω}
    (handshake : a.state.handshakeDone = true) (cipher : a.state.cipher = some key)
    (speaks : ∀ sender, .send sender ∈ effects →
      IsPacket (sender.bytes (PacketHeader.dataSize sender)) ∧
        kind (sender.bytes (PacketHeader.dataSize sender)))
    (keeps : quiet → ∀ cause, .disconnect cause ∉ effects) :
    Adds env.ssl key kind quiet a (effects.foldl (effect env handlers) a) [] := by
  induction effects generalizing a with
  | nil => exact .refl a
  | cons e effects ih =>
    have hone : Adds env.ssl key kind quiet a (a.effect env handlers e) [] := by
      refine adds_effect reliable handshake cipher (fun sender he => speaks sender ?_)
        fun hq cause he => keeps hq cause ?_
      · rw [he]
        exact List.mem_cons_self
      · rw [he]
        exact List.mem_cons_self
    exact hone.trans (ih (hone.handshakeDone.trans handshake) (hone.cipher.trans cipher)
      (fun sender h => speaks sender (List.mem_cons_of_mem e h))
      fun hq cause h => keeps hq cause (List.mem_cons_of_mem e h))

/-- `PacketHandler::Process` on a decrypted packet that the handlers take. -/
theorem adds_process (reliable : env.Reliable) {peer : Handlers π' ω'}
    (speaks : handlers.SpeakTo peer) (handshake : a.state.handshakeDone = true)
    (cipher : a.state.cipher = some key) {packet : List UInt8} (takes : handlers.Takes packet)
    (rest : Pointer) :
    Adds env.ssl key peer.Knows handlers.Keep a
        (a.process env handlers (.overlay packet rest)).1 [packet] ∧
      ∃ handler, handlers.find (PacketHeader.packetNum (.overlay packet rest)) = some handler ∧
        (a.process env handlers (.overlay packet rest)).2 =
          (handler a.state.app (.overlay packet rest)).result := by
  obtain ⟨hpacket, handler, hfind⟩ := takes
  obtain ⟨hsize, hnum, hbytes⟩ := read_overlay hpacket rest
  have hcall : Adds env.ssl key peer.Knows handlers.Keep a
      (a.emit (.process (PacketHeader.packetNum (.ofList packet)) packet)) [packet] :=
    ⟨⟨[.other (.process _ packet)], rfl, rfl, nofun, fun _ => rfl⟩, rfl, rfl⟩
  unfold process
  simp only [hsize, hnum, hbytes, hfind]
  refine ⟨?_, handler, rfl, rfl⟩
  have hmodify : ∀ (b : Activity K π ω) (app : π), Adds env.ssl key peer.Knows handlers.Keep b
      (b.modify fun st => { st with app := app }) [] :=
    fun b app => ⟨⟨[], by simp [modify, processed, sends]⟩, rfl, rfl⟩
  exact hcall.trans ((hmodify _ _).trans
    (adds_effects reliable _ handshake cipher (fun sender h => speaks _ _ _ _ sender hfind h)
      fun hkeep cause => hkeep _ _ _ _ cause hfind))

end Activity

/-! ## Terms -/

namespace Channel

/-- The other side. -/
def Side.peer : Side → Side
  | .server => .client
  | .client => .server

/-- What the two sides come to agree on: the functions of OpenSSL and the session key, the key
exchange packet of each side and the packets that its handlers know. -/
structure Terms (K : Type*) where
  ssl : OpenSsl K
  key : List UInt8
  hello : Side → List UInt8
  knows : Side → List UInt8 → Prop

/-- What a side sends before it has received the key exchange packet of its peer. -/
def Terms.opening (terms : Terms K) : Side → List SentFrame
  | .server => []
  | .client => [(none, terms.hello .client)]

/-- A sealed packet of a side, which its peer knows. -/
def Terms.Seals (terms : Terms K) (side : Side) (x : SentFrame) : Prop :=
  Sealed terms.ssl terms.key (terms.knows side.peer) x

/-- The frames of a side: its key exchange packet, and then sealed packets. -/
def Terms.Script (terms : Terms K) (side : Side) (frames : List SentFrame) : Prop :=
  ∃ rest, frames = (none, terms.hello side) :: rest ∧ ∀ x ∈ rest, terms.Seals side x

/-- A later point of a session with an established key: it has called `Process` on the packets and
sent the answer. -/
structure Handled (key : List UInt8) (quiet : Prop) (c c' : Conn (SecureState K π) (SecureEvent ω))
    (packets : List (List UInt8)) (answer : List SentFrame) : Prop where
  trace : ∃ ext, c'.trace = c.trace ++ ext ∧ ownDisconnects ext = [] ∧
    processed (actions ext) = packets ∧ sends (actions ext) = answer
  handshakeDone : c'.app.handshakeDone = true
  cipher : c'.app.cipher = some key
  connected : quiet → c'.connected = c.connected

/-- What a session class has to do with the frames of its peer: `ready` is its state before it has
received the key exchange packet, and `approves` says that the handler of a sealed packet returns
`true`. -/
structure Endpoint (terms : Terms K) (side : Side)
    (cls : SessionClass (SecureState K π) (SecureEvent ω)) (ready : SecureState K π → Prop)
    (approves : SecureState K π → Pointer → Prop) (quiet : Prop) : Prop where
  hello : packetFormat.IsFrame (terms.hello side.peer)
  greet : ∀ (c : Conn (SecureState K π) (SecureEvent ω)) (p : Pointer),
    c.app.handshakeDone = false → ready c.app →
    p.bytes (PacketHeader.dataSize p) = terms.hello side.peer →
      (c.onRecv cls p).2 = true ∧
        ∃ answer, Handled terms.key quiet c (c.onRecv cls p).1 [] answer ∧
          terms.Script side (terms.opening side ++ answer)
  accept : ∀ (c : Conn (SecureState K π) (SecureEvent ω)) (p : Pointer) (x : SentFrame),
    c.app.handshakeDone = true → c.app.cipher = some terms.key → terms.Seals side.peer x →
    p.bytes (PacketHeader.dataSize p) = x.2 → approves c.app p →
      (c.onRecv cls p).2 = true ∧
        ∃ answer, Handled terms.key quiet c (c.onRecv cls p).1 x.1.toList answer ∧
          ∀ y ∈ answer, terms.Seals side y

variable {key : List UInt8} {quiet : Prop} {c c' c'' : Conn (SecureState K π) (SecureEvent ω)}

theorem Handled.trans {packets packets' : List (List UInt8)} {answer answer' : List SentFrame}
    (h : Handled key quiet c c' packets answer) (h' : Handled key quiet c' c'' packets' answer') :
    Handled key quiet c c'' (packets ++ packets') (answer ++ answer') := by
  obtain ⟨ext, hext, hown, hprocessed, hsends⟩ := h.trace
  obtain ⟨ext', hext', hown', hprocessed', hsends'⟩ := h'.trace
  refine ⟨⟨ext ++ ext', ?_, ?_, ?_, ?_⟩, h'.handshakeDone, h'.cipher,
    fun hq => (h'.connected hq).trans (h.connected hq)⟩
  · rw [hext', hext, List.append_assoc]
  · rw [ownDisconnects_append, hown, hown', List.append_nil]
  · rw [actions_append, processed_append, hprocessed, hprocessed']
  · rw [actions_append, sends_append, hsends, hsends']

/-- A call of `OnRecv`, by its reply. -/
theorem handled_onRecv {cls : SessionClass (SecureState K π) (SecureEvent ω)} {p : Pointer}
    {reply : Reply (SecureState K π) (SecureEvent ω)}
    (hreply : cls.onRecv c.connected c.app p = reply)
    (handshakeDone : reply.app.handshakeDone = true) (cipher : reply.app.cipher = some key)
    (keeps : quiet → reply.actions.any Action.isDisconnect = false) :
    Handled key quiet c (c.onRecv cls p).1 (processed reply.actions) (sends reply.actions) := by
  unfold Conn.onRecv
  simp only [hreply]
  refine ⟨⟨_, rfl, ?_, ?_, ?_⟩, handshakeDone, cipher, fun hq => ?_⟩
  · rw [ownDisconnects_onRecv]
  · rw [actions_onRecv]
  · rw [actions_onRecv]
  · rw [keeps hq, Bool.not_false, Bool.and_true]

/-! ## The key exchange -/

/-- What one side knows: its private and public key, the public key of the peer, and the session
key derived from them. -/
structure Agreed (ssl : OpenSsl K) (priv : K) (pub peerPub key : List UInt8) : Prop where
  publicKey : EcdhKeyExchange.getPublicKeyBytes ssl priv = some pub
  sessionKey : ∃ secret, EcdhKeyExchange.deriveSharedSecret ssl priv peerPub = some secret ∧
    EcdhKeyExchange.deriveSessionKey ssl secret = some key
  length_peerPub : peerPub.length = pubKeySize

theorem agreed_of_lawful {ssl : OpenSsl K} (lawful : ssl.Lawful) (a b : K) :
    ∃ pubA pubB key, Agreed ssl a pubA pubB key ∧ Agreed ssl b pubB pubA key := by
  obtain ⟨pubA, pubB, secret, key, hA, hB, hsecretA, hsecretB, hkey⟩ := lawful.session_key a b
  exact ⟨pubA, pubB, key,
    ⟨hA, ⟨secret, hsecretA, hkey⟩, EcdhKeyExchange.length_getPublicKeyBytes hB⟩,
    ⟨hB, ⟨secret, hsecretB, hkey⟩, EcdhKeyExchange.length_getPublicKeyBytes hA⟩⟩

/-- The terms of a connection between a `GameSession` and a `ServerSession`. -/
def sessionTerms (ssl : OpenSsl K) (key serverPub clientPub : List UInt8)
    (serverHandlers : Handlers π ω) (clientHandlers : Handlers π' ω') : Terms K where
  ssl := ssl
  key := key
  hello
    | .server => resKeyExchange serverPub
    | .client => reqKeyExchange clientPub
  knows
    | .server => serverHandlers.Knows
    | .client => clientHandlers.Knows

section Instances

variable {env : SecureEnv K} {handlers : Handlers π ω} {peer : Handlers π' ω'}

/-- What both classes do with a decrypted packet. -/
theorem accept_process (reliable : env.Reliable) (speaks : handlers.SpeakTo peer)
    {cls : SessionClass (SecureState K π) (SecureEvent ω)} {p : Pointer} {packet : List UInt8}
    (handshake : c.app.handshakeDone = true) (cipher : c.app.cipher = some key)
    (takes : handlers.Takes packet) (approves : handlers.Approves env c.app p)
    (hdec : AesGcm.decrypt env.ssl key (payload p) = some packet)
    (hreply : cls.onRecv c.connected c.app p =
      (Activity.process env handlers (c.app.begin c.connected) (plainBuf env c.app packet)).1.reply
        (Activity.process env handlers (c.app.begin c.connected) (plainBuf env c.app packet)).2) :
    (c.onRecv cls p).2 = true ∧
      ∃ answer, Handled key handlers.Keep c (c.onRecv cls p).1 [packet] answer ∧
        ∀ y ∈ answer, Sealed env.ssl key peer.Knows y := by
  obtain ⟨adds, handler, hfind, hresult⟩ := Activity.adds_process (a := c.app.begin c.connected)
    reliable speaks handshake cipher takes (env.stack c.app.frames)
  obtain ⟨ext, hext, hprocessed, hsends, hkeeps⟩ := adds.actions
  rw [show (c.app.begin c.connected : Activity K π ω).actions = [] from rfl,
    List.nil_append] at hext
  subst hext
  refine ⟨?_, _, hprocessed ▸ handled_onRecv hreply (adds.handshakeDone.trans handshake)
    (adds.cipher.trans cipher) hkeeps, hsends⟩
  unfold Conn.onRecv
  simp only [hreply]
  exact hresult.trans (approves key packet handler cipher hdec hfind)

/-- What both classes read of a sealed packet. -/
theorem read_sealed {p : Pointer} {x : SentFrame}
    (hx : Sealed env.ssl key handlers.Knows x) (hp : p.bytes (PacketHeader.dataSize p) = x.2) :
    ∃ packet, x.1 = some packet ∧ handlers.Takes packet ∧
      PacketHeader.packetNum p = PacketEnum.encrypted.num ∧
      ¬ (payloadLen p < 28 ∨ maxPlainPacketSize + 28 < payloadLen p) ∧
      AesGcm.decrypt env.ssl key (payload p) = some packet := by
  obtain ⟨packet, payload', rfl, hlen, hdec, hpacket, haccepts⟩ := hx
  obtain ⟨hnum, hpayloadLen, hpayload⟩ := read_encryptedPacket hlen hpacket hp
  have hmax := hpacket.2.1
  refine ⟨packet, rfl, ⟨hpacket, haccepts⟩, hnum, by omega, ?_⟩
  rw [hpayload, hdec]

/-- The server's side of the handshake. -/
theorem handleKeyExchange_eq (reliable : env.Reliable) {priv : K} {pub peerPub : List UInt8}
    (agreed : Agreed env.ssl priv pub peerPub key) {a : Activity K π ω} {p : Pointer}
    (hpair : env.keyPair a.state.keyPairs = some priv) (hpub : pubKey p = peerPub) :
    GameSession.handleKeyExchange env handlers a p =
      ((((a.modify fun st =>
        { st with
          keyPairs := st.keyPairs + 1
          myPrivKey := none
          cipher := some key
          handshakeDone := true }).emit .handshakeDone).emit
            (.send none (resKeyExchange pub))).modify .countSend) := by
  obtain ⟨secret, hsecret, hkey⟩ := agreed.sessionKey
  unfold GameSession.handleKeyExchange
  simp only [hpair, hpub, hsecret, hkey, agreed.publicKey,
    Activity.sessionSend_of_reliable reliable]
  rfl

theorem endpoint_gameSession (reliable : env.Reliable) (speaks : handlers.SpeakTo peer) {priv : K}
    (hpair : env.keyPair 0 = some priv) {pub peerPub : List UInt8}
    (agreed : Agreed env.ssl priv pub peerPub key) :
    Endpoint (sessionTerms env.ssl key pub peerPub handlers peer) .server
      (GameSession.cls env handlers) (fun st => st.keyPairs = 0) (handlers.Approves env)
      handlers.Keep where
  hello := isFrame_init .reqKeyExchange peerPub (by rw [agreed.length_peerPub]; rfl) (by decide)
  greet c p handshake ready hp := by
    obtain ⟨hnum, hpub⟩ := read_keyExchange agreed.length_peerPub hp
    have hreply : (GameSession.cls env handlers).onRecv c.connected c.app p =
        (GameSession.handleKeyExchange env handlers (c.app.begin c.connected) p).reply true := by
      simp only [GameSession.cls, GameSession.onRecv, handshake, hnum, if_true]
    rw [handleKeyExchange_eq reliable agreed (by rw [← hpair, ← ready]; rfl) hpub] at hreply
    exact ⟨congrArg Reply.result hreply, _, handled_onRecv hreply rfl rfl fun _ => rfl, [], rfl,
      nofun⟩
  accept c p x handshake cipher hx hp approves := by
    obtain ⟨packet, hpacket, takes, hnum, hlen, hdec⟩ := read_sealed hx hp
    rw [hpacket]
    refine accept_process reliable speaks handshake cipher takes approves hdec ?_
    simp only [GameSession.cls, GameSession.onRecv, handshake, cipher, hnum, if_neg hlen, hdec]
    rfl

theorem bytes_ofList {packet : List UInt8} (hpacket : IsPacket packet) :
    (Pointer.ofList packet).bytes (PacketHeader.dataSize (.ofList packet)) = packet := by
  rw [hpacket.2.2]
  exact (read_overlay hpacket fun _ => 0).2.2

theorem endpoint_serverSession (reliable : env.Reliable) (speaks : handlers.SpeakTo peer)
    {chunk : Pointer} (login : peer.Takes (ServerSession.login chunk)) {priv : K}
    {pub peerPub : List UInt8} (agreed : Agreed env.ssl priv pub peerPub key) :
    Endpoint (sessionTerms env.ssl key peerPub pub peer handlers) .client
      (ServerSession.cls env handlers chunk) (fun st => st.myPrivKey = some priv)
      (handlers.Approves env) handlers.Keep where
  hello := isFrame_init .resKeyExchange peerPub (by rw [agreed.length_peerPub]; rfl) (by decide)
  greet c p handshake ready hp := by
    obtain ⟨hnum, hpub⟩ := read_keyExchange agreed.length_peerPub hp
    obtain ⟨secret, hsecret, hkey⟩ := agreed.sessionKey
    have hreply : (ServerSession.cls env handlers chunk).onRecv c.connected c.app p =
        (ServerSession.handleResKeyExchange env handlers chunk (c.app.begin c.connected) p).reply
          true := by
      simp only [ServerSession.cls, ServerSession.onRecv, handshake, hnum, if_true]
    have hready : (c.app.begin c.connected : Activity K π ω).state.myPrivKey = some priv := ready
    simp only [ServerSession.handleResKeyExchange, ServerSession.deriveSharedSecret, hready,
      Option.bind_some, hpub, hsecret, hkey] at hreply
    obtain ⟨frame, hsealed, hsend⟩ := Activity.send_sealed
      (a := ((c.app.begin c.connected : Activity K π ω).modify fun st =>
        { st with myPrivKey := none, cipher := some key, handshakeDone := true }).emit
          .handshakeDone) reliable rfl rfl login.1 login.2
      (bytes_ofList login.1)
    rw [hsend] at hreply
    exact ⟨congrArg Reply.result hreply, _, handled_onRecv hreply rfl rfl fun _ => rfl,
      [(_, frame)], rfl, List.forall_mem_singleton.2 hsealed⟩
  accept c p x handshake cipher hx hp approves := by
    obtain ⟨packet, hpacket, takes, hnum, hlen, hdec⟩ := read_sealed hx hp
    rw [hpacket]
    refine accept_process reliable speaks handshake cipher takes approves hdec ?_
    simp only [ServerSession.cls, ServerSession.onRecv, handshake, cipher, hnum, if_neg hlen, hdec]
    rfl

end Instances

end Channel

end DhNet
