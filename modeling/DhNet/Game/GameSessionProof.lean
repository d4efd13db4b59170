import DhNet.Game.GameSession

/-!
# Dispatch after a disconnect

`ProcessRecv` learns from the result of `OnRecv` whether to go on.  `OnRecv` reports success
after a failed key exchange, and a handler may report success although one of its sends found the
connection reset; both have disconnected the session.

* `acceptsButDisconnects`: the packets on which this happens.
* `noDispatchAfterDisconnect_iff`: a completion hands no packet to `OnRecv` after a disconnect
  exactly when no such packet is followed by another complete one.
-/

namespace DhNet

namespace GameSession

variable {K π ω : Type*}

/-- The entry is a call of `Disconnect`. -/
def isDisconnect : Event (SecureEvent ω) → Bool
  | .onRecv _ => false
  | .action action => action.isDisconnect
  | .disconnect _ => true

/-- The entry hands a packet to `OnRecv` or sets `m_handshakeDone`. -/
def dispatches : Event (SecureEvent ω) → Bool
  | .onRecv _ => true
  | .action (.other .handshakeDone) => true
  | _ => false

/-- After a call of `Disconnect` no packet is handed to `OnRecv` and `m_handshakeDone` is not
set. -/
def NoDispatchAfterDisconnect (events : List (Event (SecureEvent ω))) : Prop :=
  events.Pairwise fun e e' => isDisconnect e = true → dispatches e' = false

section Condition

variable (env : SecureEnv K) (handlers : Handlers π ω)

/-- One of the steps of the key exchange fails, or sending the answer finds the connection reset. -/
def keyExchangeDisconnects (st : SecureState K π) (p : Pointer) : Bool :=
  match env.keyPair st.keyPairs with
  | none => true
  | some priv =>
      match EcdhKeyExchange.deriveSharedSecret env.ssl priv (pubKey p) with
      | none => true
      | some secret =>
          (EcdhKeyExchange.deriveSessionKey env.ssl secret).isNone ||
            (EcdhKeyExchange.getPublicKeyBytes env.ssl priv).isNone || env.sendReset st.sends

/-- A handler's effects contain a call of `Disconnect` or a send that finds the connection reset;
the numbers count the sends and encryptions before. -/
def effectsDisconnect (key : List UInt8) : ℕ → ℕ → List (Effect ω) → Bool
  | _, _, [] => false
  | _, _, .disconnect _ :: _ => true
  | sends, encryptions, .output _ :: effects => effectsDisconnect key sends encryptions effects
  | sends, encryptions, .send sender :: effects =>
      if PacketHeader.dataSize sender = 0 ∨ maxPlainPacketSize < PacketHeader.dataSize sender then
        effectsDisconnect key sends encryptions effects
      else if (AesGcm.encrypt env.ssl key (env.nonce encryptions)
          (sender.bytes (PacketHeader.dataSize sender))).isNone then
        effectsDisconnect key sends (encryptions + 1) effects
      else env.sendReset sends || effectsDisconnect key (sends + 1) (encryptions + 1) effects

/-- The handler of a decrypted packet reports success although it disconnects. -/
def handlerDisconnects (st : SecureState K π) (key : List UInt8) (inner : Pointer) : Bool :=
  match handlers.find (PacketHeader.packetNum inner) with
  | none => false
  | some handler =>
      (handler st.app inner).result &&
        effectsDisconnect env key st.sends st.encryptions (handler st.app inner).effects

/-- `OnRecv` of a connected session reports success on the packet at `p` although it disconnects. -/
def acceptsButDisconnects (st : SecureState K π) (p : Pointer) : Bool :=
  if st.handshakeDone = false then
    PacketHeader.packetNum p = PacketEnum.reqKeyExchange.num && keyExchangeDisconnects env st p
  else if PacketHeader.packetNum p ≠ PacketEnum.encrypted.num then false
  else if payloadLen p < 28 ∨ maxPlainPacketSize + 28 < payloadLen p then false
  else
    match st.cipher with
    | none => false
    | some key =>
        match AesGcm.decrypt env.ssl key (payload p) with
        | none => false
        | some plain => handlerDisconnects env handlers st key (plainBuf env st plain)

/-- No packet but the last of those reached disconnects and reports success. -/
def Sound : SecureState K π → Pointer → List (List UInt8) → Prop
  | _, _, [] => True
  | _, _, [_] => True
  | st, p, frame :: next :: frames =>
      acceptsButDisconnects env handlers st p = false ∧
        ((onRecv env handlers true st p).result = true →
          Sound (onRecv env handlers true st p).app (p.advance frame.length) (next :: frames))

end Condition

variable {env : SecureEnv K} {handlers : Handlers π ω}

/-! ## One packet -/

/-- `Disconnect` is called in the key exchange exactly when one of its steps fails. -/
theorem handleKeyExchange_disconnects {a : Activity K π ω} (connected : a.connected = true)
    (actions : a.actions = []) (p : Pointer) :
    (handleKeyExchange env handlers a p).actions.any Action.isDisconnect =
      keyExchangeDisconnects env a.state p := by
  unfold handleKeyExchange keyExchangeDisconnects
  cases hpair : env.keyPair a.state.keyPairs with
  | none => simp [Activity.disconnect, Action.isDisconnect]
  | some priv =>
    cases hsecret : EcdhKeyExchange.deriveSharedSecret env.ssl priv (pubKey p) with
    | none => simp [hsecret, Activity.disconnect, Action.isDisconnect]
    | some secret =>
      cases hkey : EcdhKeyExchange.deriveSessionKey env.ssl secret with
      | none => simp [hsecret, hkey, Activity.disconnect, Action.isDisconnect]
      | some sessionKey =>
        cases hpub : EcdhKeyExchange.getPublicKeyBytes env.ssl priv with
        | none => simp [hsecret, hkey, hpub, Activity.disconnect, Action.isDisconnect]
        | some serverPubKey =>
          cases hreset : env.sendReset a.state.sends <;>
            simp [hsecret, hkey, hpub, hreset, Activity.sessionSend, Activity.emit,
              Activity.modify, connected, actions, Activity.disconnect, Action.isDisconnect]

/-- The effects of a handler disconnect a connected session exactly when `effectsDisconnect`. -/
theorem effects_disconnect (key : List UInt8) (effects : List (Effect ω)) {a : Activity K π ω}
    (connected : a.connected = true) (handshake : a.state.handshakeDone = true)
    (cipher : a.state.cipher = some key) :
    (effects.foldl (Activity.effect env handlers) a).actions.any Action.isDisconnect =
      (a.actions.any Action.isDisconnect ||
        effectsDisconnect env key a.state.sends a.state.encryptions effects) := by
  induction effects generalizing a with
  | nil => simp [effectsDisconnect]
  | cons e effects ih =>
    rw [List.foldl_cons]
    cases e with
    | disconnect cause =>
      have hany : (a.effect env handlers (.disconnect cause)).actions.any Action.isDisconnect =
          true := by
        simp [Activity.effect, Activity.disconnect, Action.isDisconnect]
      rw [(Activity.extends_effects env handlers effects _).any_isDisconnect hany]
      simp [effectsDisconnect]
    | output value =>
      rw [ih (a := a.effect env handlers (.output value)) connected handshake cipher]
      simp [Activity.effect, Activity.emit, Action.isDisconnect, effectsDisconnect]
    | send sender =>
      by_cases hsize : PacketHeader.dataSize sender = 0 ∨
          maxPlainPacketSize < PacketHeader.dataSize sender
      · have hsame : a.effect env handlers (.send sender) = a := by
          simp [Activity.effect, Activity.send, Activity.sendEncrypted, handshake, hsize]
        rw [hsame, ih connected handshake cipher]
        simp [effectsDisconnect, hsize]
      · cases henc : AesGcm.encrypt env.ssl key (env.nonce a.state.encryptions)
          (sender.bytes (PacketHeader.dataSize sender)) with
        | none =>
          have hsame : a.effect env handlers (.send sender) = a.modify .drawNonce := by
            simp [Activity.effect, Activity.send, Activity.sendEncrypted, handshake, hsize, cipher,
              henc]
          rw [hsame, ih (a := a.modify .drawNonce) connected handshake cipher]
          simp [effectsDisconnect, hsize, henc, Activity.modify, SecureState.drawNonce]
        | some payload =>
          have hsend : a.effect env handlers (.send sender) =
              (a.modify .drawNonce).sessionSend env handlers
                (some (sender.bytes (PacketHeader.dataSize sender))) (encryptedPacket payload) := by
            simp [Activity.effect, Activity.send, Activity.sendEncrypted, handshake, hsize, cipher,
              henc]
          cases hreset : env.sendReset a.state.sends with
          | true =>
            have hany : (a.effect env handlers (.send sender)).actions.any Action.isDisconnect =
                true := by
              simp [hsend, Activity.sessionSend, Activity.modify, SecureState.drawNonce, connected,
                hreset, Activity.disconnect, Action.isDisconnect]
            rw [(Activity.extends_effects env handlers effects _).any_isDisconnect hany]
            simp [effectsDisconnect, hsize, henc, hreset]
          | false =>
            have hno : ¬ ((a.modify .drawNonce).connected ∧
                env.sendReset (a.modify .drawNonce).state.sends) := by
              simp [Activity.modify, SecureState.drawNonce, hreset]
            rw [hsend, Activity.sessionSend, if_neg hno,
              ih (a := ((a.modify .drawNonce).emit _).modify .countSend) connected handshake
                cipher]
            simp [effectsDisconnect, hsize, henc, hreset, Activity.emit, Activity.modify,
              SecureState.drawNonce, SecureState.countSend, Action.isDisconnect]

/-- On a connected session, success is reported in spite of a disconnect exactly on the packets of
`acceptsButDisconnects`. -/
theorem onRecv_disconnects (env : SecureEnv K) (handlers : Handlers π ω)
    (st : SecureState K π) (p : Pointer) :
    ((onRecv env handlers true st p).result &&
      (onRecv env handlers true st p).actions.any Action.isDisconnect) =
        acceptsButDisconnects env handlers st p := by
  unfold onRecv acceptsButDisconnects
  by_cases hdone : st.handshakeDone = false
  · simp only [if_pos hdone]
    by_cases hnum : PacketHeader.packetNum p = PacketEnum.reqKeyExchange.num
    · have hexchange : (handleKeyExchange env handlers (st.begin true) p).actions.any
          Action.isDisconnect = keyExchangeDisconnects env st p :=
        handleKeyExchange_disconnects rfl rfl p
      simp [hnum, Activity.reply, hexchange]
    · simp [hnum, Activity.reply]
  · simp only [if_neg hdone]
    rw [Bool.not_eq_false] at hdone
    by_cases hnum : PacketHeader.packetNum p = PacketEnum.encrypted.num
    · simp only [hnum, ne_eq, not_true_eq_false, if_false]
      by_cases hlen : payloadLen p < 28 ∨ maxPlainPacketSize + 28 < payloadLen p
      · simp [hlen, Activity.reply]
      · simp only [if_neg hlen]
        cases hcipher : st.cipher with
        | none => simp [Activity.reply]
        | some key =>
          cases hplain : AesGcm.decrypt env.ssl key (payload p) with
          | none => simp [hplain, Activity.reply]
          | some plain =>
            simp only [hplain, Activity.reply, Activity.process, handlerDisconnects]
            cases hfind : handlers.find (PacketHeader.packetNum (plainBuf env st plain)) with
            | none => simp
            | some handler =>
              simp only
              rw [effects_disconnect key _ rfl hdone hcipher]
              simp [SecureState.begin, Activity.emit, Activity.modify, Action.isDisconnect]
    · simp [hnum, Activity.reply]

/-- `m_handshakeDone` is set, if at all, by the first action of a key exchange. -/
theorem handleKeyExchange_tail {a : Activity K π ω} (actions : a.actions = []) (p : Pointer) :
    .other .handshakeDone ∉ (handleKeyExchange env handlers a p).actions.tail := by
  unfold handleKeyExchange
  simp only
  split
  · simp [Activity.disconnect, Activity.modify, actions]
  · split
    · simp [Activity.disconnect, Activity.modify, actions]
    · split
      · simp [Activity.disconnect, Activity.modify, actions]
      · split
        · simp [Activity.disconnect, Activity.modify, actions]
        · rename_i serverPubKey _
          obtain ⟨ext, hext, hno⟩ :=
            (Activity.extends_sessionSend env handlers _ none (resKeyExchange serverPubKey)).actions
          rw [hext]
          simpa [Activity.emit, Activity.modify, actions] using hno

theorem onRecv_tail (connected : Bool) (st : SecureState K π) (p : Pointer) :
    .other .handshakeDone ∉ (onRecv env handlers connected st p).actions.tail := by
  have hno : ∀ b : Activity K π ω, (st.begin connected).Extends b →
      .other .handshakeDone ∉ b.actions.tail := by
    intro b hb hmem
    obtain ⟨ext, hext, hno⟩ := hb.actions
    rw [hext] at hmem
    exact hno (List.mem_of_mem_tail hmem)
  unfold onRecv
  simp only
  split_ifs
  · exact handleKeyExchange_tail rfl p
  · exact hno _ (Activity.extends_disconnect handlers _ _)
  · exact hno _ (Activity.extends_disconnect handlers _ _)
  · exact hno _ (Activity.extends_disconnect handlers _ _)
  · split
    · exact hno _ (Activity.extends_emit _ _ (by simp))
    · split
      · exact hno _ (Activity.extends_disconnect handlers _ _)
      · exact hno _ (Activity.extends_process env handlers _ _)

/-- A single packet does nothing forbidden. -/
theorem noDispatch_onRecv (packet : List UInt8) {actions : List (Action (SecureEvent ω))}
    (tail : .other .handshakeDone ∉ actions.tail) :
    NoDispatchAfterDisconnect (.onRecv packet :: actions.map .action) := by
  have hlate : ∀ action ∈ actions.tail, dispatches (.action action) = false := by
    rintro (cause | event) hmem
    · rfl
    · cases event with
      | handshakeDone => exact absurd hmem tail
      | send _ | process _ _ | nullCipher | output _ => rfl
  refine List.pairwise_cons.2 ⟨fun _ _ h => Bool.noConfusion h, ?_⟩
  cases actions with
  | nil => exact .nil
  | cons action actions =>
    refine List.pairwise_map.2 (List.pairwise_cons.2 ⟨fun b hb _ => hlate b hb, ?_⟩)
    exact List.Pairwise.imp_of_mem (fun _ hb _ _ => hlate _ hb)
      (List.pairwise_of_forall fun _ _ => trivial)

/-! ## The packets of a completion -/

theorem noDispatch_append {xs ys : List (Event (SecureEvent ω))}
    (quiet : ∀ e ∈ xs, isDisconnect e = false) (hxs : NoDispatchAfterDisconnect xs) :
    NoDispatchAfterDisconnect (xs ++ ys) ↔ NoDispatchAfterDisconnect ys := by
  refine List.pairwise_append.trans ⟨fun h => h.2.1, fun h => ⟨hxs, h, ?_⟩⟩
  intro e he e' _ hd
  rw [quiet e he] at hd
  cases hd

theorem noDispatch_disconnect {xs : List (Event (SecureEvent ω))} (cause : DisconnectCause) :
    NoDispatchAfterDisconnect (xs ++ [.disconnect cause]) ↔ NoDispatchAfterDisconnect xs := by
  refine List.pairwise_append.trans ⟨fun h => h.1, fun h => ⟨h, by simp, ?_⟩⟩
  intro e _ e' he' _
  rw [List.mem_singleton.1 he']
  rfl

/-- What one packet adds to the trace. -/
def packetEvents (env : SecureEnv K) (handlers : Handlers π ω) (st : SecureState K π)
    (p : Pointer) : List (Event (SecureEvent ω)) :=
  .onRecv (p.bytes (PacketHeader.dataSize p)) ::
    (onRecv env handlers true st p).actions.map .action

theorem noDispatch_packetEvents (env : SecureEnv K) (handlers : Handlers π ω)
    (st : SecureState K π) (p : Pointer) :
    NoDispatchAfterDisconnect (packetEvents env handlers st p) :=
  noDispatch_onRecv _ (onRecv_tail true st p)

theorem quiet_packetEvents {st : SecureState K π} {p : Pointer}
    (any : (onRecv env handlers true st p).actions.any Action.isDisconnect = false)
    (e : Event (SecureEvent ω)) (he : e ∈ packetEvents env handlers st p) :
    isDisconnect e = false := by
  rcases List.mem_cons.1 he with rfl | hmem
  · rfl
  · obtain ⟨action, haction, rfl⟩ := List.mem_map.1 hmem
    exact Bool.eq_false_iff.2 (List.any_eq_false.1 any action haction)

/-- A packet that disconnects may not be followed by another one. -/
theorem not_noDispatch_of_any {st : SecureState K π} {p : Pointer} (packet : List UInt8)
    (rest : List (Event (SecureEvent ω)))
    (any : (onRecv env handlers true st p).actions.any Action.isDisconnect = true) :
    ¬ NoDispatchAfterDisconnect (packetEvents env handlers st p ++ .onRecv packet :: rest) := by
  intro h
  obtain ⟨action, hmem, hdis⟩ := List.any_eq_true.1 any
  have hlater := (List.pairwise_append.1 h).2.2 (.action action)
    (List.mem_cons_of_mem _ (List.mem_map_of_mem hmem)) (.onRecv packet) List.mem_cons_self hdis
  cases hlater

/-- Dispatching frames on a connected session does nothing forbidden exactly when `Sound`. -/
theorem dispatch_noDispatch (env : SecureEnv K) (handlers : Handlers π ω)
    (frames : List (List UInt8))
    {c : Conn (SecureState K π) (SecureEvent ω)} (connected : c.connected = true) (p : Pointer) :
    ∃ ext, (c.dispatch (cls env handlers) p frames).1.trace = c.trace ++ ext ∧
      (NoDispatchAfterDisconnect ext ↔ Sound env handlers c.app p frames) := by
  induction frames generalizing c p with
  | nil => exact ⟨[], by simp [Conn.dispatch, NoDispatchAfterDisconnect, Sound]⟩
  | cons frame frames ih =>
    have hone := noDispatch_packetEvents env handlers c.app p
    have htrace : (c.onRecv (cls env handlers) p).1.trace =
        c.trace ++ packetEvents env handlers c.app p := by
      simp only [Conn.onRecv, connected]
      rfl
    have haccept := onRecv_disconnects env handlers c.app p
    have hresult : (c.onRecv (cls env handlers) p).2 =
        (onRecv env handlers true c.app p).result := by
      simp only [Conn.onRecv, connected]
      rfl
    rw [Conn.dispatch_cons, hresult]
    cases hok : (onRecv env handlers true c.app p).result with
    | false =>
      refine ⟨_, htrace, iff_of_true hone ?_⟩
      cases frames with
      | nil => trivial
      | cons next frames =>
        rw [hok, Bool.false_and] at haccept
        exact ⟨haccept.symm, fun h => by rw [hok] at h; cases h⟩
    | true =>
      cases frames with
      | nil => exact ⟨_, htrace, iff_of_true hone trivial⟩
      | cons next frames =>
        rw [hok, Bool.true_and] at haccept
        simp only [if_true]
        cases hany : (onRecv env handlers true c.app p).actions.any Action.isDisconnect with
        | true =>
          obtain ⟨packet, rest, hrest⟩ := Conn.dispatch_cons_trace (cls env handlers)
            (c.onRecv (cls env handlers) p).1 (p.advance frame.length) next frames
          refine ⟨packetEvents env handlers c.app p ++ .onRecv packet :: rest, ?_,
            iff_of_false (not_noDispatch_of_any packet rest hany) fun h => ?_⟩
          · rw [hrest, htrace, List.append_assoc]
          · have hfalse := h.1
            rw [← haccept, hany] at hfalse
            cases hfalse
        | false =>
          have hconn : (c.onRecv (cls env handlers) p).1.connected = true := by
            simp only [Conn.onRecv, connected, Bool.true_and]
            exact congrArg (!·) hany
          have happ : (c.onRecv (cls env handlers) p).1.app =
              (onRecv env handlers true c.app p).app := by
            simp only [Conn.onRecv, connected]
            rfl
          obtain ⟨ext, hext, hiff⟩ := ih hconn (p.advance frame.length)
          refine ⟨packetEvents env handlers c.app p ++ ext, ?_, ?_⟩
          · rw [hext, htrace, List.append_assoc]
          · rw [noDispatch_append (quiet_packetEvents hany) hone, hiff, happ]
            exact ⟨fun h => ⟨haccept.symm.trans hany, fun _ => h⟩, fun h => h.2 hok⟩

/-- What a completion adds to the trace of a session. -/
def completionEvents (env : SecureEnv K) (handlers : Handlers π ω)
    (s : Session (SecureState K π) (SecureEvent ω)) (bytes : List UInt8) (result : WsaResult) :
    List (Event (SecureEvent ω)) :=
  (s.receive (cls env handlers) bytes result).trace.drop s.trace.length

/-- `RegisterRecv` adds at most a disconnect. -/
theorem registerRecv_trace (env : SecureEnv K) (handlers : Handlers π ω)
    (s : Session (SecureState K π) (SecureEvent ω)) (result : WsaResult) :
    (s.registerRecv (cls env handlers) result).trace = s.trace ∨
      (s.registerRecv (cls env handlers) result).trace = s.trace ++ [.disconnect .handleError] := by
  unfold Session.registerRecv
  split_ifs
  · cases result with
    | success | pending => exact .inl rfl
    | error code =>
      simp only [Session.handleError]
      split_ifs
      · exact .inr rfl
      · exact .inl rfl
  · exact .inl rfl

/-- A completion on a connected session hands no packet to `OnRecv` and sets no `m_handshakeDone`
after a call of `Disconnect`, exactly when none of the packets it reaches, but the last complete
one, is a packet on which `OnRecv` disconnects and reports success. -/
theorem noDispatchAfterDisconnect_iff (env : SecureEnv K) (handlers : Handlers π ω)
    (s : Session (SecureState K π) (SecureEvent ω)) (connected : s.connected = true)
    (posted : s.recvPosted = true) {bytes : List UInt8} (nonempty : bytes ≠ [])
    (fits : bytes.length ≤ s.recvBuffer.freeSize) (result : WsaResult) :
    NoDispatchAfterDisconnect (completionEvents env handlers s bytes result) ↔
      Sound env handlers s.app (s.recvBuffer.fill bytes).readPointer
        (packetFormat.decode (s.recvBuffer.data ++ bytes)).packets := by
  obtain ⟨b, -, heq⟩ := Session.receive_eq (cls env handlers) posted nonempty fits result rfl rfl
  obtain ⟨ext, hext, hiff⟩ := dispatch_noDispatch env handlers
    (packetFormat.decode (s.recvBuffer.data ++ bytes)).packets connected
    (s.recvBuffer.fill bytes).readPointer
  have hdisconnect : ∀ cause, NoDispatchAfterDisconnect
      ((s.trace ++ ext ++ [Event.disconnect cause]).drop s.trace.length) ↔
        NoDispatchAfterDisconnect ext := by
    intro cause
    rw [List.append_assoc, List.drop_left, noDispatch_disconnect]
  rw [← hiff, completionEvents, heq]
  split_ifs
  · simp only [Conn.disconnect, hext, hdisconnect]
  · simp only [Conn.disconnect, hext, hdisconnect]
  · rcases registerRecv_trace env handlers (s := ⟨_, b, false⟩) result
      with htrace | htrace
    · rw [htrace, hext, List.drop_left]
    · rw [htrace, hext, hdisconnect]

/-- An environment in which only a malformed public key fails. -/
def sampleEnv : SecureEnv UInt8 where
  ssl := .transparent
  keyPair _ := some 1
  nonce _ := List.replicate 12 0
  sendReset _ := false
  stack _ _ := 0

/-- A server without packet handlers. -/
def noHandlers : Handlers Unit Empty := ⟨fun _ => none, id⟩

/-- Two key exchange packets in one segment, the first with a malformed public key: the session is
disconnected by the first one and completes its handshake with the second one. -/
theorem keyExchange_after_disconnect :
    ¬ NoDispatchAfterDisconnect (completionEvents sampleEnv noHandlers (.start (fresh ()))
      (reqKeyExchange (List.replicate 65 0) ++ reqKeyExchange (4 :: 2 :: List.replicate 63 0))
      .pending) := by
  unfold NoDispatchAfterDisconnect
  decide +kernel

/-- A key exchange and a plaintext packet in one segment: the session is disconnected by the second
one, and nothing follows. -/
theorem noDispatch_plaintext_after_handshake :
    NoDispatchAfterDisconnect (completionEvents sampleEnv noHandlers (.start (fresh ()))
      (reqKeyExchange (4 :: 2 :: List.replicate 63 0) ++ PacketHeader.init .test 4) .pending) := by
  refine (noDispatchAfterDisconnect_iff sampleEnv noHandlers (.start (fresh ())) rfl rfl (by decide)
    (by decide) .pending).2 ?_
  have hdecode : (packetFormat.decode (RecvBuffer.data
      (Session.start (ε := SecureEvent Empty) (fresh (K := UInt8) ())).recvBuffer ++
        (reqKeyExchange (4 :: 2 :: List.replicate 63 0) ++ PacketHeader.init .test 4))).packets =
      [reqKeyExchange (4 :: 2 :: List.replicate 63 0), PacketHeader.init .test 4] := by
    decide +kernel
  rw [hdecode]
  exact ⟨by decide +kernel, fun _ => trivial⟩

end GameSession

end DhNet
