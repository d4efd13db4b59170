import DhNet.Game.SessionSenders

/-!
# No plaintext but the answer to the key exchange

A run has three phases (`Phase`): before `m_handshakeDone` is set nobody but the receiving thread
has the session; between the store and `Session::Send` of `ResKeyExchange` this still holds, as the
receiving thread handles no other packet in between; afterwards `m_handshakeDone` and `m_cipher`
stay set, so that every `Send` encrypts.
-/

namespace DhNet

namespace SessionSenders

variable {K T : Type*}

/-! ## The phases -/

/-- A `Send` that hands nothing but encrypted frames to `Session::Send`. -/
def SendPc.Encrypts : SendPc → Prop
  | .sessionSend frame => ∃ payload, frame = encryptedPacket payload
  | _ => True

/-- Before the store to `m_handshakeDone`; the cipher exists when it is reached. -/
def KeyExchangePc.Unfinished (cipher : Option (List UInt8)) : KeyExchangePc → Prop
  | .store _ => cipher.isSome
  | .sessionSend _ => False
  | _ => True

/-- The receiving thread before the handshake. -/
def RecvPc.Unfinished (cipher : Option (List UInt8)) : RecvPc → Prop
  | .idle => True
  | .loop => True
  | .onRecv _ => True
  | .keyExchange pc => pc.Unfinished cipher
  | _ => False

/-- The receiving thread after the handshake. -/
def RecvPc.Encrypts : RecvPc → Prop
  | .keyExchange _ => False
  | .send pc _ _ => pc.Encrypts
  | _ => True

/-- Another thread after the handshake. -/
def TaskPc.Encrypts : TaskPc → Prop
  | .sendLoginFailed pc => pc.Encrypts
  | .sendLogin pc => pc.Encrypts
  | .jobSend pc => pc.Encrypts
  | _ => True

/-- Nobody but the receiving thread has the session, and nothing was sent. -/
structure State.Alone (s : State K T) : Prop where
  authentications : s.authentications = 0
  playerMade : s.playerMade = false
  task : ∀ t, s.task t = .idle
  sent : s.sent = []

/-- The handshake is done and answered, and everything sent since is encrypted. -/
structure State.Established (s : State K T) : Prop where
  handshakeDone : s.handshakeDone = true
  cipher : s.cipher.isSome
  sent : ∃ (serverPubKey : List UInt8) (payloads : List (List UInt8)),
    s.sent = resKeyExchange serverPubKey :: payloads.map encryptedPacket

/-- The phases of a run. -/
inductive Phase (s : State K T) : Prop
  | before (alone : s.Alone) (handshakeDone : s.handshakeDone = false)
      (recv : s.recv.Unfinished s.cipher)
  | answering (alone : s.Alone) (handshakeDone : s.handshakeDone = true) (cipher : s.cipher.isSome)
      (serverPubKey : List UInt8)
      (recv : s.recv = .keyExchange (.sessionSend (resKeyExchange serverPubKey)))
  | after (established : s.Established) (recv : s.recv.Encrypts)
      (task : ∀ t, (s.task t).Encrypts)

variable {s s' : State K T}

theorem State.Alone.of_same (h : s.Alone)
    (authentications : s'.authentications = s.authentications)
    (playerMade : s'.playerMade = s.playerMade) (task : s'.task = s.task)
    (sent : s'.sent = s.sent) : s'.Alone :=
  ⟨authentications.trans h.authentications, playerMade.trans h.playerMade,
    fun t => task ▸ h.task t, sent.trans h.sent⟩

theorem State.Established.of_same (h : s.Established)
    (handshakeDone : s'.handshakeDone = s.handshakeDone) (cipher : s'.cipher = s.cipher)
    (sent : s'.sent = s.sent) : s'.Established :=
  ⟨handshakeDone.trans h.handshakeDone, cipher ▸ h.cipher, sent ▸ h.sent⟩

theorem State.Alone.disconnect (h : s.Alone) : s.disconnect.Alone := h.of_same rfl rfl rfl rfl

theorem State.Established.disconnect (h : s.Established) : s.disconnect.Established :=
  h.of_same rfl rfl rfl

/-- `Session::Send` adds the frame to the queue and may disconnect. -/
theorem sessionSend_cases (s : State K T) (frame : List UInt8) (reset : Bool) :
    s.sessionSend frame reset = { s with sent := s.sent ++ [frame] } ∨
      s.sessionSend frame reset = State.disconnect { s with sent := s.sent ++ [frame] } := by
  unfold State.sessionSend
  split_ifs
  · exact .inr rfl
  · exact .inl rfl

theorem State.Established.sessionSend (h : s.Established) (payload : List UInt8) (reset : Bool) :
    (s.sessionSend (encryptedPacket payload) reset).Established := by
  obtain ⟨serverPubKey, payloads, hsent⟩ := h.sent
  have hqueued : State.Established { s with sent := s.sent ++ [encryptedPacket payload] } :=
    ⟨h.handshakeDone, h.cipher, serverPubKey, payloads ++ [payload], by simp [hsent]⟩
  rcases sessionSend_cases s (encryptedPacket payload) reset with e | e
  · exact e ▸ hqueued
  · exact e ▸ hqueued.disconnect

/-- The invariant: the run is in one of its phases, and no null `m_cipher` was used. -/
structure Inv (s : State K T) : Prop where
  nullCipher : s.nullCipher = false
  phase : Phase s

/-! ## After the handshake -/

section After

variable (ssl : OpenSsl K) (c : Choice K)

/-- What a `Send` does once the handshake is done: it encrypts, with a cipher. -/
structure Encrypted (s : State K T) (next : State K T × Option SendPc) : Prop where
  established : next.1.Established
  nullCipher : next.1.nullCipher = s.nullCipher
  recv : next.1.recv = s.recv
  task : next.1.task = s.task
  pc : ∀ pc, next.2 = some pc → pc.Encrypts

theorem encrypted_sendStep (h : s.Established) {pc : SendPc} (hpc : pc.Encrypts) :
    Encrypted s (sendStep ssl s c pc) := by
  cases pc with
  | load sender =>
    simp only [sendStep, h.handshakeDone, if_true]
    refine ⟨h, rfl, rfl, rfl, fun pc hpc => ?_⟩
    obtain rfl := Option.some.inj hpc
    trivial
  | encrypt sender =>
    obtain ⟨key, hkey⟩ := Option.isSome_iff_exists.1 h.cipher
    simp only [sendStep, hkey]
    split_ifs
    · exact ⟨h, rfl, rfl, rfl, by simp⟩
    · exact ⟨h.of_same rfl hkey.symm rfl, rfl, rfl, rfl, by simp⟩
    · refine ⟨h, rfl, rfl, rfl, fun pc hpc => ?_⟩
      obtain ⟨payload, -, rfl⟩ := Option.map_eq_some_iff.1 hpc
      exact ⟨payload, rfl⟩
  | sessionSend frame =>
    obtain ⟨payload, rfl⟩ := hpc
    simp only [sendStep]
    rcases sessionSend_cases s (encryptedPacket payload) c.reset with e | e
    · exact ⟨h.sessionSend payload c.reset, by rw [e], by rw [e], by rw [e], by simp⟩
    · exact ⟨h.sessionSend payload c.reset, by rw [e]; rfl, by rw [e]; rfl, by rw [e]; rfl, by simp⟩

/-- The members and the other threads after the handshake; what the receiving thread does next is
left open. -/
structure Ready (s : State K T) : Prop where
  nullCipher : s.nullCipher = false
  established : s.Established
  task : ∀ t, (s.task t).Encrypts

theorem Ready.of_same (h : Ready s) (nullCipher : s'.nullCipher = s.nullCipher)
    (handshakeDone : s'.handshakeDone = s.handshakeDone) (cipher : s'.cipher = s.cipher)
    (sent : s'.sent = s.sent) (task : s'.task = s.task) : Ready s' :=
  ⟨nullCipher.trans h.nullCipher, h.established.of_same handshakeDone cipher sent,
    fun t => task ▸ h.task t⟩

theorem Ready.disconnect (h : Ready s) : Ready s.disconnect :=
  ⟨h.nullCipher, h.established.disconnect, h.task⟩

theorem Ready.setRecv (h : Ready s) {pc : RecvPc} (hpc : pc.Encrypts) : Inv (s.setRecv pc) :=
  ⟨h.nullCipher, .after (h.established.of_same rfl rfl rfl) hpc h.task⟩

theorem Ready.returned (h : Ready s) (result : Bool) : Inv (s.returned result) := by
  unfold State.returned
  split_ifs
  · exact h.setRecv trivial
  · exact h.disconnect.setRecv trivial

theorem Ready.recvStep (limit : ℕ) (h : Ready s) (hrecv : s.recv.Encrypts)
    (hstep : recvStep ssl limit s c s.recv = some s') : Inv s' := by
  cases hpc : s.recv with
  | idle => simp [hpc, SessionSenders.recvStep] at hstep
  | loop => simp [hpc, SessionSenders.recvStep] at hstep
  | onRecv p =>
    simp only [hpc, SessionSenders.recvStep, h.established.handshakeDone, Bool.true_eq_false,
      if_false, Option.some.injEq] at hstep
    subst hstep
    split_ifs
    · exact h.disconnect.returned false
    · exact h.disconnect.returned false
    · exact h.setRecv trivial
  | keyExchange pc =>
    rw [hpc] at hrecv
    exact hrecv.elim
  | decrypt p =>
    obtain ⟨key, hkey⟩ := Option.isSome_iff_exists.1 h.established.cipher
    simp only [hpc, SessionSenders.recvStep, hkey, Option.some.injEq] at hstep
    subst hstep
    split
    · exact h.disconnect.returned false
    · exact h.setRecv trivial
  | process inner =>
    simp only [hpc, SessionSenders.recvStep] at hstep
    split at hstep
    · obtain rfl := Option.some.inj hstep
      exact h.returned false
    · split_ifs at hstep
      obtain rfl := Option.some.inj hstep
      exact h.setRecv trivial
  | handler effects result =>
    rw [hpc] at hstep
    rcases effects with _ | ⟨sender | cause | value, effects⟩
    · obtain rfl := Option.some.inj hstep
      exact h.returned result
    · obtain rfl := Option.some.inj hstep
      exact h.setRecv trivial
    · obtain rfl := Option.some.inj hstep
      exact h.disconnect.setRecv trivial
    · cases value with
      | authenticate username password =>
        obtain rfl := Option.some.inj hstep
        have hready : Ready { s with authentications := s.authentications + 1 } :=
          h.of_same rfl rfl rfl rfl rfl
        exact hready.setRecv trivial
      | _ =>
        obtain rfl := Option.some.inj hstep
        exact h.setRecv trivial
  | send pc effects result =>
    rw [hpc] at hrecv
    have hsend := encrypted_sendStep ssl c h.established (show pc.Encrypts from hrecv)
    have hready : Ready (sendStep ssl s c pc).1 :=
      ⟨hsend.nullCipher.trans h.nullCipher, hsend.established, fun t => hsend.task ▸ h.task t⟩
    simp only [hpc, SessionSenders.recvStep, Option.some.injEq] at hstep
    subst hstep
    split
    · next pc' hpc' => exact hready.setRecv (hsend.pc pc' hpc')
    · exact hready.setRecv trivial

variable [DecidableEq T]

theorem Ready.setTask (h : Ready s) (hrecv : s.recv.Encrypts) (t : T) {pc : TaskPc}
    (hpc : pc.Encrypts) : Inv (s.setTask t pc) := by
  refine ⟨h.nullCipher, .after (h.established.of_same rfl rfl rfl) hrecv fun t' => ?_⟩
  by_cases ht : t' = t
  · simpa [State.setTask, ht] using hpc
  · simpa [State.setTask, ht] using h.task t'

theorem Ready.taskSend (h : Ready s) (hrecv : s.recv.Encrypts) (t : T) {pc : SendPc}
    (hpc : pc.Encrypts) {resume : SendPc → TaskPc} {after : TaskPc}
    (hresume : ∀ pc : SendPc, pc.Encrypts → (resume pc).Encrypts) (hafter : after.Encrypts) :
    Inv (s.taskSend ssl t c pc resume after) := by
  have hsend := encrypted_sendStep ssl c h.established hpc
  have hready : Ready (sendStep ssl s c pc).1 :=
    ⟨hsend.nullCipher.trans h.nullCipher, hsend.established, fun t => hsend.task ▸ h.task t⟩
  unfold State.taskSend
  refine hready.setTask (hsend.recv ▸ hrecv) t ?_
  split
  · next pc' hpc' => exact hresume pc' (hsend.pc pc' hpc')
  · exact hafter

theorem Ready.taskStep (h : Ready s) (hrecv : s.recv.Encrypts) (t : T)
    (hstep : taskStep ssl s t c (s.task t) = some s') : Inv s' := by
  have htask := h.task t
  cases hpc : s.task t with
  | idle => simp [hpc, SessionSenders.taskStep] at hstep
  | exchange ok accountId name =>
    simp only [hpc, SessionSenders.taskStep, Option.some.injEq] at hstep
    subst hstep
    split_ifs
    · exact h.setTask hrecv t trivial
    · have hready : Ready { s with loginProcessed := true } := h.of_same rfl rfl rfl rfl rfl
      exact hready.setTask hrecv t trivial
  | isConnected ok accountId name =>
    simp only [hpc, SessionSenders.taskStep, Option.some.injEq] at hstep
    subst hstep
    refine h.setTask hrecv t ?_
    split_ifs <;> trivial
  | disconnect =>
    simp only [hpc, SessionSenders.taskStep, Option.some.injEq] at hstep
    subst hstep
    exact h.disconnect.setTask hrecv t trivial
  | makePlayer accountId name =>
    simp only [hpc, SessionSenders.taskStep, Option.some.injEq] at hstep
    subst hstep
    have hready : Ready { s with playerMade := true } := h.of_same rfl rfl rfl rfl rfl
    exact hready.setTask hrecv t trivial
  | setPlayer accountId name =>
    simp only [hpc, SessionSenders.taskStep, Option.some.injEq] at hstep
    subst hstep
    have hready : Ready { s with hasPlayer := true } := h.of_same rfl rfl rfl rfl rfl
    exact hready.setTask hrecv t trivial
  | add accountId name =>
    simp only [hpc, SessionSenders.taskStep, Option.some.injEq] at hstep
    subst hstep
    exact h.setTask hrecv t trivial
  | sendLoginFailed pc =>
    rw [hpc] at htask
    simp only [hpc, SessionSenders.taskStep, Option.some.injEq] at hstep
    subst hstep
    exact h.taskSend ssl c hrecv t htask (fun _ => id) trivial
  | sendLogin pc =>
    rw [hpc] at htask
    simp only [hpc, SessionSenders.taskStep, Option.some.injEq] at hstep
    subst hstep
    exact h.taskSend ssl c hrecv t htask (fun _ => id) trivial
  | jobSend pc =>
    rw [hpc] at htask
    simp only [hpc, SessionSenders.taskStep, Option.some.injEq] at hstep
    subst hstep
    exact h.taskSend ssl c hrecv t htask (fun _ => id) trivial

end After

/-! ## Before and during the answer -/

section Before

variable (ssl : OpenSsl K) (c : Choice K)

/-- The receiving thread before the handshake is done and while nobody else has the session. -/
structure Fresh (s : State K T) : Prop where
  nullCipher : s.nullCipher = false
  alone : s.Alone
  handshakeDone : s.handshakeDone = false

theorem Fresh.of_same (h : Fresh s) (nullCipher : s'.nullCipher = s.nullCipher)
    (authentications : s'.authentications = s.authentications)
    (playerMade : s'.playerMade = s.playerMade) (task : s'.task = s.task) (sent : s'.sent = s.sent)
    (handshakeDone : s'.handshakeDone = s.handshakeDone) : Fresh s' :=
  ⟨nullCipher.trans h.nullCipher, h.alone.of_same authentications playerMade task sent,
    handshakeDone.trans h.handshakeDone⟩

theorem Fresh.disconnect (h : Fresh s) : Fresh s.disconnect :=
  ⟨h.nullCipher, h.alone.disconnect, h.handshakeDone⟩

theorem Fresh.setRecv (h : Fresh s) {pc : RecvPc} (hpc : pc.Unfinished s.cipher) :
    Inv (s.setRecv pc) :=
  ⟨h.nullCipher, .before (h.alone.of_same rfl rfl rfl rfl) h.handshakeDone hpc⟩

theorem Fresh.returned (h : Fresh s) (result : Bool) : Inv (s.returned result) := by
  unfold State.returned
  split_ifs
  · exact h.setRecv trivial
  · exact h.disconnect.setRecv trivial

/-- What an access of the key exchange leads to: it returns, goes on, or has stored
`m_handshakeDone` and is about to send the answer. -/
inductive Exchanged (next : State K T × Option KeyExchangePc) : Prop
  | returned (fresh : Fresh next.1) (eq : next.2 = none)
  | goesOn {pc : KeyExchangePc} (fresh : Fresh next.1) (eq : next.2 = some pc)
      (unfinished : pc.Unfinished next.1.cipher)
  | stored (nullCipher : next.1.nullCipher = false) (alone : next.1.Alone)
      (handshakeDone : next.1.handshakeDone = true) (cipher : next.1.cipher.isSome)
      (serverPubKey : List UInt8) (eq : next.2 = some (.sessionSend (resKeyExchange serverPubKey)))

theorem Fresh.exchanged (h : Fresh s) {pc : KeyExchangePc} (hpc : pc.Unfinished s.cipher) :
    Exchanged (keyExchangeStep ssl s c pc) := by
  cases pc with
  | generateKeyPair clientPubKey =>
    have hdrawn : Fresh { s with myPrivKey := c.keyPair } := h.of_same rfl rfl rfl rfl rfl rfl
    simp only [keyExchangeStep]
    split_ifs
    · exact .goesOn hdrawn rfl trivial
    · exact .returned hdrawn.disconnect rfl
  | deriveSharedSecret clientPubKey =>
    simp only [keyExchangeStep]
    split
    · exact .goesOn h rfl trivial
    · exact .returned h.disconnect rfl
  | deriveSessionKey secret =>
    simp only [keyExchangeStep]
    split
    · exact .goesOn h rfl trivial
    · exact .returned h.disconnect rfl
  | getSenderAndPacket sessionKey =>
    have hfailed : Fresh { s with allocFailed := true } := h.of_same rfl rfl rfl rfl rfl rfl
    simp only [keyExchangeStep]
    split_ifs
    · exact .goesOn h rfl trivial
    · exact .returned hfailed rfl
  | getPublicKeyBytes sessionKey =>
    simp only [keyExchangeStep]
    split
    · exact .goesOn h rfl trivial
    · exact .returned h.disconnect rfl
  | freeKey sessionKey serverPubKey =>
    have hfreed : Fresh { s with myPrivKey := none } := h.of_same rfl rfl rfl rfl rfl rfl
    exact .goesOn hfreed rfl trivial
  | makeCipher sessionKey serverPubKey =>
    have hmade : Fresh { s with cipher := some c.memory } := h.of_same rfl rfl rfl rfl rfl rfl
    exact .goesOn hmade rfl trivial
  | init sessionKey serverPubKey =>
    have hinit : Fresh { s with cipher := some sessionKey } := h.of_same rfl rfl rfl rfl rfl rfl
    exact .goesOn hinit rfl rfl
  | store serverPubKey =>
    exact .stored h.nullCipher (h.alone.of_same rfl rfl rfl rfl) rfl hpc serverPubKey rfl
  | sessionSend frame => exact hpc.elim

theorem Fresh.recvStep (limit : ℕ) (h : Fresh s)
    (hrecv : s.recv.Unfinished s.cipher)
    (hstep : recvStep ssl limit s c s.recv = some s') : Inv s' := by
  cases hpc : s.recv with
  | idle => simp [hpc, SessionSenders.recvStep] at hstep
  | loop => simp [hpc, SessionSenders.recvStep] at hstep
  | onRecv p =>
    simp only [hpc, SessionSenders.recvStep, h.handshakeDone, if_true, Option.some.injEq] at hstep
    subst hstep
    split_ifs
    · exact h.setRecv trivial
    · exact h.disconnect.returned false
  | keyExchange pc =>
    rw [hpc] at hrecv
    simp only [hpc, SessionSenders.recvStep, Option.some.injEq] at hstep
    subst hstep
    cases h.exchanged ssl c hrecv with
    | returned fresh hnext =>
      simp only [hnext]
      exact fresh.returned true
    | goesOn fresh hnext unfinished =>
      simp only [hnext]
      exact fresh.setRecv unfinished
    | stored nullCipher alone handshakeDone cipher serverPubKey hnext =>
      simp only [hnext]
      exact ⟨nullCipher,
        .answering (alone.of_same rfl rfl rfl rfl) handshakeDone cipher serverPubKey rfl⟩
  | _ =>
    rw [hpc] at hrecv
    exact hrecv.elim

/-- `ResKeyExchange` is put into the queue. -/
theorem Inv.answer (nullCipher : s.nullCipher = false) (alone : s.Alone)
    (handshakeDone : s.handshakeDone = true) (cipher : s.cipher.isSome) (serverPubKey : List UInt8)
    (reset : Bool) : Inv ((s.sessionSend (resKeyExchange serverPubKey) reset).returned true) := by
  have hqueued : Ready { s with sent := s.sent ++ [resKeyExchange serverPubKey] } := by
    refine ⟨nullCipher, ⟨handshakeDone, cipher, serverPubKey, [], by simp [alone.sent]⟩,
      fun t => ?_⟩
    rw [alone.task t]
    trivial
  rcases sessionSend_cases s (resKeyExchange serverPubKey) reset with e | e
  · rw [e]
    exact hqueued.returned true
  · rw [e]
    exact hqueued.disconnect.returned true

end Before

/-! ## Runs -/

section Runs

variable {ssl : OpenSsl K} {limit : ℕ}

theorem Inv.disconnect (inv : Inv s) : Inv s.disconnect := by
  refine ⟨inv.nullCipher, ?_⟩
  cases inv.phase with
  | before alone handshakeDone recv => exact .before alone.disconnect handshakeDone recv
  | answering alone handshakeDone cipher serverPubKey recv =>
    exact .answering alone.disconnect handshakeDone cipher serverPubKey recv
  | after established recv task => exact .after established.disconnect recv task

theorem Inv.recvStep (inv : Inv s) (c : Choice K)
    (hstep : recvStep ssl limit s c s.recv = some s') : Inv s' := by
  cases inv.phase with
  | before alone handshakeDone recv =>
    exact Fresh.recvStep ssl c limit ⟨inv.nullCipher, alone, handshakeDone⟩ recv hstep
  | answering alone handshakeDone cipher serverPubKey recv =>
    rw [recv] at hstep
    obtain rfl := Option.some.inj hstep
    exact .answer inv.nullCipher alone handshakeDone cipher serverPubKey c.reset
  | after established recv task =>
    exact Ready.recvStep ssl c limit ⟨inv.nullCipher, established, task⟩ recv hstep

/-- A step of `ProcessRecv` between two packets. -/
theorem Inv.loop (inv : Inv s) (hrecv : s.recv = .idle ∨ s.recv = .loop) {pc : RecvPc}
    (hpc : pc = .idle ∨ pc = .loop ∨ ∃ p, pc = .onRecv p) : Inv (s.setRecv pc) := by
  cases inv.phase with
  | before alone handshakeDone recv =>
    refine Fresh.setRecv ⟨inv.nullCipher, alone, handshakeDone⟩ ?_
    rcases hpc with rfl | rfl | ⟨p, rfl⟩ <;> trivial
  | answering alone handshakeDone cipher serverPubKey recv =>
    rw [recv] at hrecv
    simp at hrecv
  | after established recv task =>
    refine Ready.setRecv ⟨inv.nullCipher, established, task⟩ ?_
    rcases hpc with rfl | rfl | ⟨p, rfl⟩ <;> trivial

/-- A thread has something to do for the session only after the handshake. -/
theorem Inv.ready (inv : Inv s)
    (h : s.authentications ≠ 0 ∨ s.playerMade = true ∨ ∃ t, s.task t ≠ .idle) :
    Ready s ∧ s.recv.Encrypts := by
  have hnot : ¬ s.Alone := by
    intro alone
    rcases h with h | h | ⟨t, h⟩
    · exact h alone.authentications
    · exact Bool.false_ne_true (alone.playerMade.symm.trans h)
    · exact h (alone.task t)
  cases inv.phase with
  | before alone => exact absurd alone hnot
  | answering alone => exact absurd alone hnot
  | after established recv task => exact ⟨⟨inv.nullCipher, established, task⟩, recv⟩

variable [DecidableEq T]

theorem Inv.step (inv : Inv s) {op : Op K T} (h : step ssl limit s op = some s') : Inv s' := by
  unfold SessionSenders.step at h
  split_ifs at h
  cases op with
  | receive =>
    simp only at h
    split at h
    · next hrecv =>
      obtain rfl := Option.some.inj h
      exact inv.loop (.inl hrecv) (.inr (.inl rfl))
    · cases h
  | packet p =>
    simp only at h
    split at h
    · next hrecv =>
      obtain rfl := Option.some.inj h
      exact inv.loop (.inr hrecv) (.inr (.inr ⟨p, rfl⟩))
    · cases h
  | registerRecv =>
    simp only at h
    split at h
    · next hrecv =>
      obtain rfl := Option.some.inj h
      exact inv.loop (.inr hrecv) (.inl rfl)
    · cases h
  | recv c => exact inv.recvStep c h
  | loginResult t ok accountId name =>
    simp only at h
    split at h
    · next n _ hn =>
      obtain rfl := Option.some.inj h
      obtain ⟨hready, hrecv⟩ := inv.ready (.inl (by rw [hn]; exact n.succ_ne_zero))
      have hstart : Ready { s with authentications := n } := hready.of_same rfl rfl rfl rfl rfl
      exact hstart.setTask hrecv t trivial
    · cases h
  | jobSend t sender =>
    simp only at h
    split at h
    · next hmade =>
      obtain rfl := Option.some.inj h
      obtain ⟨hready, hrecv⟩ := inv.ready (.inr (.inl hmade))
      exact hready.setTask hrecv t trivial
    · cases h
  | task t c =>
    have htask : s.task t ≠ .idle := by
      intro hidle
      simp [hidle, taskStep] at h
    obtain ⟨hready, hrecv⟩ := inv.ready (.inr (.inr ⟨t, htask⟩))
    exact hready.taskStep ssl c hrecv t h
  | disconnect =>
    obtain rfl := Option.some.inj h
    exact inv.disconnect

theorem inv_of_reachable (h : (system ssl limit T).Reachable s) : Inv s := by
  refine h.invariant (fun s hs => ?_) fun _ _ _ inv hstep => inv.step hstep
  rw [show s = State.initial from hs]
  exact ⟨rfl, .before ⟨rfl, rfl, fun _ => rfl, rfl⟩ rfl trivial⟩

/-- In every run of a session, the frames put into the queue of `Session::Send` are none, or one
`ResKeyExchange` followed by `Encrypted` frames only; and `m_cipher` is set whenever `SendEncrypted`
or `Decrypt` uses it. -/
theorem server_never_speaks_plaintext (h : (system ssl limit T).Reachable s) :
    (s.sent = [] ∨ ∃ (serverPubKey : List UInt8) (payloads : List (List UInt8)),
      s.sent = resKeyExchange serverPubKey :: payloads.map encryptedPacket) ∧
    s.nullCipher = false := by
  have inv := inv_of_reachable h
  refine ⟨?_, inv.nullCipher⟩
  cases inv.phase with
  | before alone => exact .inl alone.sent
  | answering alone => exact .inl alone.sent
  | after established => exact .inr established.sent

/-- A key exchange, a login with its result, and a packet of a job. -/
def loginRun : List (Op UInt8 Unit) :=
  let view : ServerView := ⟨none, true, 0, none, [], fun _ => 0⟩
  let c : Choice UInt8 :=
    ⟨some 7, true, [], fun _ => 0, List.replicate 12 0, false, view⟩
  let login := PacketHeader.init .reqLogin 84 ++ List.replicate 4 65 ++ List.replicate 12 0 ++
    List.replicate 8 66 ++ List.replicate 56 0
  [.receive, .packet (.ofList (reqKeyExchange (4 :: 9 :: List.replicate 63 0)))] ++
    List.replicate 11 (.recv c) ++
    .packet (.ofList (encryptedPacket (List.replicate 12 0 ++ login ++ List.replicate 16 0))) ::
      List.replicate 5 (.recv c) ++
    .loginResult () true 5 [65] :: List.replicate 8 (.task () c) ++
    .jobSend () (resLoginFailed fun _ => 0) :: List.replicate 3 (.task () c)

/-- The answer to the key exchange, the answer to the login and the packet of the job. -/
theorem server_never_speaks_plaintext_login : ∃ s : State UInt8 Unit,
    (system .transparent 4096 Unit).run .initial loginRun = some s ∧ s.playerMade = true ∧
    ∃ (serverPubKey : List UInt8) (payloads : List (List UInt8)), payloads.length = 2 ∧
      s.sent = resKeyExchange serverPubKey :: payloads.map encryptedPacket := by
  have hrun : ((system .transparent 4096 Unit).run .initial loginRun).any
      (fun s => s.playerMade && s.sent.length == 3) = true := by decide +kernel
  obtain ⟨s, hs, hfacts⟩ := (Option.any_eq_true _ _).1 hrun
  obtain ⟨hplayer, hlength⟩ : s.playerMade = true ∧ s.sent.length = 3 := by simpa using hfacts
  have hreach := Transition.System.reachable_of_run (.init rfl) hs
  obtain ⟨hnone | ⟨serverPubKey, payloads, hsent⟩, -⟩ := server_never_speaks_plaintext hreach
  · simp [hnone] at hlength
  · refine ⟨s, hs, hplayer, serverPubKey, payloads, ?_, hsent⟩
    simpa [hsent] using hlength

end Runs

end SessionSenders

end DhNet
