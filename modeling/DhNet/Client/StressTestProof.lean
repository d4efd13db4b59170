import DhNet.Client.StressTest
import DhNet.Game.GameSessionProof

/-!
# What the stress client puts on the wire

`ServerSession::Send` falls back to plaintext before the handshake, so everything that is sent has
to wait for it.  The scenario does: its phase leaves `Handshaking` only when an encrypted packet is
handled (`Inv.phase`), and a session never finds another phase in the entry of one that lived at its
address before (`Inv.stale`).  A ping does not wait: it is due as soon as a tick finds the session
registered.

* `NoEarlyPing`: no ping is due before the handshake.
* `Inv`: the invariant of the runs without an early ping.
* `wire_conforms`: in these runs the wire has one key exchange and then encrypted frames only.
-/

namespace DhNet

namespace GameSession

variable {K π ω : Type*} (env : SecureEnv K) (handlers : Handlers π ω)

/-- `OnRecv` takes the packet for a violation of the protocol. -/
def Violates (st : SecureState K π) (p : Pointer) : Prop :=
  if st.handshakeDone = false then PacketHeader.packetNum p ≠ PacketEnum.reqKeyExchange.num
  else PacketHeader.packetNum p ≠ PacketEnum.encrypted.num

/-- No packet of the list, handed to `OnRecv` in turn, makes it disconnect a connected session for a
violation of the protocol. -/
def NoViolation : Conn (SecureState K π) (SecureEvent ω) → List Pointer → Prop
  | _, [] => True
  | c, p :: ps =>
      (c.connected = true → ¬ Violates c.app p) ∧ NoViolation (c.onRecv (cls env handlers) p).1 ps

variable {env handlers}

/-- The handshake stays done. -/
theorem handshakeDone_onRecv {st : SecureState K π} (hdone : st.handshakeDone = true)
    (connected : Bool) (p : Pointer) :
    (onRecv env handlers connected st p).app.handshakeDone = true := by
  have hkeep : ∀ b : Activity K π ω, (st.begin connected).Extends b →
      b.state.handshakeDone = true :=
    fun b hb => hb.handshakeDone.trans hdone
  unfold onRecv
  simp only [hdone, Bool.true_eq_false, if_false]
  split_ifs
  · exact hkeep _ (Activity.extends_disconnect handlers _ _)
  · exact hkeep _ (Activity.extends_disconnect handlers _ _)
  · split
    · exact hkeep _ (Activity.extends_emit _ _ (by simp))
    · split
      · exact hkeep _ (Activity.extends_disconnect handlers _ _)
      · exact hkeep _ (Activity.extends_process env handlers _ _)

/-- A key exchange ends with the handshake done or with a call of `Disconnect`. -/
theorem handleKeyExchange_ends (env : SecureEnv K) (handlers : Handlers π ω)
    (a : Activity K π ω) (p : Pointer) :
    (handleKeyExchange env handlers a p).state.handshakeDone = true ∨
      (handleKeyExchange env handlers a p).actions.any Action.isDisconnect = true := by
  unfold handleKeyExchange
  simp only
  split
  · exact .inr (by simp [Activity.disconnect, Action.isDisconnect])
  · split
    · exact .inr (by simp [Activity.disconnect, Action.isDisconnect])
    · split
      · exact .inr (by simp [Activity.disconnect, Action.isDisconnect])
      · split
        · exact .inr (by simp [Activity.disconnect, Action.isDisconnect])
        · next serverPubKey _ =>
          exact .inl (Activity.extends_sessionSend env handlers _ none
            (resKeyExchange serverPubKey)).handshakeDone

/-- Encrypted packets after the handshake violate nothing, nor does anything after a disconnect. -/
theorem noViolation_of_encrypted {c : Conn (SecureState K π) (SecureEvent ω)} {ps : List Pointer}
    (h : c.connected = false ∨ c.app.handshakeDone = true)
    (hps : ∀ p ∈ ps, PacketHeader.packetNum p = PacketEnum.encrypted.num) :
    NoViolation env handlers c ps := by
  induction ps generalizing c with
  | nil => trivial
  | cons p ps ih =>
    obtain ⟨hp, hps⟩ := List.forall_mem_cons.1 hps
    rcases h with hconnected | hdone
    · refine ⟨fun h => ?_, ih (.inl ?_) hps⟩
      · rw [hconnected] at h
        cases h
      · simp [Conn.onRecv, hconnected]
    · exact ⟨fun _ => by simp [Violates, hdone, hp],
        ih (.inr (handshakeDone_onRecv hdone c.connected p)) hps⟩

/-- One key exchange and then encrypted packets violate nothing. -/
theorem noViolation_of_keyExchange {c : Conn (SecureState K π) (SecureEvent ω)} {p : Pointer}
    {ps : List Pointer} (hdone : c.app.handshakeDone = false)
    (hp : PacketHeader.packetNum p = PacketEnum.reqKeyExchange.num)
    (hps : ∀ p ∈ ps, PacketHeader.packetNum p = PacketEnum.encrypted.num) :
    NoViolation env handlers c (p :: ps) := by
  refine ⟨fun _ => by simp [Violates, hdone, hp], noViolation_of_encrypted ?_ hps⟩
  simp only [Conn.onRecv, cls, onRecv, hdone, if_true, hp, Activity.reply]
  rcases handleKeyExchange_ends env handlers (c.app.begin c.connected) p with hends | hends
  · exact .inr hends
  · exact .inl (by rw [hends]; simp)

end GameSession

namespace StressTest

/-- The frames are one key exchange and then encrypted ones. -/
def Conforms (wire : List PacketEnum) : Prop :=
  ∃ rest, wire = .reqKeyExchange :: rest ∧ ∀ num ∈ rest, num = .encrypted

/-- The main loop is in `AdvancePing`, and the session is registered and due for a ping. -/
def pingDue (cfg : ScenarioConfig) (s : State) : Bool :=
  match s.main, s.entry with
  | .ping now, some st => (advancePing cfg now st).2
  | _, _ => false

/-- No ping is due before the handshake. -/
def NoEarlyPing (cfg : ScenarioConfig) (s : State) : Op → Prop
  | .main _ _ => s.handshakeDone = false → pingDue cfg s = false
  | _ => True

instance (cfg : ScenarioConfig) (s : State) : (op : Op) → Decidable (NoEarlyPing cfg s op)
  | .main _ _ => inferInstanceAs (Decidable (s.handshakeDone = false → pingDue cfg s = false))
  | .conn _ _ | .recv _ | .disconnect | .closer | .tick _ | .reuse => isTrue trivial

/-! ## The scenario -/

section Scenario

variable {cfg : ScenarioConfig} {now : ℤ} {st : ScenarioState}

theorem advanceScenario_handshaking (h : st.phase = .handshaking) :
    advanceScenario cfg now st = (st, .none) := by
  simp [advanceScenario, h]

@[simp] theorem advancePing_phase : (advancePing cfg now st).1.phase = st.phase := by
  unfold advancePing expirePing
  simp only
  split_ifs <;> rfl

end Scenario

/-! ## The invariant -/

/-- The session was taken out of the registry. -/
def ClosePc.unregistered : ClosePc → Prop
  | .releaseSession => True
  | .done => True
  | _ => False

/-- A call of `Send` that will not send plaintext. -/
def SendPc.Safe (handshakeDone : Bool) : SendPc → Prop
  | .sessionSend num => handshakeDone = true ∧ num = .encrypted
  | _ => handshakeDone = true

/-- The entry has nothing to send but pings. -/
def Waiting (entry : Option ScenarioState) : Prop := ∀ st, entry = some st → st.phase = .handshaking

/-- What holds where `ProcessConnect` or the receives stand. -/
def State.ConnOk (s : State) : ConnPc → Prop
  | .created => s.wire = [] ∧ s.handshakeDone = false ∧ s.connected = false ∧ s.closer = .idle
  | .onConnectedExtra => True
  | .registerRecv => True
  | .over => True
  | .receiving => s.closer.unregistered → s.entry = none
  | .store => (s.closer.unregistered → s.entry = none) ∧ s.handshakeDone = false ∧
      .reqKeyExchange ∈ s.wire
  | .login pc => (s.closer.unregistered → s.entry = none) ∧ pc.Safe s.handshakeDone
  | _ => s.wire = [] ∧ s.handshakeDone = false

/-- What holds where the main loop stands. -/
def State.MainOk (s : State) : MainPc → Prop
  | .scenarioSend _ pc => pc.Safe s.handshakeDone
  | .pingSend pc => pc.Safe s.handshakeDone
  | _ => True

/-- What the session has put on the wire. -/
def State.WireOk (s : State) : Prop :=
  if s.handshakeDone then Conforms s.wire else s.wire = [] ∨ s.wire = [.reqKeyExchange]

/-- The invariant of the runs without an early ping. -/
structure Inv (s : State) : Prop where
  conn : s.ConnOk s.conn
  main : s.MainOk s.main
  wire : s.WireOk
  phase : s.handshakeDone = false → Waiting s.entry
  stale : s.closer.unregistered → Waiting s.entry
  closer : s.connected = true → s.closer = .idle

variable {s s' : State}

theorem Inv.setConn (inv : Inv s) {pc : ConnPc} (h : s.ConnOk pc) : Inv { s with conn := pc } := by
  refine ⟨?_, inv.main, inv.wire, inv.phase, inv.stale, inv.closer⟩
  cases pc <;> exact h

theorem Inv.setMain (inv : Inv s) {pc : MainPc} (h : s.MainOk pc) : Inv { s with main := pc } := by
  refine ⟨inv.conn, ?_, inv.wire, inv.phase, inv.stale, inv.closer⟩
  cases pc <;> exact h

theorem Inv.disconnect (inv : Inv s) : Inv s.disconnect := by
  unfold State.disconnect
  split_ifs with hconnected
  · refine ⟨?_, inv.main, inv.wire, inv.phase, False.elim, nofun⟩
    have hconn := inv.conn
    revert hconn
    cases s.conn with
    | created => exact fun h => absurd hconnected (by simp [h.2.2.1])
    | receiving => exact fun _ => False.elim
    | store => exact fun h => ⟨False.elim, h.2⟩
    | login pc => exact fun h => ⟨False.elim, h.2⟩
    | _ => exact id
  · exact inv

theorem Inv.handleError (inv : Inv s) (code : ℕ) : Inv (s.handleError code) := by
  unfold State.handleError
  split_ifs
  · exact inv.disconnect
  · exact inv

/-- An encrypted frame after the handshake. -/
theorem Inv.sessionSend (inv : Inv s) (hdone : s.handshakeDone = true) (result : WsaResult) :
    Inv (s.sessionSend .encrypted result) := by
  have happend : Inv { s with wire := s.wire ++ [.encrypted] } := by
    refine ⟨?_, inv.main, ?_, inv.phase, inv.stale, inv.closer⟩
    · have hconn := inv.conn
      revert hconn
      cases s.conn <;> simp_all [State.ConnOk]
    · have hwire := inv.wire
      simp only [State.WireOk, hdone, if_true] at hwire ⊢
      obtain ⟨rest, hrest, henc⟩ := hwire
      refine ⟨rest ++ [.encrypted], by rw [hrest]; rfl, fun num hnum => ?_⟩
      rcases List.mem_append.1 hnum with hnum | hnum
      · exact henc num hnum
      · exact List.mem_singleton.1 hnum
  unfold State.sessionSend
  split_ifs
  · cases result with
    | success => exact happend
    | pending => exact happend
    | error code => exact inv.handleError code
  · exact inv

theorem disconnect_threads (s : State) :
    s.disconnect.conn = s.conn ∧ s.disconnect.main = s.main ∧ s.disconnect.entry = s.entry ∧
      s.disconnect.handshakeDone = s.handshakeDone ∧ s.disconnect.wire = s.wire := by
  unfold State.disconnect
  split_ifs <;> exact ⟨rfl, rfl, rfl, rfl, rfl⟩

theorem handleError_threads (s : State) (code : ℕ) :
    (s.handleError code).conn = s.conn ∧ (s.handleError code).main = s.main ∧
      (s.handleError code).handshakeDone = s.handshakeDone ∧
      (s.handleError code).wire = s.wire := by
  unfold State.handleError
  split_ifs
  · obtain ⟨hconn, hmain, -, hdone, hwire⟩ := disconnect_threads s
    exact ⟨hconn, hmain, hdone, hwire⟩
  · exact ⟨rfl, rfl, rfl, rfl⟩

theorem sessionSend_threads (s : State) (num : PacketEnum) (result : WsaResult) :
    (s.sessionSend num result).conn = s.conn ∧ (s.sessionSend num result).main = s.main ∧
      (s.sessionSend num result).handshakeDone = s.handshakeDone := by
  unfold State.sessionSend
  split_ifs
  · cases result with
    | success => exact ⟨rfl, rfl, rfl⟩
    | pending => exact ⟨rfl, rfl, rfl⟩
    | error code =>
      obtain ⟨hconn, hmain, hdone, -⟩ := handleError_threads s code
      exact ⟨hconn, hmain, hdone⟩
  · exact ⟨rfl, rfl, rfl⟩

theorem send_threads (s : State) (ok : Bool) (result : WsaResult) (pc : SendPc) :
    (s.send ok result pc).1.conn = s.conn ∧ (s.send ok result pc).1.main = s.main ∧
      (s.send ok result pc).1.handshakeDone = s.handshakeDone := by
  cases pc with
  | load num => exact ⟨rfl, rfl, rfl⟩
  | encrypt num => exact ⟨rfl, rfl, rfl⟩
  | sessionSend num => exact sessionSend_threads s num result

/-- A call of `Send` after the handshake sends at most an encrypted frame. -/
theorem Inv.send (inv : Inv s) {pc : SendPc} (hpc : pc.Safe s.handshakeDone) (ok : Bool)
    (result : WsaResult) :
    Inv (s.send ok result pc).1 ∧
      ∀ pc', (s.send ok result pc).2 = some pc' → pc'.Safe s.handshakeDone := by
  cases pc with
  | load num =>
    have hdone : s.handshakeDone = true := hpc
    refine ⟨inv, fun pc' h => ?_⟩
    obtain rfl : .encrypt num = pc' := by simpa [State.send, hdone] using h
    exact hdone
  | encrypt num =>
    refine ⟨inv, fun pc' h => ?_⟩
    obtain ⟨-, rfl⟩ : ok = true ∧ .sessionSend .encrypted = pc' := by simpa [State.send] using h
    exact ⟨hpc, rfl⟩
  | sessionSend num =>
    obtain ⟨hdone, rfl⟩ := hpc
    exact ⟨inv.sessionSend hdone result, nofun⟩

/-! ## The steps -/

theorem waiting_none : Waiting none := by
  rintro st ⟨⟩

theorem waiting_some {st : ScenarioState} : Waiting (some st) ↔ st.phase = .handshaking :=
  ⟨fun h => h st rfl, fun h _ e => Option.some.inj e ▸ h⟩

/-- The key exchange is the first frame. -/
theorem Inv.sendKeyExchange (inv : Inv s) (hwire : s.wire = []) (hdone : s.handshakeDone = false)
    (result : WsaResult) :
    Inv { s.sessionSend .reqKeyExchange result with conn := .onConnectedExtra } := by
  have happend : Inv { s with wire := s.wire ++ [.reqKeyExchange], conn := .onConnectedExtra } := by
    refine ⟨trivial, inv.main, ?_, inv.phase, inv.stale, inv.closer⟩
    simp [State.WireOk, hdone, hwire]
  unfold State.sessionSend
  split_ifs
  · cases result with
    | success => exact happend
    | pending => exact happend
    | error code => exact (inv.handleError code).setConn trivial
  · exact inv.setConn trivial

theorem Inv.store (inv : Inv s) (hconn : s.conn = .store) :
    Inv { s with handshakeDone := true, conn := .login (.load .reqLogin) } := by
  have hstore := inv.conn
  rw [hconn] at hstore
  obtain ⟨hentry, hdone, hmem⟩ := hstore
  have hwire := inv.wire
  simp only [State.WireOk, hdone, Bool.false_eq_true, if_false] at hwire
  refine ⟨⟨hentry, rfl⟩, ?_, ?_, nofun, inv.stale, inv.closer⟩
  · -- Nobody else was sending before the handshake.
    have hmain := inv.main
    revert hmain
    cases s.main with
    | scenarioSend now pc => cases pc <;> simp [State.MainOk, SendPc.Safe, hdone]
    | pingSend pc => cases pc <;> simp [State.MainOk, SendPc.Safe, hdone]
    | _ => exact id
  · rcases hwire with hwire | hwire
    · simp [hwire] at hmem
    · exact ⟨[], hwire, by simp⟩

theorem Inv.connStep {ok : Bool} {result : WsaResult} (inv : Inv s)
    (h : connStep s ok result s.conn = some s') : Inv s' := by
  have hok := inv.conn
  cases hconn : s.conn with
  | created =>
    rw [hconn] at h hok
    obtain rfl := Option.some.inj h
    obtain ⟨hwire, hdone, -, hcloser⟩ := hok
    exact ⟨⟨hwire, hdone⟩, inv.main, inv.wire, inv.phase, inv.stale, fun _ => hcloser⟩
  | addSession =>
    rw [hconn] at h hok
    obtain rfl := Option.some.inj h
    exact ⟨hok, inv.main, inv.wire, inv.phase, inv.stale, inv.closer⟩
  | generateKeyPair =>
    rw [hconn] at h hok
    obtain rfl := Option.some.inj h
    split_ifs
    · exact inv.setConn hok
    · exact inv.disconnect.setConn trivial
  | getPublicKeyBytes =>
    rw [hconn] at h hok
    obtain rfl := Option.some.inj h
    split_ifs
    · exact inv.setConn hok
    · exact inv.disconnect.setConn trivial
  | sendKeyExchange =>
    rw [hconn] at h hok
    obtain rfl := Option.some.inj h
    exact inv.sendKeyExchange hok.1 hok.2 result
  | onConnectedExtra =>
    rw [hconn] at h
    obtain rfl := Option.some.inj h
    exact ⟨trivial, inv.main, inv.wire, fun _ => waiting_some.2 rfl, fun _ => waiting_some.2 rfl,
      inv.closer⟩
  | registerRecv =>
    rw [hconn] at h
    simp only [StressTest.connStep] at h
    split_ifs at h with hconnected
    · have hreceiving : s.ConnOk .receiving := by
        intro hclosed
        rw [inv.closer hconnected] at hclosed
        exact hclosed.elim
      cases result with
      | success =>
        obtain rfl := Option.some.inj h
        exact inv.setConn hreceiving
      | pending =>
        obtain rfl := Option.some.inj h
        exact inv.setConn hreceiving
      | error code =>
        obtain rfl := Option.some.inj h
        exact (inv.handleError code).setConn trivial
    · obtain rfl := Option.some.inj h
      exact inv.setConn trivial
  | receiving =>
    rw [hconn] at h
    obtain rfl := Option.some.inj h
    split_ifs
    · exact inv.setConn trivial
    · exact inv.disconnect.setConn trivial
  | store =>
    rw [hconn] at h
    obtain rfl := Option.some.inj h
    exact inv.store hconn
  | login pc =>
    rw [hconn] at h hok
    simp only [StressTest.connStep] at h
    obtain ⟨hinv, hnext⟩ := inv.send hok.2 ok result
    obtain ⟨hconn', -, hdone⟩ := send_threads s ok result pc
    have hlogin := hinv.conn
    rw [hconn', hconn] at hlogin
    generalize s.send ok result pc = reply at h hinv hnext hdone hlogin
    obtain ⟨t, _ | pc'⟩ := reply
    · obtain rfl := Option.some.inj h
      exact hinv.setConn hlogin.1
    · obtain rfl := Option.some.inj h
      refine hinv.setConn ⟨hlogin.1, ?_⟩
      rw [hdone]
      exact hnext pc' rfl
  | «over» =>
    rw [hconn] at h
    cases h

theorem Inv.closerStep (inv : Inv s) (h : closerStep s s.closer = some s') : Inv s' := by
  have hconnected : s.closer ≠ .idle → s.connected = false := by
    intro hcloser
    by_contra hconnected
    exact hcloser (inv.closer (by simpa using hconnected))
  cases hcloser : s.closer with
  | idle =>
    rw [hcloser] at h
    cases h
  | onDisconnectedExtra =>
    rw [hcloser] at h
    obtain rfl := Option.some.inj h
    have hclosed := hconnected (by simp [hcloser])
    refine ⟨?_, inv.main, inv.wire, fun _ => waiting_none, fun _ => waiting_none, ?_⟩
    · have hconn := inv.conn
      revert hconn
      cases s.conn <;> simp_all [State.ConnOk]
    · intro h
      rw [hclosed] at h
      cases h
  | releaseSession =>
    rw [hcloser] at h
    simp only [StressTest.closerStep] at h
    split_ifs at h
    obtain rfl := Option.some.inj h
    have hclosed := hconnected (by simp [hcloser])
    have hstale := inv.stale (by simp [hcloser, ClosePc.unregistered])
    refine ⟨?_, inv.main, inv.wire, inv.phase, fun _ => hstale, ?_⟩
    · have hconn := inv.conn
      revert hconn
      cases s.conn <;> simp_all [State.ConnOk, ClosePc.unregistered]
    · intro h
      rw [hclosed] at h
      cases h
  | done =>
    rw [hcloser] at h
    cases h

/-- A packet handler changes the entry of a session that is still registered. -/
theorem Inv.apply (inv : Inv s) (hconn : s.conn = .receiving) (hdone : s.handshakeDone = true)
    (f : ScenarioState → ScenarioState) : Inv (s.apply f) := by
  have hgone : s.closer.unregistered → s.entry = none := by
    have hok := inv.conn
    rwa [hconn] at hok
  have hmap : s.closer.unregistered → s.entry.map f = none := by
    intro hclosed
    rw [hgone hclosed]
    rfl
  refine ⟨?_, inv.main, inv.wire, ?_, ?_, inv.closer⟩
  · simp only [State.apply, hconn]
    exact hmap
  · intro h
    simp only [State.apply, hdone, Bool.true_eq_false] at h
  · intro hclosed
    simp only [State.apply, hmap hclosed]
    exact waiting_none

theorem Inv.process {now : ℤ} {own : Bool} {num : PacketEnum} (inv : Inv s)
    (hconn : s.conn = .receiving) (hdone : s.handshakeDone = true)
    (h : s.process now own num = some s') : Inv s' := by
  unfold State.process at h
  split at h
  case h_2 =>
    obtain rfl := Option.some.inj h
    exact inv.disconnect
  case h_3 =>
    obtain rfl := Option.some.inj h
    exact inv.apply hconn hdone _
  case h_4 =>
    obtain rfl := Option.some.inj h
    split_ifs
    · exact inv.apply hconn hdone _
    · exact inv
  case h_5 =>
    obtain rfl := Option.some.inj h
    exact inv.apply hconn hdone _
  case h_11 => cases h
  all_goals
    obtain rfl := Option.some.inj h
    exact inv

theorem Inv.onReadError (inv : Inv s) : Inv s.onReadError := inv.disconnect.setConn trivial

theorem Inv.onRecv {packet : Received} (inv : Inv s) (hconn : s.conn = .receiving)
    (hanswer : ∀ derived, packet = .resKeyExchange derived → .reqKeyExchange ∈ s.wire) :
    Inv (s.onRecv packet) := by
  cases packet with
  | resKeyExchange derived =>
    simp only [State.onRecv]
    split_ifs with hdone
    · have hok := inv.conn
      rw [hconn] at hok
      exact inv.setConn ⟨hok, hdone, hanswer derived rfl⟩
    · exact inv.disconnect
    · exact inv.onReadError
  | encrypted inner now own =>
    simp only [State.onRecv]
    split_ifs with hdone
    · exact inv.onReadError
    · split
      · next s' h =>
        obtain ⟨num, -, hprocess⟩ := Option.bind_eq_some_iff.1 h
        exact inv.process hconn (by simpa using hdone) hprocess
      · exact inv.onReadError
  | other => exact inv.onReadError

/-- The main loop changes the entry of a session. -/
theorem Inv.setEntry {st st' : ScenarioState} (inv : Inv s) (hentry : s.entry = some st)
    (hphase : st.phase = .handshaking → st'.phase = .handshaking) {pc : MainPc}
    (hmain : s.MainOk pc) : Inv { s with entry := some st', main := pc } := by
  have hwaiting : Waiting s.entry → Waiting (some st') := by
    rw [hentry, waiting_some, waiting_some]
    exact hphase
  refine ⟨?_, ?_, inv.wire, fun h => hwaiting (inv.phase h), fun h => hwaiting (inv.stale h),
    inv.closer⟩
  · have hconn := inv.conn
    revert hconn
    cases s.conn <;> simp_all [State.ConnOk]
  · cases pc <;> exact hmain

theorem Inv.mainStep {cfg : ScenarioConfig} {ok : Bool} {result : WsaResult} (inv : Inv s)
    (hping : NoEarlyPing cfg s (.main ok result))
    (h : mainStep cfg s ok result s.main = some s') : Inv s' := by
  have hok := inv.main
  cases hmain : s.main with
  | idle =>
    rw [hmain] at h
    cases h
  | scenario now =>
    rw [hmain] at h
    simp only [StressTest.mainStep] at h
    cases hentry : s.entry with
    | none =>
      rw [hentry] at h
      obtain rfl := Option.some.inj h
      rw [← hentry]
      exact inv.setMain trivial
    | some st =>
      rw [hentry] at h
      by_cases hphase : st.phase = .handshaking
      · simp only [advanceScenario_handshaking hphase, ScenarioAction.packet] at h
        obtain rfl := Option.some.inj h
        exact inv.setEntry hentry id trivial
      · have hdone : s.handshakeDone = true := by
          by_contra hdone
          exact hphase (inv.phase (by simpa using hdone) st hentry)
        cases hpacket : (advanceScenario cfg now st).2.packet with
        | some num =>
          simp only [hpacket, Option.some.injEq] at h
          obtain rfl := h
          exact inv.setEntry hentry (fun h => absurd h hphase) hdone
        | none =>
          simp only [hpacket, Option.some.injEq] at h
          obtain rfl := h
          exact inv.setEntry hentry (fun h => absurd h hphase) trivial
  | scenarioSend now pc =>
    rw [hmain] at h hok
    simp only [StressTest.mainStep] at h
    obtain ⟨hinv, hnext⟩ := inv.send hok ok result
    obtain ⟨-, -, hdone⟩ := send_threads s ok result pc
    generalize s.send ok result pc = reply at h hinv hnext hdone
    obtain ⟨t, _ | pc'⟩ := reply
    · obtain rfl := Option.some.inj h
      exact hinv.setMain trivial
    · obtain rfl := Option.some.inj h
      refine hinv.setMain ?_
      change pc'.Safe t.handshakeDone
      rw [show t.handshakeDone = s.handshakeDone from hdone]
      exact hnext pc' rfl
  | ping now =>
    rw [hmain] at h
    simp only [StressTest.mainStep] at h
    cases hentry : s.entry with
    | none =>
      rw [hentry] at h
      obtain rfl := Option.some.inj h
      rw [← hentry]
      exact inv.setMain trivial
    | some st =>
      rw [hentry] at h
      obtain rfl := Option.some.inj h
      refine inv.setEntry hentry (fun h => advancePing_phase.trans h) ?_
      split_ifs with hsend
      · change s.handshakeDone = true
        by_contra hdone
        have hnot : pingDue cfg s = false := hping (by simpa using hdone)
        simp only [pingDue, hmain, hentry, hsend, Bool.true_eq_false] at hnot
      · trivial
  | pingSend pc =>
    rw [hmain] at h hok
    simp only [StressTest.mainStep] at h
    obtain ⟨hinv, hnext⟩ := inv.send hok ok result
    obtain ⟨-, -, hdone⟩ := send_threads s ok result pc
    generalize s.send ok result pc = reply at h hinv hnext hdone
    obtain ⟨t, _ | pc'⟩ := reply
    · obtain rfl := Option.some.inj h
      exact hinv.setMain trivial
    · obtain rfl := Option.some.inj h
      refine hinv.setMain ?_
      change pc'.Safe t.handshakeDone
      rw [show t.handshakeDone = s.handshakeDone from hdone]
      exact hnext pc' rfl

/-- A new session finds at most an entry that waits for the handshake. -/
theorem Inv.reuse (inv : Inv s) (hcloser : s.closer = .done) : Inv s.reuse := by
  have hstale := inv.stale (by rw [hcloser]; trivial)
  exact ⟨⟨rfl, rfl, rfl, rfl⟩, trivial, .inl rfl, fun _ => hstale, False.elim, nofun⟩

theorem inv_initial : Inv .initial :=
  ⟨⟨rfl, rfl, rfl, rfl⟩, trivial, .inl rfl, fun _ => waiting_none, False.elim, nofun⟩

theorem Inv.step {cfg : ScenarioConfig} {op : Op} (inv : Inv s) (hok : NoEarlyPing cfg s op)
    (h : step cfg s op = some s') : Inv s' := by
  cases op with
  | conn ok result => exact inv.connStep h
  | recv packet =>
    cases packet with
    | resKeyExchange derived =>
      simp only [StressTest.step, Option.ite_none_right_eq_some, Option.some.injEq] at h
      obtain ⟨⟨hconn, hmem⟩, rfl⟩ := h
      exact inv.onRecv hconn fun _ _ => hmem
    | encrypted inner now own =>
      simp only [StressTest.step, Option.ite_none_right_eq_some, Option.some.injEq] at h
      obtain ⟨hconn, rfl⟩ := h
      exact inv.onRecv hconn nofun
    | other =>
      simp only [StressTest.step, Option.ite_none_right_eq_some, Option.some.injEq] at h
      obtain ⟨hconn, rfl⟩ := h
      exact inv.onRecv hconn nofun
  | disconnect =>
    obtain rfl := Option.some.inj h
    exact inv.disconnect
  | closer => exact inv.closerStep h
  | tick now =>
    simp only [StressTest.step, Option.ite_none_right_eq_some, Option.some.injEq] at h
    obtain ⟨-, rfl⟩ := h
    exact inv.setMain trivial
  | main ok result => exact inv.mainStep hok h
  | reuse =>
    simp only [StressTest.step, Option.ite_none_right_eq_some, Option.some.injEq] at h
    obtain ⟨⟨-, hcloser, -⟩, rfl⟩ := h
    exact inv.reuse hcloser

theorem inv_of_reach {cfg : ScenarioConfig} (h : (system cfg).Reach (NoEarlyPing cfg) s) :
    Inv s := by
  refine Transition.System.Reach.invariant ?_ ?_ h
  · rintro _ rfl
    exact inv_initial
  · exact fun s op s' _ inv hok hstep => inv.step hok hstep

/-- Without an early ping, the frames on the wire are one key exchange and then encrypted ones, and
the `GameSession` that receives them finds no violation of the protocol. -/
theorem wire_conforms {K π ω : Type*} (env : SecureEnv K) (handlers : Handlers π ω)
    {cfg : ScenarioConfig} (h : (system cfg).Reach (NoEarlyPing cfg) s) :
    (s.wire = [] ∨ Conforms s.wire) ∧
      ∀ (app : π) (ps : List Pointer),
        ps.map PacketHeader.packetNum = s.wire.map PacketEnum.num →
        GameSession.NoViolation env handlers ⟨true, GameSession.fresh app, []⟩ ps := by
  have hwire : s.wire = [] ∨ Conforms s.wire := by
    have hok := (inv_of_reach h).wire
    unfold State.WireOk at hok
    split_ifs at hok
    · exact .inr hok
    · exact hok.imp_right fun hwire => ⟨[], hwire, by simp⟩
  refine ⟨hwire, fun app ps hps => ?_⟩
  rcases hwire with hnil | ⟨rest, hrest, henc⟩
  · rw [hnil] at hps
    rw [List.map_eq_nil_iff.1 hps]
    trivial
  · rw [hrest, List.map_cons] at hps
    obtain ⟨p, ps', rfl, hp, hps'⟩ := List.map_eq_cons_iff.1 hps
    refine GameSession.noViolation_of_keyExchange rfl hp fun q hq => ?_
    have hmem : PacketHeader.packetNum q ∈ rest.map PacketEnum.num := by
      rw [← hps']
      exact List.mem_map_of_mem hq
    obtain ⟨num, hnum, hnumEq⟩ := List.mem_map.1 hmem
    rw [← hnumEq, henc num hnum]

/-- The steps of `ProcessConnect`, up to the registration of the session. -/
def connecting : List Op := List.replicate 6 (.conn true .pending)

/-- A session connects, makes its handshake, logs in and sends its first ping. -/
theorem wire_conforms_ping_after_login :
    ∃ s, (system {}).Reach (NoEarlyPing {}) s ∧ s.wire = [.reqKeyExchange, .encrypted, .encrypted] ∧
      Conforms s.wire := by
  have hrun : (system {}).runWhen (fun s op => decide (NoEarlyPing {} s op)) .initial
      (List.flatten [connecting, [.conn true .pending, .recv (.resKeyExchange true)],
        List.replicate 4 (.conn true .pending), [.tick 3600000000000],
        List.replicate 5 (.main true .pending)]) = some _ := rfl
  have hreach := (Transition.System.reach_of_runWhen (.init rfl) hrun).mono
    fun _ _ => of_decide_eq_true
  refine ⟨_, hreach, rfl, ?_⟩
  exact (wire_conforms GameSession.sampleEnv GameSession.noHandlers hreach).1.resolve_left nofun

/-- A tick finds the session registered and not yet answered by the server: the ping goes out in
plaintext, and the server disconnects the session. -/
theorem early_ping_in_plaintext :
    ∃ s, (system {}).Reachable s ∧ s.wire = [.reqKeyExchange, .test] ∧ ¬ Conforms s.wire ∧
      ¬ GameSession.NoViolation GameSession.sampleEnv GameSession.noHandlers
        ⟨true, GameSession.fresh (), []⟩
        [.ofList (reqKeyExchange (4 :: 2 :: List.replicate 63 0)),
          .ofList (PacketHeader.init .test 260)] := by
  have hrun : (system {}).run .initial (List.flatten [connecting, [.tick 3600000000000],
      List.replicate 4 (.main true .pending)]) = some _ := rfl
  refine ⟨_, Transition.System.reachable_of_run (.init rfl) hrun, rfl, ?_, ?_⟩
  · rintro ⟨rest, hrest, henc⟩
    obtain rfl : [.test] = rest := (List.cons.inj hrest).2
    cases henc .test (List.mem_singleton.2 rfl)
  · rintro ⟨-, hsecond, -⟩
    refine hsecond (by decide +kernel) ?_
    unfold GameSession.Violates
    decide +kernel

end StressTest

end DhNet
