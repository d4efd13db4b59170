import DhNet.Protocol.Endpoint

/-!
# Delivery over the encrypted channel

* `Flow`: the frames that a side has sent are those that its peer has handled, followed by those in
  the receive buffer of the peer, on the wire and in the queue.
* `Follows`: what a side keeps to, whatever its threads do.
* `channel_delivery`: both sides have the same key, and the packets that a side passes to `Send` are
  processed by its peer, unchanged and in order, as long as the server passes none before its answer
  to the key exchange has reached `Session::Send`.
-/

namespace DhNet

namespace Channel

variable {K π ω π' ω' : Type*} {terms : Terms K} {side : Side}

/-! ## Scripts -/

theorem opening_script (terms : Terms K) (side : Side) :
    terms.opening side = [] ∨ terms.Script side (terms.opening side) := by
  cases side with
  | server => exact .inl rfl
  | client => exact .inr ⟨[], rfl, nofun⟩

section Script

variable {xs ys : List SentFrame}

theorem Terms.Script.append (h : terms.Script side xs) (hys : ∀ y ∈ ys, terms.Seals side y) :
    terms.Script side (xs ++ ys) := by
  obtain ⟨rest, rfl, hrest⟩ := h
  refine ⟨rest ++ ys, rfl, fun x hx => ?_⟩
  exact (List.mem_append.1 hx).elim (hrest x) (hys x)

theorem Terms.Script.left (h : terms.Script side (xs ++ ys)) (hxs : xs ≠ []) :
    terms.Script side xs := by
  obtain ⟨rest, heq, hrest⟩ := h
  obtain ⟨x, xs, rfl⟩ := List.exists_cons_of_ne_nil hxs
  obtain ⟨rfl, rfl⟩ := List.cons.inj heq
  exact ⟨xs, rfl, fun y hy => hrest y (List.mem_append_left ys hy)⟩

theorem Terms.Script.right (h : terms.Script side (xs ++ ys)) (hxs : xs ≠ []) :
    ∀ y ∈ ys, terms.Seals side y := by
  obtain ⟨rest, heq, hrest⟩ := h
  obtain ⟨x, xs, rfl⟩ := List.exists_cons_of_ne_nil hxs
  obtain ⟨rfl, rfl⟩ := List.cons.inj heq
  exact fun y hy => hrest y (List.mem_append_right xs hy)

/-- Other frames may be sent in between, once the key exchange packet is. -/
theorem Terms.Script.insert {x : SentFrame} (h : terms.Script side (xs ++ ys)) (hxs : xs ≠ [])
    (hx : terms.Seals side x) : terms.Script side (xs ++ [x] ++ ys) :=
  ((h.left hxs).append (List.forall_mem_singleton.2 hx)).append (h.right hxs)

theorem Terms.Script.isFrame (h : terms.Script side xs)
    (hello : packetFormat.IsFrame (terms.hello side)) :
    ∀ f ∈ xs.map Prod.snd, packetFormat.IsFrame f := by
  obtain ⟨rest, rfl, hrest⟩ := h
  simp only [List.map_cons, List.forall_mem_cons]
  refine ⟨hello, fun f hf => ?_⟩
  obtain ⟨x, hx, rfl⟩ := List.mem_map.1 hf
  obtain ⟨packet, payload, rfl, hlen, -, hpacket, -⟩ := hrest x hx
  exact isFrame_encryptedPacket hlen hpacket

end Script

/-! ## Dispatching the frames of the peer -/

/-- In the calls of `OnRecv` on the frames that start at `p`, every handler returns `true`. -/
def AllApproved (cls : SessionClass (SecureState K π) (SecureEvent ω))
    (approves : SecureState K π → Pointer → Prop) :
    Conn (SecureState K π) (SecureEvent ω) → Pointer → List (List UInt8) → Prop
  | _, _, [] => True
  | c, p, frame :: frames =>
      approves c.app p ∧
        AllApproved cls approves (c.onRecv cls p).1 (p.advance frame.length) frames

section Dispatch

variable {cls : SessionClass (SecureState K π) (SecureEvent ω)} {ready : SecureState K π → Prop}
  {approves : SecureState K π → Pointer → Prop} {quiet : Prop}

theorem Endpoint.dispatch_sealed (endpoint : Endpoint terms side cls ready approves quiet)
    (frames : List SentFrame) (hsealed : ∀ x ∈ frames, terms.Seals side.peer x)
    {c : Conn (SecureState K π) (SecureEvent ω)} (handshake : c.app.handshakeDone = true)
    (cipher : c.app.cipher = some terms.key) {p : Pointer}
    (laid : Laid p (frames.map Prod.snd))
    (approved : AllApproved cls approves c p (frames.map Prod.snd)) :
    ∃ c' answer, c.dispatch cls p (frames.map Prod.snd) = (c', true) ∧
      Handled terms.key quiet c c' (frames.filterMap Prod.fst) answer ∧
      ∀ y ∈ answer, terms.Seals side y := by
  induction frames generalizing c p with
  | nil => exact ⟨c, [], rfl, ⟨⟨[], by simp [ownDisconnects, actions, processed, sends]⟩,
      handshake, cipher, fun _ => rfl⟩, nofun⟩
  | cons x frames ih =>
    rw [List.map_cons] at laid approved ⊢
    obtain ⟨hx, hsealed⟩ := List.forall_mem_cons.1 hsealed
    obtain ⟨hok, answer, handled, hanswer⟩ :=
      endpoint.accept c p x handshake cipher hx laid.1.symm approved.1
    obtain ⟨c', answer', hdispatch, handled', hanswer'⟩ :=
      ih hsealed handled.handshakeDone handled.cipher laid.2 approved.2
    refine ⟨c', answer ++ answer', ?_, ?_, fun y hy => ?_⟩
    · rw [Conn.dispatch_cons, if_pos hok, hdispatch]
    · obtain ⟨packet, payload, rfl, -⟩ := hx
      exact handled.trans handled'
    · exact (List.mem_append.1 hy).elim (hanswer y) (hanswer' y)

theorem allApproved_of_forall (h : ∀ st p, approves st p) (frames : List (List UInt8))
    (c : Conn (SecureState K π) (SecureEvent ω)) (p : Pointer) :
    AllApproved cls approves c p frames := by
  induction frames generalizing c p with
  | nil => trivial
  | cons frame frames ih => exact ⟨h c.app p, ih _ _⟩

/-- The first frames of the peer, the key exchange packet among them. -/
theorem Endpoint.dispatch_script (endpoint : Endpoint terms side cls ready approves quiet)
    {frames : List SentFrame} (script : terms.Script side.peer frames)
    {c : Conn (SecureState K π) (SecureEvent ω)} (handshake : c.app.handshakeDone = false)
    (hready : ready c.app) {p : Pointer} (laid : Laid p (frames.map Prod.snd))
    (approved : AllApproved cls approves c p (frames.map Prod.snd)) :
    ∃ c' answer, c.dispatch cls p (frames.map Prod.snd) = (c', true) ∧
      Handled terms.key quiet c c' (frames.filterMap Prod.fst) answer ∧
      terms.Script side (terms.opening side ++ answer) := by
  obtain ⟨rest, rfl, hsealed⟩ := script
  rw [List.map_cons] at laid approved ⊢
  obtain ⟨hok, answer, handled, hanswer⟩ := endpoint.greet c p handshake hready laid.1.symm
  obtain ⟨c', answer', hdispatch, handled', hanswer'⟩ :=
    endpoint.dispatch_sealed rest hsealed handled.handshakeDone handled.cipher laid.2 approved.2
  refine ⟨c', answer ++ answer', ?_, handled.trans handled', ?_⟩
  · rw [Conn.dispatch_cons, if_pos hok, hdispatch]
  · rw [← List.append_assoc]
    exact hanswer.append hanswer'

end Dispatch

/-! ## What a side keeps to -/

/-- The frames handed to `Session::Send` are those that the peer has handled, followed by those of
which the bytes are in its receive buffer, on the wire and in the queue. -/
def Flow (path : SendPath SentFrame) (session : Session (SecureState K π) (SecureEvent ω)) : Prop :=
  ∃ seen rest, path.sent = seen ++ rest ∧
    (rest.map Prod.snd).flatten = session.recvBuffer.data ++ path.backlog Prod.snd ∧
    packetFormat.decode session.recvBuffer.data = ⟨[], false, session.recvBuffer.data⟩ ∧
    processed (actions session.trace) = seen.filterMap Prod.fst ∧
    (session.app.handshakeDone = true ↔ seen ≠ [])

/-- A side sends only its key exchange packet and sealed packets, and `ProcessRecv` never
disconnects it. -/
structure Follows (terms : Terms K) (side : Side) (ready : SecureState K π → Prop) (quiet : Prop)
    (peer : Peer K π ω) : Prop where
  valid : peer.path.Valid
  own : ownDisconnects peer.session.trace = []
  before : peer.session.app.handshakeDone = false →
    ready peer.session.app ∧ peer.path.sent ++ peer.pending = terms.opening side
  after : peer.session.app.handshakeDone = true →
    peer.session.app.cipher = some terms.key ∧ terms.Script side (peer.path.sent ++ peer.pending)
  passed : peer.passed = peer.path.sent.filterMap Prod.fst
  connected : quiet → peer.session.connected = true ∧ peer.session.recvPosted = true

section Follows

variable {ready : SecureState K π → Prop} {quiet : Prop} {peer : Peer K π ω}

theorem Follows.sent_script (follows : Follows terms side ready quiet peer) :
    peer.path.sent = [] ∨ terms.Script side peer.path.sent := by
  refine (eq_or_ne peer.path.sent []).imp id fun hsent => ?_
  cases handshake : peer.session.app.handshakeDone with
  | false =>
    have hopening := (follows.before handshake).2
    rcases opening_script terms side with hnil | hscript
    · rw [hnil] at hopening
      exact absurd (List.append_eq_nil_iff.1 hopening).1 hsent
    · rw [← hopening] at hscript
      exact hscript.left hsent
  | true => exact (follows.after handshake).2.left hsent

/-- A completion with an established key. -/
theorem Follows.handled (follows : Follows terms side ready quiet peer)
    {c : Conn (SecureState K π) (SecureEvent ω)} {packets : List (List UInt8)}
    {answer : List SentFrame}
    (handled : Handled terms.key quiet peer.session.toConn c packets answer)
    (script : terms.Script side (peer.path.sent ++ answer)) (b : RecvBuffer) :
    Follows terms side ready quiet
      { peer with session := ⟨c, b, c.connected⟩, pending := answer } where
  valid := follows.valid
  own := by
    obtain ⟨ext, htrace, hown, -⟩ := handled.trace
    rw [htrace, ownDisconnects_append, hown, follows.own, List.append_nil]
  before handshake := by
    rw [handled.handshakeDone] at handshake
    cases handshake
  after _ := ⟨handled.cipher, script⟩
  passed := follows.passed
  connected hq := by
    have hconn := (handled.connected hq).trans (follows.connected hq).1
    exact ⟨hconn, hconn⟩

end Follows

/-! ## A completion -/

/-- In a completion with these bytes, every handler returns `true`. -/
def CompletionApproved (party : Party K π ω) (peer : Peer K π ω) (bytes : List UInt8) : Prop :=
  AllApproved party.cls (party.handlers.Approves party.env) peer.session.toConn
    (peer.session.recvBuffer.fill bytes).readPointer
    (packetFormat.decode (peer.session.recvBuffer.data ++ bytes)).packets

section Receive

variable {party : Party K π ω} {ready : SecureState K π → Prop}
  {approves : SecureState K π → Pointer → Prop} {quiet : Prop} {peer : Peer K π ω}

/-- A completion on which the frames are all accepted. -/
theorem receive_eq_of_dispatch (party : Party K π ω) {bytes : List UInt8}
    (posted : peer.session.recvPosted = true) (nonempty : bytes ≠ [])
    (fits : bytes.length ≤ peer.session.recvBuffer.freeSize)
    {d : Framing.Decoded UInt8}
    (hd : packetFormat.decode (peer.session.recvBuffer.data ++ bytes) = d)
    (hvalid : d.invalid = false) {c : Conn (SecureState K π) (SecureEvent ω)}
    (hdispatch : peer.session.toConn.dispatch party.cls
      (peer.session.recvBuffer.fill bytes).readPointer d.packets = (c, true))
    {ext : List (Event (SecureEvent ω))} (htrace : c.trace = peer.session.trace ++ ext) :
    ∃ b : RecvBuffer, b.data = d.rest ∧ peer.receive party bytes =
      { peer with session := ⟨c, b, c.connected⟩, pending := sends (actions ext) } := by
  obtain ⟨b, hb, hreceive⟩ :=
    Session.receive_eq party.cls posted nonempty fits .pending hd hdispatch
  refine ⟨b, hb rfl, ?_⟩
  have hsession : peer.session.receive party.cls bytes .pending = ⟨c, b, c.connected⟩ := by
    rw [hreceive, hvalid, Session.registerRecv]
    obtain ⟨_ | _, app, trace⟩ := c <;> rfl
  unfold Peer.receive
  simp only [hsession, htrace, List.drop_left]

/-- The frames that a completion makes complete, in the bytes received and those still to come. -/
theorem Flow.split {path : SendPath SentFrame} {session : Session (SecureState K π) (SecureEvent ω)}
    {rest : List SentFrame} {n : ℕ}
    (wf : ∀ f ∈ rest.map Prod.snd, packetFormat.IsFrame f)
    (hrest : (rest.map Prod.snd).flatten =
      session.recvBuffer.data ++ path.backlog Prod.snd) :
    ∃ now later, rest = now ++ later ∧
      (packetFormat.decode (session.recvBuffer.data ++ path.wire.take n)).packets =
        now.map Prod.snd ∧
      (packetFormat.decode (session.recvBuffer.data ++ path.wire.take n)).invalid = false ∧
      (later.map Prod.snd).flatten =
        (packetFormat.decode (session.recvBuffer.data ++ path.wire.take n)).rest ++
          SendPath.backlog Prod.snd { path with wire := path.wire.drop n } := by
  have hcut : (rest.map Prod.snd).flatten = session.recvBuffer.data ++ path.wire.take n ++
      SendPath.backlog Prod.snd { path with wire := path.wire.drop n } := by
    rw [hrest, SendPath.backlog, SendPath.backlog, List.append_assoc,
      ← List.append_assoc (path.wire.take n), List.take_append_drop]
  obtain ⟨todo, htodo, hvalid, hflatten⟩ := Framing.Format.decode_prefix _ wf hcut
  obtain ⟨now, later, rfl, hnow, rfl⟩ := List.map_eq_append_iff.1 htodo
  exact ⟨now, later, rfl, hnow.symm, hvalid, hflatten⟩

/-- What `OnRecv` does with the frames that a completion makes complete. -/
theorem Endpoint.dispatch_now (endpoint : Endpoint terms side party.cls ready approves quiet)
    (follows : Follows terms side ready quiet peer) (hpending : peer.pending = [])
    {seen now later : List SentFrame} (script : terms.Script side.peer (seen ++ now ++ later))
    (hdone : peer.session.app.handshakeDone = true ↔ seen ≠ []) (hnow : now ≠ []) {p : Pointer}
    (laid : Laid p (now.map Prod.snd))
    (approved : AllApproved party.cls approves peer.session.toConn p (now.map Prod.snd)) :
    ∃ c answer, peer.session.toConn.dispatch party.cls p (now.map Prod.snd) = (c, true) ∧
      Handled terms.key quiet peer.session.toConn c (now.filterMap Prod.fst) answer ∧
      terms.Script side (peer.path.sent ++ answer) := by
  have hleft : terms.Script side.peer (seen ++ now) := script.left (by simp [hnow])
  cases handshake : peer.session.app.handshakeDone with
  | false =>
    obtain rfl : seen = [] := by
      by_contra hseen
      rw [hdone.2 hseen] at handshake
      cases handshake
    obtain ⟨hready, hopening⟩ := follows.before handshake
    rw [hpending, List.append_nil] at hopening
    rw [hopening]
    exact endpoint.dispatch_script hleft handshake hready laid approved
  | true =>
    obtain ⟨cipher, hscript⟩ := follows.after handshake
    rw [hpending, List.append_nil] at hscript
    obtain ⟨c, answer, hdispatch, handled, hanswer⟩ := endpoint.dispatch_sealed now
      (hleft.right (hdone.1 handshake)) handshake cipher laid approved
    exact ⟨c, answer, hdispatch, handled, hscript.append hanswer⟩

theorem Endpoint.receive
    (endpoint : Endpoint terms side party.cls ready (party.handlers.Approves party.env) quiet)
    {path : SendPath SentFrame} {n : ℕ} (follows : Follows terms side ready quiet peer)
    (flow : Flow path peer.session) (script : path.sent = [] ∨ terms.Script side.peer path.sent)
    (receives : peer.Receives path.wire n)
    (approved : CompletionApproved party peer (path.wire.take n)) :
    Follows terms side ready quiet (peer.receive party (path.wire.take n)) ∧
      Flow { path with wire := path.wire.drop n }
        (peer.receive party (path.wire.take n)).session := by
  obtain ⟨hpending, posted, hpos, hwire, hfree⟩ := receives
  obtain ⟨seen, rest, hsent, hrest, -, hprocessed, hdone⟩ := flow
  have hlen : (path.wire.take n).length = n := List.length_take_of_le hwire
  have nonempty : path.wire.take n ≠ [] := List.ne_nil_of_length_pos (by omega)
  have fits : (path.wire.take n).length ≤ peer.session.recvBuffer.freeSize := by omega
  have wf : ∀ f ∈ rest.map Prod.snd, packetFormat.IsFrame f := by
    rcases script with hnil | script
    · rw [hnil, eq_comm, List.append_eq_nil_iff] at hsent
      simp [hsent.2]
    · intro f hf
      refine script.isFrame endpoint.hello f ?_
      rw [hsent, List.map_append]
      exact List.mem_append_right _ hf
  obtain ⟨now, later, rfl, hpackets, hvalid, hlater⟩ := Flow.split (n := n) wf hrest
  have laid := Session.laid_receive (s := peer.session) fits
  have hdecode := Framing.Format.decode_rest _ hvalid
  rw [← List.append_assoc] at hsent
  rcases eq_or_ne now [] with rfl | hnow
  · -- No frame is complete yet.
    obtain ⟨b, hb, heq⟩ := receive_eq_of_dispatch party posted nonempty fits rfl hvalid
      (by rw [hpackets]; rfl) (List.append_nil _).symm
    rw [List.append_nil] at hsent
    rw [heq]
    refine ⟨⟨follows.valid, follows.own, fun h => ?_, fun h => ?_, follows.passed, fun hq => ?_⟩,
      seen, later, hsent, ?_, ?_, hprocessed, hdone⟩
    · have hbefore := follows.before h
      rwa [hpending] at hbefore
    · have hafter := follows.after h
      rwa [hpending] at hafter
    · have hconn := (follows.connected hq).1
      exact ⟨hconn, hconn⟩
    · simp only [hb, hlater]
    · simp only [hb, hdecode]
  · unfold CompletionApproved at approved
    rw [hpackets] at laid approved
    have script : terms.Script side.peer (seen ++ now ++ later) := by
      rw [← hsent]
      refine script.resolve_left fun hnil => hnow ?_
      rw [hnil] at hsent
      have hall := List.append_eq_nil_iff.1 hsent.symm
      exact (List.append_eq_nil_iff.1 hall.1).2
    obtain ⟨c, answer, hdispatch, handled, hscript⟩ :=
      endpoint.dispatch_now follows hpending script hdone hnow laid approved
    obtain ⟨ext, htrace, -, hext, hsends⟩ := handled.trace
    obtain ⟨b, hb, heq⟩ := receive_eq_of_dispatch party posted nonempty fits rfl hvalid
      (by rw [hpackets]; exact hdispatch) htrace
    rw [heq, hsends]
    refine ⟨follows.handled handled hscript b, seen ++ now, later, hsent, ?_, ?_, ?_, ?_⟩
    · simp only [hb, hlater]
    · simp only [hb, hdecode]
    · simp only [htrace, actions_append, processed_append, hprocessed, hext, List.filterMap_append]
    · exact iff_of_true handled.handshakeDone (by simp [hnow])

end Receive

/-! ## Sending -/

section Send

variable {party : Party K π ω} {ready : SecureState K π → Prop} {quiet : Prop}
  {peer peer' : Peer K π ω} {path : SendPath SentFrame}
  {session : Session (SecureState K π') (SecureEvent ω')}

theorem Flow.send (flow : Flow path session) (valid : path.Valid) (connected : Bool)
    (x : SentFrame) : Flow (path.send Prod.snd connected x) session := by
  obtain ⟨seen, rest, hsent, hrest, hdata⟩ := flow
  refine ⟨seen, rest ++ [x], ?_, ?_, hdata⟩
  · rw [SendPath.sent_send, hsent, List.append_assoc]
  · rw [SendPath.backlog_send valid, List.map_append, List.flatten_append, hrest]
    simp

theorem Flow.processSend (flow : Flow path session) (connected : Bool) :
    Flow (path.processSend Prod.snd connected) session := by
  unfold Flow
  rw [SendPath.sent_processSend, SendPath.backlog_processSend]
  exact flow

/-- A step of a thread that sends, seen by the frames of the peer. -/
theorem Flow.sender {session' : Session (SecureState K π') (SecureEvent ω')}
    (flow : Flow path session) (hbuffer : session'.recvBuffer = session.recvBuffer)
    (hdone : session'.app.handshakeDone = session.app.handshakeDone)
    (hprocessed : processed (actions session'.trace) = processed (actions session.trace)) :
    Flow path session' := by
  unfold Flow
  rw [hbuffer, hdone, hprocessed]
  exact flow

/-- The receiving thread hands over its next frame. -/
theorem Follows.push (follows : Follows terms side ready quiet peer)
    (hpush : peer.push = some peer') :
    Follows terms side ready quiet peer' ∧ peer'.session = peer.session ∧
      ∃ x, peer'.path = peer.path.send Prod.snd peer.session.connected x := by
  unfold Peer.push at hpush
  cases hpending : peer.pending with
  | nil => simp [hpending] at hpush
  | cons x pending =>
    simp only [hpending, Option.some.injEq] at hpush
    subst hpush
    have hall : (peer.path.send Prod.snd peer.session.connected x).sent ++ pending =
        peer.path.sent ++ peer.pending := by
      rw [SendPath.sent_send, hpending, List.append_assoc, List.singleton_append]
    refine ⟨⟨SendPath.valid_send _ _ _, follows.own, fun h => ?_, fun h => ?_, ?_,
      follows.connected⟩, rfl, x, rfl⟩
    · simp only [hall]
      exact follows.before h
    · simp only [hall]
      exact follows.after h
    · obtain ⟨packet, frame⟩ := x
      rw [SendPath.sent_send, List.filterMap_append, follows.passed]
      cases packet <;> rfl

/-- Another thread passes a packet to `Send`. -/
theorem send_eq (reliable : party.env.Reliable) {key : List UInt8} {kind : List UInt8 → Prop}
    (handshake : peer.session.app.handshakeDone = true)
    (cipher : peer.session.app.cipher = some key) {packet : List UInt8} (hpacket : IsPacket packet)
    (hkind : kind packet) :
    ∃ frame, Sealed party.env.ssl key kind (some packet, frame) ∧
      peer.send party packet =
        { peer with
          session := { peer.session with
            app := peer.session.app.drawNonce.countSend
            trace := peer.session.trace ++ [.action (.other (.send (some packet) frame))] }
          path := peer.path.send Prod.snd peer.session.connected (some packet, frame)
          passed := peer.passed ++ [packet] } := by
  obtain ⟨frame, hsealed, hsend⟩ := Activity.send_sealed
    (a := (⟨peer.session.connected, peer.session.app, []⟩ : Activity K π ω)) reliable handshake
    cipher hpacket hkind (bytes_ofList hpacket)
  refine ⟨frame, hsealed, ?_⟩
  unfold Peer.send
  rw [hsend]
  rfl

theorem Follows.send (follows : Follows terms side ready quiet peer)
    (reliable : party.env.Reliable) (hssl : party.env.ssl = terms.ssl)
    (handshake : peer.session.app.handshakeDone = true) (hsent : peer.path.sent ≠ [])
    {packet : List UInt8} (hpacket : IsPacket packet)
    (haccepts : terms.knows side.peer packet) :
    Follows terms side ready quiet (peer.send party packet) ∧
      (∀ path, Flow path peer.session → Flow path (peer.send party packet).session) ∧
      ∃ x, (peer.send party packet).path =
        peer.path.send Prod.snd peer.session.connected x := by
  obtain ⟨cipher, script⟩ := follows.after handshake
  obtain ⟨frame, hsealed, heq⟩ := send_eq reliable handshake cipher hpacket haccepts
  rw [hssl] at hsealed
  rw [heq]
  refine ⟨⟨SendPath.valid_send _ _ _, ?_, fun h => ?_, fun _ => ⟨cipher, ?_⟩, ?_,
    follows.connected⟩, fun path flow => flow.sender rfl rfl ?_, _, rfl⟩
  · simp only [ownDisconnects_append, follows.own]
    rfl
  · have hdone : peer.session.app.handshakeDone = false := h
    rw [handshake] at hdone
    cases hdone
  · rw [SendPath.sent_send]
    exact script.insert hsent hsealed
  · rw [SendPath.sent_send, List.filterMap_append, follows.passed]
    rfl
  · simp only [actions_append, processed_append]
    exact List.append_nil _

theorem Follows.processSend (follows : Follows terms side ready quiet peer) :
    Follows terms side ready quiet peer.processSend := by
  refine ⟨SendPath.valid_processSend follows.valid _, follows.own, fun h => ?_, fun h => ?_, ?_,
    follows.connected⟩
  · simp only [Peer.processSend, SendPath.sent_processSend]
    exact follows.before h
  · simp only [Peer.processSend, SendPath.sent_processSend]
    exact follows.after h
  · simp only [Peer.processSend, SendPath.sent_processSend]
    exact follows.passed

end Send

/-! ## Both sides -/

/-- Both sides keep to the terms, and in both directions nothing is lost. -/
structure Linked (terms : Terms K) (serverReady : SecureState K π → Prop)
    (clientReady : SecureState K π' → Prop) (serverQuiet clientQuiet : Prop)
    (s : State K π ω π' ω') : Prop where
  server : Follows terms .server serverReady serverQuiet s.server
  client : Follows terms .client clientReady clientQuiet s.client
  toClient : Flow s.server.path s.client.session
  toServer : Flow s.client.path s.server.session

theorem Flow.sent_ne_nil {path : SendPath SentFrame}
    {session : Session (SecureState K π) (SecureEvent ω)} (flow : Flow path session)
    (handshake : session.app.handshakeDone = true) : path.sent ≠ [] := by
  obtain ⟨seen, rest, hsent, -, -, -, hdone⟩ := flow
  rw [hsent]
  exact List.append_ne_nil_of_left_ne_nil (hdone.1 handshake) rest

section Linked

variable {server : Party K π ω} {client : Party K π' ω'} {serverReady : SecureState K π → Prop}
  {clientReady : SecureState K π' → Prop} {serverQuiet clientQuiet : Prop}
  {s t : State K π ω π' ω'} {op : Op}

/-- The client sets `m_handshakeDone` on the answer to a packet that it has sent. -/
theorem Linked.client_sent (h : Linked terms serverReady clientReady serverQuiet clientQuiet s)
    (handshake : s.client.session.app.handshakeDone = true) : s.client.path.sent ≠ [] := by
  refine h.toServer.sent_ne_nil ?_
  by_contra hserver
  have hopening := (h.server.before (Bool.eq_false_of_not_eq_true hserver)).2
  exact h.toClient.sent_ne_nil handshake (List.append_eq_nil_iff.1 hopening).1

theorem Linked.step
    (serverEndpoint : Endpoint terms .server server.cls serverReady
      (server.handlers.Approves server.env) serverQuiet)
    (clientEndpoint : Endpoint terms .client client.cls clientReady
      (client.handlers.Approves client.env) clientQuiet)
    (serverReliable : server.env.Reliable) (clientReliable : client.env.Reliable)
    (serverSsl : server.env.ssl = terms.ssl) (clientSsl : client.env.ssl = terms.ssl)
    (serverSends : ∀ packet, op = .send .server packet →
      IsPacket packet ∧ terms.knows .client packet ∧ s.server.path.sent ≠ [])
    (clientSends : ∀ packet, op = .send .client packet →
      IsPacket packet ∧ terms.knows .server packet)
    (serverApproves : ∀ n, op = .receive .server n →
      CompletionApproved server s.server (s.client.path.wire.take n))
    (clientApproves : ∀ n, op = .receive .client n →
      CompletionApproved client s.client (s.server.path.wire.take n))
    (h : Linked terms serverReady clientReady serverQuiet clientQuiet s)
    (hstep : step server client s op = some t) :
    Linked terms serverReady clientReady serverQuiet clientQuiet t := by
  obtain ⟨hserver, hclient, toClient, toServer⟩ := h
  rcases op with ⟨_ | _, n⟩ | ⟨_ | _⟩ | ⟨_ | _, packet⟩ | ⟨_ | _⟩ <;>
    simp only [Channel.step] at hstep
  case receive.server =>
    split_ifs at hstep with hreceives
    cases hstep
    obtain ⟨hserver', toServer'⟩ :=
      serverEndpoint.receive hserver toServer hclient.sent_script hreceives (serverApproves n rfl)
    refine ⟨hserver', ?_, toClient, toServer'⟩
    exact ⟨hclient.valid, hclient.own, hclient.before, hclient.after, hclient.passed,
      hclient.connected⟩
  case receive.client =>
    split_ifs at hstep with hreceives
    cases hstep
    obtain ⟨hclient', toClient'⟩ :=
      clientEndpoint.receive hclient toClient hserver.sent_script hreceives (clientApproves n rfl)
    refine ⟨?_, hclient', toClient', toServer⟩
    exact ⟨hserver.valid, hserver.own, hserver.before, hserver.after, hserver.passed,
      hserver.connected⟩
  case push.server =>
    obtain ⟨peer, hpush, rfl⟩ := Option.map_eq_some_iff.1 hstep
    obtain ⟨hserver', hsession, x, hpath⟩ := hserver.push hpush
    refine ⟨hserver', hclient, ?_, ?_⟩
    · rw [hpath]
      exact toClient.send hserver.valid _ x
    · rw [hsession]
      exact toServer
  case push.client =>
    obtain ⟨peer, hpush, rfl⟩ := Option.map_eq_some_iff.1 hstep
    obtain ⟨hclient', hsession, x, hpath⟩ := hclient.push hpush
    refine ⟨hserver, hclient', ?_, ?_⟩
    · rw [hsession]
      exact toClient
    · rw [hpath]
      exact toServer.send hclient.valid _ x
  case send.server =>
    split_ifs at hstep with handshake
    cases hstep
    obtain ⟨hpacket, haccepts, hsent⟩ := serverSends packet rfl
    obtain ⟨hserver', hflow, x, hpath⟩ :=
      hserver.send serverReliable serverSsl handshake hsent hpacket haccepts
    refine ⟨hserver', hclient, ?_, hflow _ toServer⟩
    rw [hpath]
    exact toClient.send hserver.valid _ x
  case send.client =>
    split_ifs at hstep with handshake
    cases hstep
    obtain ⟨hpacket, haccepts⟩ := clientSends packet rfl
    have hsent := Linked.client_sent ⟨hserver, hclient, toClient, toServer⟩ handshake
    obtain ⟨hclient', hflow, x, hpath⟩ :=
      hclient.send clientReliable clientSsl handshake hsent hpacket haccepts
    refine ⟨hserver, hclient', hflow _ toClient, ?_⟩
    rw [hpath]
    exact toServer.send hclient.valid _ x
  case processSend.server =>
    split_ifs at hstep
    cases hstep
    exact ⟨hserver.processSend, hclient, toClient.processSend _, toServer⟩
  case processSend.client =>
    split_ifs at hstep
    cases hstep
    exact ⟨hserver, hclient.processSend, toClient, toServer.processSend _⟩

end Linked

/-! ## Delivery -/

/-- OpenSSL, the nonces and the connection work on both sides, and what the handlers of one side
send, the login included, is taken by the other side. -/
structure Assumptions (serverEnv clientEnv : SecureEnv K) (serverHandlers : Handlers π ω)
    (clientHandlers : Handlers π' ω') (chunk : Pointer) : Prop where
  server : serverEnv.Reliable
  client : clientEnv.Reliable
  ssl : clientEnv.ssl = serverEnv.ssl
  serverSpeaks : serverHandlers.SpeakTo clientHandlers
  clientSpeaks : clientHandlers.SpeakTo serverHandlers
  login : serverHandlers.Takes (ServerSession.login chunk)

section Guards

variable (server : Party K π ω) (client : Party K π' ω')

/-- Every packet passed to `Send` is one that the peer takes, and every handler returns `true`. -/
def Approved (s : State K π ω π' ω') : Op → Prop
  | .send .server packet => client.handlers.Takes packet
  | .send .client packet => server.handlers.Takes packet
  | .receive .server n => CompletionApproved server s.server (s.client.path.wire.take n)
  | .receive .client n => CompletionApproved client s.client (s.server.path.wire.take n)
  | _ => True

/-- In addition, no packet is passed to `GameSession::Send` before the answer to the key exchange
has reached `Session::Send`. -/
def Answered (s : State K π ω π' ω') (op : Op) : Prop :=
  Approved server client s op ∧ ∀ packet, op = .send .server packet → s.server.path.sent ≠ []

end Guards

/-- `Process` was called on the packets passed to `Send`, unchanged and in order, as far as they
have arrived. -/
def Delivered (sender : Peer K π ω) (receiver : Peer K π' ω') : Prop :=
  processed (actions receiver.session.trace) <+: sender.passed ∧
    (sender.path.wire = [] → sender.path.senderQueue = [] →
      processed (actions receiver.session.trace) = sender.passed)

theorem Follows.delivered {ready : SecureState K π → Prop} {quiet : Prop} {sender : Peer K π ω}
    {receiver : Peer K π' ω'} (follows : Follows terms side ready quiet sender)
    (hello : packetFormat.IsFrame (terms.hello side))
    (flow : Flow sender.path receiver.session) : Delivered sender receiver := by
  obtain ⟨seen, rest, hsent, hrest, hdata, hprocessed, -⟩ := flow
  unfold Delivered
  rw [hprocessed, follows.passed, hsent, List.filterMap_append]
  refine ⟨List.prefix_append _ _, fun hwire hqueue => ?_⟩
  -- The bytes of a frame that was not handled would be in the receive buffer, complete.
  have wf : ∀ f ∈ rest.map Prod.snd, packetFormat.IsFrame f := by
    intro f hf
    rcases follows.sent_script with hnil | script
    · rw [hnil, eq_comm, List.append_eq_nil_iff] at hsent
      simp [hsent.2] at hf
    · refine script.isFrame hello f ?_
      rw [hsent, List.map_append]
      exact List.mem_append_right _ hf
  have hdecode := Framing.Format.decode_flatten_append _ wf []
  rw [List.append_nil, hrest, SendPath.backlog, hwire, hqueue] at hdecode
  simp only [List.flatMap_nil, List.append_nil, hdata] at hdecode
  have hnone : rest.map Prod.snd ++ (packetFormat.decode []).packets = [] :=
    (congrArg Framing.Decoded.packets hdecode).symm
  rw [List.map_eq_nil_iff.1 (List.append_eq_nil_iff.1 hnone).1]
  exact (List.append_nil _).symm

section Delivery

variable {serverEnv clientEnv : SecureEnv K} {serverHandlers : Handlers π ω}
  {clientHandlers : Handlers π' ω'} {chunk : Pointer} {app : π} {app' : π'}

/-- The client opens with its key exchange packet. -/
theorem clientStart_eq (reliable : clientEnv.Reliable) {priv : K}
    (hpair : clientEnv.keyPair 0 = some priv) {pub : List UInt8}
    (hpub : EcdhKeyExchange.getPublicKeyBytes clientEnv.ssl priv = some pub) :
    ∃ trace, (clientStart clientEnv clientHandlers app' : Peer K π' ω') =
      { session :=
          { connected := true
            app := ⟨false, none, some priv, app', 1, 1, 0, 0⟩
            trace := trace
            recvBuffer := .init 0x10000
            recvPosted := true }
        pending := [(none, reqKeyExchange pub)]
        path := .fresh
        passed := [] } ∧ ownDisconnects trace = [] ∧ processed (actions trace) = [] := by
  refine ⟨[.action (.other (.send none (reqKeyExchange pub)))], ?_, rfl, rfl⟩
  simp only [clientStart, ServerSession.onConnected, ServerSession.fresh, hpair, hpub,
    Activity.sessionSend_of_reliable reliable]
  rw [← hpair]
  rfl

theorem linked_start (reliable : clientEnv.Reliable) {priv : K}
    (hpair : clientEnv.keyPair 0 = some priv) {key serverPub clientPub : List UInt8}
    (hpub : EcdhKeyExchange.getPublicKeyBytes clientEnv.ssl priv = some clientPub) :
    Linked (sessionTerms serverEnv.ssl key serverPub clientPub serverHandlers clientHandlers)
      (fun st => st.keyPairs = 0) (fun st => st.myPrivKey = some priv) serverHandlers.Keep
      clientHandlers.Keep
      (⟨serverStart app, clientStart clientEnv clientHandlers app'⟩ : State K π ω π' ω') := by
  obtain ⟨trace, hstart, hown, hprocessed⟩ := clientStart_eq reliable hpair hpub
  rw [hstart]
  refine ⟨⟨fun _ => ⟨rfl, rfl⟩, rfl, fun _ => ⟨rfl, rfl⟩, nofun, rfl, fun _ => ⟨rfl, rfl⟩⟩,
    ⟨fun _ => ⟨rfl, rfl⟩, hown, fun _ => ⟨rfl, rfl⟩, nofun, rfl, fun _ => ⟨rfl, rfl⟩⟩,
    ⟨[], [], rfl, rfl, rfl, hprocessed, by simp⟩, ⟨[], [], rfl, rfl, rfl, rfl, ?_⟩⟩
  simp [serverStart, GameSession.fresh, Session.start]

/-- After any run both sides have the same key, the packets passed to `Send` on one side are those
on which the other side calls `Process`, and `ProcessRecv` has refused nothing; a side of which no
handler disconnects goes on receiving. -/
theorem channel_delivery
    (assumptions : Assumptions serverEnv clientEnv serverHandlers clientHandlers chunk)
    {s : State K π ω π' ω'}
    (reach : (system serverEnv clientEnv serverHandlers clientHandlers chunk app app').Reach
      (Answered (serverParty serverEnv serverHandlers)
        (clientParty clientEnv clientHandlers chunk)) s) :
    (s.server.session.app.handshakeDone = true → s.client.session.app.handshakeDone = true →
      ∃ key, s.server.session.app.cipher = some key ∧ s.client.session.app.cipher = some key) ∧
    Delivered s.server s.client ∧ Delivered s.client s.server ∧
    ownDisconnects s.server.session.trace = [] ∧ ownDisconnects s.client.session.trace = [] ∧
    (serverHandlers.Keep →
      s.server.session.connected = true ∧ s.server.session.recvPosted = true) ∧
    (clientHandlers.Keep →
      s.client.session.connected = true ∧ s.client.session.recvPosted = true) := by
  obtain ⟨priv, hpair⟩ := assumptions.server.keyPair 0
  obtain ⟨priv', hpair'⟩ := assumptions.client.keyPair 0
  obtain ⟨pub, pub', key, agreed, agreed'⟩ := agreed_of_lawful assumptions.server.lawful priv priv'
  rw [← assumptions.ssl] at agreed'
  have serverEndpoint :=
    endpoint_gameSession assumptions.server assumptions.serverSpeaks hpair agreed
  have clientEndpoint := endpoint_serverSession assumptions.client assumptions.clientSpeaks
    assumptions.login agreed'
  rw [assumptions.ssl] at clientEndpoint
  have linked : Linked (sessionTerms serverEnv.ssl key pub pub' serverHandlers clientHandlers)
      (fun st => st.keyPairs = 0) (fun st => st.myPrivKey = some priv') serverHandlers.Keep
      clientHandlers.Keep s := by
    refine reach.invariant (P := Linked _ _ _ _ _) ?_ fun s op t _ h hok hstep => ?_
    · rintro _ rfl
      exact linked_start assumptions.client hpair' agreed'.publicKey
    · refine h.step serverEndpoint clientEndpoint assumptions.server assumptions.client rfl
        assumptions.ssl ?_ ?_ ?_ ?_ hstep
      · rintro packet rfl
        exact ⟨hok.1.1, hok.1.2, hok.2 packet rfl⟩
      · rintro packet rfl
        exact hok.1
      · rintro n rfl
        exact hok.1
      · rintro n rfl
        exact hok.1
  exact ⟨fun hserver hclient =>
      ⟨key, (linked.server.after hserver).1, (linked.client.after hclient).1⟩,
    linked.server.delivered clientEndpoint.hello linked.toClient,
    linked.client.delivered serverEndpoint.hello linked.toServer, linked.server.own,
    linked.client.own, linked.server.connected, linked.client.connected⟩

end Delivery

/-! ## Examples -/

/-- Handlers that accept every packet and do nothing. -/
def acceptingHandlers : Handlers Unit Empty := ⟨fun _ => some fun _ _ => ⟨true, [], ()⟩, id⟩

/-- An environment in which everything works and the private key is the given one. -/
def workingEnv (priv : UInt8) : SecureEnv UInt8 where
  ssl := .transparent
  keyPair _ := some priv
  nonce _ := List.replicate 12 0
  sendReset _ := false
  stack _ _ := 0

theorem workingEnv_reliable (priv : UInt8) : (workingEnv priv).Reliable where
  lawful := OpenSsl.transparent_lawful
  keyPair _ := ⟨priv, rfl⟩
  nonce _ := rfl
  noReset _ := rfl

theorem takes_acceptingHandlers {packet : List UInt8} (h : IsPacket packet) :
    acceptingHandlers.Takes packet :=
  ⟨h, _, rfl⟩

theorem speakTo_acceptingHandlers : acceptingHandlers.SpeakTo acceptingHandlers := by
  rintro num handler app p sender ⟨⟩ hsend
  cases hsend

theorem approves_acceptingHandlers (env : SecureEnv K) (st : SecureState K Unit) (p : Pointer) :
    acceptingHandlers.Approves env st p := by
  rintro key plain handler - - ⟨⟩
  rfl

theorem assumptions_accepting : Assumptions (workingEnv 1) (workingEnv 2) acceptingHandlers
    acceptingHandlers (fun _ => 0) :=
  ⟨workingEnv_reliable 1, workingEnv_reliable 2, rfl, speakTo_acceptingHandlers,
    speakTo_acceptingHandlers, takes_acceptingHandlers (by decide +kernel)⟩

/-- A server on which everything works. -/
def workingServer : Party UInt8 Unit Empty := serverParty (workingEnv 1) acceptingHandlers

/-- A client on which everything works. -/
def workingClient : Party UInt8 Unit Empty :=
  clientParty (workingEnv 2) acceptingHandlers fun _ => 0

/-- The connection of the two. -/
def workingSystem : Transition.System (State UInt8 Unit Empty Unit Empty) Op :=
  system (workingEnv 1) (workingEnv 2) acceptingHandlers acceptingHandlers (fun _ => 0) () ()

/-- The connection after `ProcessConnect` on both sides. -/
def workingStart : State UInt8 Unit Empty Unit Empty :=
  ⟨serverStart (), clientStart (workingEnv 2) acceptingHandlers ()⟩

theorem approved_working {s : State UInt8 Unit Empty Unit Empty} {op : Op}
    (h : ∀ side packet, op = .send side packet → IsPacket packet) :
    Approved workingServer workingClient s op := by
  rcases op with ⟨_ | _, n⟩ | _ | ⟨_ | _, packet⟩ | _
  · exact allApproved_of_forall (approves_acceptingHandlers _) _ _ _
  · exact allApproved_of_forall (approves_acceptingHandlers _) _ _ _
  · trivial
  · exact takes_acceptingHandlers (h _ packet rfl)
  · exact takes_acceptingHandlers (h _ packet rfl)
  · trivial

/-- In the example only the server passes a packet, after its answer. -/
def passesOne (s : State UInt8 Unit Empty Unit Empty) : Op → Bool
  | .send .server packet => packet = [0, 0, 4, 0] && !s.server.path.sent.isEmpty
  | .send .client _ => false
  | _ => true

theorem answered_of_passesOne {s : State UInt8 Unit Empty Unit Empty} {op : Op}
    (h : passesOne s op = true) : Answered workingServer workingClient s op := by
  rcases op with _ | _ | ⟨_ | _, packet⟩ | _
  · exact ⟨approved_working nofun, nofun⟩
  · exact ⟨approved_working nofun, nofun⟩
  · simp only [passesOne, Bool.and_eq_true, decide_eq_true_eq, Bool.not_eq_true',
      List.isEmpty_eq_false_iff] at h
    obtain ⟨rfl, hsent⟩ := h
    refine ⟨approved_working ?_, fun _ _ => hsent⟩
    rintro side packet ⟨⟩
    decide
  · cases h
  · exact ⟨approved_working nofun, nofun⟩

/-- The server passes a packet after its answer to the key exchange, which the client receives in
two pieces while its login is on the way to the server. -/
theorem channel_delivery_both_ways :
    ∃ s, workingSystem.Reach (Answered workingServer workingClient) s ∧
      processed (actions s.client.session.trace) = [[0, 0, 4, 0]] ∧
      processed (actions s.server.session.trace) = [ServerSession.login fun _ => 0] := by
  have hrun : (workingSystem.runWhen passesOne workingStart
      [.push .client, .receive .server 69, .push .server, .receive .client 69,
        .send .server [0, 0, 4, 0], .push .client, .processSend .server, .processSend .client,
        .receive .client 20, .receive .client 16, .receive .server 116]).any (fun s =>
      s.server.passed = [[0, 0, 4, 0]] && s.server.path.wire.isEmpty &&
        s.server.path.senderQueue.isEmpty && s.client.passed = [ServerSession.login fun _ => 0] &&
        s.client.path.wire.isEmpty && s.client.path.senderQueue.isEmpty) = true := by
    decide +kernel
  obtain ⟨s, hs, harrived⟩ := (Option.any_eq_true _ _).1 hrun
  simp only [Bool.and_eq_true, decide_eq_true_eq, List.isEmpty_iff] at harrived
  obtain ⟨⟨⟨⟨⟨hserver, hwire⟩, hqueue⟩, hclient⟩, hwire'⟩, hqueue'⟩ := harrived
  have reach : workingSystem.Reach (Answered workingServer workingClient) s :=
    (Transition.System.reach_of_runWhen (.init rfl) hs).mono fun _ _ => answered_of_passesOne
  obtain ⟨-, toClient, toServer, -⟩ := channel_delivery assumptions_accepting reach
  exact ⟨s, reach, (toClient.2 hwire hqueue).trans hserver,
    (toServer.2 hwire' hqueue').trans hclient⟩

/-- A packet that another thread passes to `GameSession::Send` between the store of
`m_handshakeDone` and the call of `Session::Send` for the answer to the key exchange overtakes the
answer: the client refuses it and disconnects. -/
theorem channel_packet_overtakes_answer :
    Assumptions (workingEnv 1) (workingEnv 2) acceptingHandlers acceptingHandlers (fun _ => 0) ∧
    ∃ s, workingSystem.Reach (Approved workingServer workingClient) s ∧
      s.server.passed = [[0, 0, 4, 0]] ∧ processed (actions s.client.session.trace) = [] ∧
      ownDisconnects s.client.session.trace = [.onReadError] := by
  have hrun : (workingSystem.run workingStart
      [.push .client, .receive .server 69, .send .server [0, 0, 4, 0], .push .server,
        .receive .client 36]).map
      (fun s => (s.server.passed, processed (actions s.client.session.trace),
        ownDisconnects s.client.session.trace)) =
      some ([[0, 0, 4, 0]], [], [.onReadError]) := by
    decide +kernel
  obtain ⟨s, hs, heq⟩ := Option.map_eq_some_iff.1 hrun
  simp only [Prod.mk.injEq] at heq
  refine ⟨assumptions_accepting, s, Transition.System.reach_of_run (.init rfl) ?_ hs, heq⟩
  intro op hop s
  refine approved_working fun side packet hsend => ?_
  subst hsend
  simp only [List.mem_cons, List.not_mem_nil, or_false, reduceCtorEq, false_or, Op.send.injEq]
    at hop
  obtain ⟨-, rfl⟩ := hop
  decide

end Channel

end DhNet
