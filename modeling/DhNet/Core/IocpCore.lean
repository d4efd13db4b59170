import DhNet.Lib.System
import DhNet.Core.SessionCalls

/-!
# `IocpCore::Dispatch`

The threads of a service take completions from the port and hand them to the owner of the event.  A
failed completion goes to the same function as a successful one, with the number of bytes as the
only difference, unless its error code is one of the two that `Dispatch` knows.

* `Keeps`: what the functions other than `RegisterConnect` and `ProcessConnect` leave alone.
* `Attempts`: an outstanding `ConnectEx` has its session as the owner of its event.
* `failed_completions_iff`: the completions for which failure does not look like success.
-/

namespace DhNet

namespace SessionCalls

/-- `WAIT_TIMEOUT`. -/
def waitTimeout : ℕ := 258

/-- `ERROR_CONNECTION_REFUSED`. -/
def errorConnectionRefused : ℕ := 1225

/-- An event of a session, or the one of the listener. -/
inductive Event (S : Type*) where
  | session (x : S) (event : SessionEvent)
  | accept
  deriving DecidableEq, Repr

/-- What `GetQueuedCompletionStatus` returns; a failure may come with the event whose operation
failed, or without an event. -/
inductive Dequeued (S : Type*) where
  | success (event : Event S) (numOfBytes : ℕ)
  | failure (errCode : ℕ) (event : Option (Event S)) (numOfBytes : ℕ)
  deriving DecidableEq, Repr

/-- What the environment decides while an event is dispatched: the results of the socket calls, the
calls that the overrides make, how the loop of `ProcessRecv` ends, the two calls of `ProcessAccept`,
and the session that is created for the next `AcceptEx`. -/
structure Environment (S α : Type*) where
  results : SocketResults
  requests : List (Request S α)
  ok : Bool
  setUpdateAcceptSocket : Bool
  getpeername : Bool
  nextSession : S

section Model

variable {S α : Type*} [LinearOrder S] (s : State S α) (env : Environment S α)

/-- `Listener::ProcessAccept`, which ends with a new `RegisterAccept`. -/
def processAccept : State S α :=
  match s.acceptSession with
  | none => s
  | some x =>
      let accepted :=
        if env.setUpdateAcceptSocket = false then s
        else if env.getpeername = false then s
        else s.processConnect x env.results env.requests
      { accepted with acceptSession := some env.nextSession }

/-- `Session::Dispatch`. -/
def sessionDispatch (x : S) (numOfBytes : ℕ) : SessionEvent → State S α
  | .connect => s.processConnect x env.results env.requests
  | .disconnect => s.processDisconnect x
  | .recv => s.processRecv x env.results numOfBytes env.requests env.ok
  | .send => s.processSend x env.results numOfBytes env.requests

/-- The call of `Dispatch` on the owner of the event; the listener never gives up its own. -/
def ownerDispatch (numOfBytes : ℕ) : Event S → State S α
  | .accept => processAccept s env
  | .session x event =>
      if (s.session x).owner event then sessionDispatch s env x numOfBytes event
      else s.fail .nullOwner

/-- `IocpCore::Dispatch`. -/
def dispatch : Dequeued S → State S α × Bool
  | .success event numOfBytes => (ownerDispatch s env numOfBytes event, true)
  | .failure errCode event numOfBytes =>
      if errCode = waitTimeout then (s, false)
      else if errCode = errorConnectionRefused then (s, false)
      else
        match event with
        | none => (s.fail .nullEvent, true)
        | some event => (ownerDispatch s env numOfBytes event, true)

theorem dispatch_of_known {errCode : ℕ}
    (hknown : errCode = waitTimeout ∨ errCode = errorConnectionRefused)
    (event : Option (Event S)) (numOfBytes : ℕ) :
    dispatch s env (.failure errCode event numOfBytes) = (s, false) := by
  unfold dispatch
  dsimp only
  split_ifs with htimeout hrefused
  · rfl
  · rfl
  · exact absurd hknown (not_or.2 ⟨htimeout, hrefused⟩)

theorem dispatch_of_not_known {errCode : ℕ}
    (hknown : ¬ (errCode = waitTimeout ∨ errCode = errorConnectionRefused))
    (event : Option (Event S)) (numOfBytes : ℕ) :
    dispatch s env (.failure errCode event numOfBytes) =
      match event with
      | none => (s.fail .nullEvent, true)
      | some event => (ownerDispatch s env numOfBytes event, true) := by
  unfold dispatch
  dsimp only
  rw [if_neg fun h => hknown (.inl h), if_neg fun h => hknown (.inr h)]

/-- The event that was taken from the port. -/
def Dequeued.event : Dequeued S → Option (Event S)
  | .success event _ => some event
  | .failure _ event _ => event

/-- The completion can occur: a `ConnectEx` is outstanding, or there is a listener. -/
def Posted : Option (Event S) → Prop
  | some (.session x .connect) => (s.session x).connecting = true
  | some .accept => s.isServerService = true
  | _ => True

instance : (event : Option (Event S)) → Decidable (Posted s event)
  | some (.session x .connect) => inferInstanceAs (Decidable ((s.session x).connecting = true))
  | some .accept => inferInstanceAs (Decidable (s.isServerService = true))
  | some (.session _ .disconnect) | some (.session _ .recv) | some (.session _ .send) | none =>
      inferInstanceAs (Decidable True)

/-- The completion is taken from the port. -/
def take : Option (Event S) → State S α
  | some (.session x .connect) => s.modify x fun session => { session with connecting := false }
  | _ => s

/-- What a thread does: call `Connect`, make another call on a session, or take a completion. -/
inductive Op (S α : Type*) where
  | connect (x : S) (results : SocketResults)
  | request (request : Request S α)
  | dispatch (dequeued : Dequeued S) (env : Environment S α)

/-- One call; none is made after the process has ended. -/
def step : Op S α → Option (State S α)
  | .connect x results => if s.fault = none then some (s.connect x results) else none
  | .request request => if s.fault = none then some (s.request request) else none
  | .dispatch dequeued env =>
      if s.fault = none ∧ Posted s dequeued.event then
        some (dispatch (take s dequeued.event) env dequeued).1
      else none

/-- A service with its sessions and the port. -/
def system (S α : Type*) [LinearOrder S] : Transition.System (State S α) (Op S α) :=
  ⟨fun s => ∃ isServerService acceptSession, s = .initial isServerService acceptSession, step⟩

end Model

section Frames

variable {S α : Type*} [LinearOrder S]

/-- What a call leaves alone that is neither `RegisterConnect` nor `ProcessConnect`. -/
structure Keeps (s t : State S α) : Prop where
  isServerService : t.isServerService = s.isServerService
  owner : ∀ x, (t.session x).owner .connect = (s.session x).owner .connect
  bound : ∀ x, (t.session x).bound = (s.session x).bound
  connecting : ∀ x, (t.session x).connecting = (s.session x).connecting
  trace : s.trace <+: t.trace
  fault : t.fault = s.fault ∨ t.fault = some .assertCrash

namespace Keeps

variable {s t u : State S α} {x : S} {results : SocketResults}

theorem refl (s : State S α) : Keeps s s :=
  ⟨rfl, fun _ => rfl, fun _ => rfl, fun _ => rfl, List.prefix_rfl, .inl rfl⟩

theorem trans (h : Keeps s t) (h' : Keeps t u) : Keeps s u where
  isServerService := h'.isServerService.trans h.isServerService
  owner y := (h'.owner y).trans (h.owner y)
  bound y := (h'.bound y).trans (h.bound y)
  connecting y := (h'.connecting y).trans (h.connecting y)
  trace := h.trace.trans h'.trace
  fault := h'.fault.elim (fun h' => h.fault.imp h'.trans h'.trans) .inr

/-- A change of one session that leaves its connect event alone. -/
theorem modify (h : Keeps s t) {f : Session α → Session α}
    (hf : ∀ session, (f session).owner .connect = session.owner .connect ∧
      (f session).bound = session.bound ∧ (f session).connecting = session.connecting) :
    Keeps s (t.modify x f) := by
  refine h.trans ⟨rfl, fun y => ?_, fun y => ?_, fun y => ?_, List.prefix_rfl, .inl rfl⟩
  all_goals
    rcases eq_or_ne y x with rfl | hne
    · simp only [State.session_modify_self, hf]
    · rw [State.session_modify_of_ne _ _ hne]

theorem setOwner (h : Keeps s t) {event : SessionEvent} (hevent : event ≠ .connect) (owned : Bool) :
    Keeps s (t.setOwner x event owned) :=
  h.modify fun _ => ⟨Function.update_of_ne hevent.symm _ _, rfl, rfl⟩

theorem record (h : Keeps s t) (call : Call S) : Keeps s (t.record call) :=
  h.trans ⟨rfl, fun _ => rfl, fun _ => rfl, fun _ => rfl, List.prefix_append _ _, .inl rfl⟩

theorem addSession (h : Keeps s t) : Keeps s (t.addSession x) :=
  (h.record (.addSession x)).trans
    ⟨rfl, fun _ => rfl, fun _ => rfl, fun _ => rfl, List.prefix_rfl, .inl rfl⟩

theorem releaseSession (h : Keeps s t) : Keeps s (t.releaseSession x) := by
  refine (h.record (.releaseSession x)).trans ?_
  unfold State.releaseSession
  cases t.sessions.find? x with
  | none =>
    refine ⟨rfl, fun _ => rfl, fun _ => rfl, fun _ => rfl, List.prefix_rfl, ?_⟩
    cases hfault : t.fault with
    | none => exact .inr (by simp [State.fail, State.record, hfault])
    | some fault => exact .inl (by simp [State.fail, State.record, hfault])
  | some _ => exact ⟨rfl, fun _ => rfl, fun _ => rfl, fun _ => rfl, List.prefix_rfl, .inl rfl⟩

theorem disconnect (h : Keeps s t) : Keeps s (t.disconnect x results) := by
  unfold State.disconnect
  split_ifs
  · have hreleased : Keeps s (((t.modify x fun session =>
        { session with connected := false }).record (.onDisconnected x)).releaseSession x) :=
      ((h.modify fun _ => by exact ⟨rfl, rfl, rfl⟩).record _).releaseSession
    unfold State.registerDisconnect
    cases results.disconnectEx with
    | success | pending => exact hreleased.setOwner (by decide) _
    | error => exact (hreleased.setOwner (by decide) _).setOwner (by decide) _
  · exact h

theorem handleError (h : Keeps s t) (errorCode : ℕ) :
    Keeps s (t.handleError x results errorCode) := by
  unfold State.handleError
  split_ifs
  · exact h.disconnect
  · exact h

theorem registerRecv (h : Keeps s t) : Keeps s (t.registerRecv x results) := by
  unfold State.registerRecv
  split_ifs
  · cases results.wsaRecv with
    | success | pending => exact h.setOwner (by decide) _
    | error code =>
      exact ((h.setOwner (by decide) _).handleError code).setOwner (by decide) _
  · exact h

theorem registerSend (h : Keeps s t) : Keeps s (t.registerSend x results) := by
  unfold State.registerSend
  split_ifs
  · have howned : Keeps s (t.setOwner x .send true) := h.setOwner (by decide) true
    have hmoved := howned.modify (x := x)
      (f := fun session => { session with
        senderQueue := [], senders := session.senders ++ session.senderQueue })
      fun _ => ⟨rfl, rfl, rfl⟩
    cases results.wsaSend with
    | success | pending => exact hmoved
    | error code =>
      exact ((hmoved.handleError code).setOwner (by decide) _).modify
        fun _ => by exact ⟨rfl, rfl, rfl⟩
  · exact h

theorem send (h : Keeps s t) (sender : α) : Keeps s (t.send x results sender) := by
  have hpushed := (h.record (.send x)).modify (x := x)
    (f := fun session => { session with senderQueue := session.senderQueue ++ [sender] })
    fun _ => ⟨rfl, rfl, rfl⟩
  unfold State.send
  split_ifs
  · exact hpushed
  · exact (hpushed.modify fun _ => by exact ⟨rfl, rfl, rfl⟩).registerSend

theorem request (h : Keeps s t) (request : Request S α) : Keeps s (t.request request) := by
  cases request with
  | send => exact h.send _
  | disconnect => exact h.disconnect

theorem override (h : Keeps s t) (requests : List (Request S α)) :
    Keeps s (t.override requests) := by
  induction requests generalizing t with
  | nil => exact h
  | cons request requests ih => exact ih (h.request request)

theorem processRecv (h : Keeps s t) (numOfBytes : ℕ) (requests : List (Request S α)) (ok : Bool) :
    Keeps s (t.processRecv x results numOfBytes requests ok) := by
  have hreleased : Keeps s (t.setOwner x .recv false) := h.setOwner (by decide) _
  unfold State.processRecv
  split_ifs
  · exact hreleased.disconnect
  · exact (hreleased.override requests).registerRecv
  · exact (hreleased.override requests).disconnect

theorem processSend (h : Keeps s t) (numOfBytes : ℕ) (requests : List (Request S α)) :
    Keeps s (t.processSend x results numOfBytes requests) := by
  have howned : Keeps s (t.setOwner x .send false) := h.setOwner (by decide) false
  have hreleased := howned.modify (x := x)
    (f := fun session => { session with senders := [] }) fun _ => ⟨rfl, rfl, rfl⟩
  unfold State.processSend
  split_ifs
  · exact hreleased.disconnect
  · dsimp only
    split_ifs
    · exact (hreleased.override requests).modify fun _ => by exact ⟨rfl, rfl, rfl⟩
    · exact (hreleased.override requests).registerSend

/-- `ProcessConnect` behind its first store. -/
theorem processConnect (s : State S α) (x : S) (results : SocketResults)
    (requests : List (Request S α)) :
    Keeps (((s.setOwner x .connect false).modify x fun session =>
        { session with connected := true }).record (.storeConnected x))
      (s.processConnect x results requests) :=
  (((Keeps.refl _).addSession.record _).override requests).registerRecv

end Keeps

end Frames

/-! ## Attempts to connect -/

section Attempts

variable {S α : Type*} [LinearOrder S] {s t : State S α}

/-- An outstanding `ConnectEx` has its session as the owner of its event; its socket is bound, and
the service is not that of a server. -/
structure Attempts (s : State S α) : Prop where
  owner : ∀ x, (s.session x).connecting = true → (s.session x).owner .connect = true
  bound : ∀ x, (s.session x).connecting = true → (s.session x).bound = true
  client : ∀ x, (s.session x).connecting = true → s.isServerService = false

theorem Attempts.of_keeps (inv : Attempts s) (h : Keeps s t) : Attempts t where
  owner x hx := (h.owner x).trans (inv.owner x ((h.connecting x).symm.trans hx))
  bound x hx := (h.bound x).trans (inv.bound x ((h.connecting x).symm.trans hx))
  client x hx := h.isServerService.trans (inv.client x ((h.connecting x).symm.trans hx))

theorem Attempts.modify (inv : Attempts s) {x : S} {f : Session α → Session α}
    (hf : (f (s.session x)).connecting = true → (f (s.session x)).owner .connect = true ∧
      (f (s.session x)).bound = true ∧ s.isServerService = false) : Attempts (s.modify x f) := by
  have hall : ∀ y, ((s.modify x f).session y).connecting = true →
      ((s.modify x f).session y).owner .connect = true ∧
        ((s.modify x f).session y).bound = true ∧ s.isServerService = false := by
    intro y
    rcases eq_or_ne y x with rfl | hne
    · rw [State.session_modify_self]
      exact hf
    · rw [State.session_modify_of_ne _ _ hne]
      exact fun hy => ⟨inv.owner y hy, inv.bound y hy, inv.client y hy⟩
  exact ⟨fun y hy => (hall y hy).1, fun y hy => (hall y hy).2.1, fun y hy => (hall y hy).2.2⟩

theorem Attempts.take (inv : Attempts s) (event : Option (Event S)) : Attempts (take s event) := by
  unfold SessionCalls.take
  split
  · exact inv.modify nofun
  · exact inv

theorem Attempts.connect (inv : Attempts s) (x : S) (results : SocketResults) :
    Attempts (s.connect x results) := by
  unfold State.connect
  split_ifs with hconnected hserver hreuse hbind
  iterate 4 exact inv
  have hidle : (s.session x).connecting = false := by
    by_contra h
    exact hbind (.inl (inv.bound x (Bool.eq_true_of_not_eq_false h)))
  have hbound : Attempts (s.modify x fun session => { session with bound := true }) :=
    inv.modify fun h => absurd (hidle.symm.trans h) (by decide)
  have howned : Attempts ((s.modify x fun session => { session with bound := true }).setOwner x
      .connect true) :=
    hbound.modify fun h => by simp [hidle] at h
  cases results.connectEx with
  | success | pending =>
    exact howned.modify fun _ => ⟨by simp [State.setOwner], by simp [State.setOwner],
      Bool.eq_false_of_not_eq_true hserver⟩
  | error => exact howned.modify fun h => by simp [State.setOwner, hidle] at h

/-- `ProcessConnect` of a session without an outstanding `ConnectEx`. -/
theorem Attempts.processConnect (inv : Attempts s) {x : S}
    (hidle : (s.session x).connecting = false) (results : SocketResults)
    (requests : List (Request S α)) : Attempts (s.processConnect x results requests) := by
  refine Attempts.of_keeps ?_ (Keeps.processConnect s x results requests)
  have hreleased : Attempts (s.setOwner x .connect false) :=
    inv.modify fun h => absurd (hidle.symm.trans h) (by decide)
  have hstored : Attempts ((s.setOwner x .connect false).modify x fun session =>
      { session with connected := true }) :=
    hreleased.modify fun h => by simp [State.setOwner, hidle] at h
  exact ⟨hstored.owner, hstored.bound, hstored.client⟩

/-- A completion that was taken from the port is handed to its owner. -/
theorem Attempts.ownerDispatch (inv : Attempts s) (env : Environment S α) {event : Event S}
    (hposted : Posted s (some event)) (numOfBytes : ℕ) :
    Attempts (ownerDispatch (SessionCalls.take s (some event)) env numOfBytes event) := by
  have htaken := inv.take (some event)
  cases event with
  | accept =>
    have hidle : ∀ x, (s.session x).connecting = false := by
      intro x
      by_contra h
      have := inv.client x (Bool.eq_true_of_not_eq_false h)
      exact absurd (hposted.symm.trans this) (by decide)
    show Attempts (processAccept s env)
    unfold processAccept
    cases s.acceptSession with
    | none => exact inv
    | some x =>
      have haccepted : Attempts (if env.setUpdateAcceptSocket = false then s
          else if env.getpeername = false then s
          else s.processConnect x env.results env.requests) := by
        split_ifs
        · exact inv
        · exact inv
        · exact inv.processConnect (hidle x) _ _
      exact ⟨haccepted.owner, haccepted.bound, haccepted.client⟩
  | session x event =>
    simp only [SessionCalls.ownerDispatch]
    split_ifs
    · cases event with
      | connect =>
        exact htaken.processConnect (by simp [SessionCalls.take]) _ _
      | disconnect => exact htaken.of_keeps ((Keeps.refl _).setOwner (by decide) _)
      | recv => exact htaken.of_keeps ((Keeps.refl _).processRecv _ _ _)
      | send => exact htaken.of_keeps ((Keeps.refl _).processSend _ _)
    · exact ⟨htaken.owner, htaken.bound, htaken.client⟩

theorem Attempts.step (inv : Attempts s) {op : Op S α} (h : step s op = some t) : Attempts t := by
  cases op with
  | connect x results =>
    obtain ⟨-, ⟨⟩⟩ := Option.ite_none_right_eq_some.1 h
    exact inv.connect x results
  | request request =>
    obtain ⟨-, ⟨⟩⟩ := Option.ite_none_right_eq_some.1 h
    exact inv.of_keeps ((Keeps.refl _).request request)
  | dispatch dequeued env =>
    obtain ⟨⟨-, hposted⟩, ⟨⟩⟩ := Option.ite_none_right_eq_some.1 h
    cases dequeued with
    | success event numOfBytes => exact inv.ownerDispatch env hposted numOfBytes
    | failure errCode event numOfBytes =>
      have htaken := inv.take event
      by_cases hknown : errCode = waitTimeout ∨ errCode = errorConnectionRefused
      · rw [dispatch_of_known _ _ hknown]
        exact htaken
      · rw [dispatch_of_not_known _ _ hknown]
        cases event with
        | none => exact ⟨htaken.owner, htaken.bound, htaken.client⟩
        | some event => exact inv.ownerDispatch env hposted numOfBytes

theorem attempts_of_reachable (h : (system S α).Reachable s) : Attempts s := by
  refine h.invariant (P := Attempts) ?_ fun _ _ _ inv ht => inv.step ht
  rintro _ ⟨isServerService, acceptSession, rfl⟩
  exact ⟨nofun, nofun, nofun⟩

end Attempts

/-! ## Failed completions -/

section Failures

variable {S α : Type*} [LinearOrder S] {s t : State S α} {env : Environment S α}

/-- A `ConnectEx` of the session has failed. -/
def Dequeued.FailedConnect (x : S) : Dequeued S → Prop
  | .success _ _ => False
  | .failure _ event _ => event = some (.session x .connect)

/-- The completion is a success, or a failure of something else than a `ConnectEx` that came with an
event or with one of the two codes that `Dispatch` knows. -/
def Dequeued.Handled : Dequeued S → Prop
  | .success _ _ => True
  | .failure errCode event _ =>
      (∀ x, event ≠ some (.session x .connect)) ∧
        (event ≠ none ∨ errCode = waitTimeout ∨ errCode = errorConnectionRefused)

/-- What a `Dispatch` from `s` to `t` should observe: a failed `ConnectEx` does not lead to the
store to `m_connected` and to the calls that follow it, a null event is not used, and the event of a
`ConnectEx` that was completed has no owner any more. -/
structure Sound (s t : State S α) (dequeued : Dequeued S) : Prop where
  failed : ∀ x, dequeued.FailedConnect x → ∀ calls, t.trace = s.trace ++ calls →
    .storeConnected x ∉ calls ∧ .addSession x ∉ calls ∧ .onConnected x ∉ calls
  event : t.fault ≠ some .nullEvent
  owner : ∀ x, dequeued.event = some (.session x .connect) →
    (t.session x).owner .connect = false

theorem fault_ownerDispatch (hfault : s.fault = none) (numOfBytes : ℕ) (event : Event S) :
    (ownerDispatch s env numOfBytes event).fault ≠ some .nullEvent := by
  have hconnect : ∀ x, (s.processConnect x env.results env.requests).fault ≠ some .nullEvent := by
    intro x
    rcases (Keeps.processConnect s x env.results env.requests).fault with h | h
    · rw [h]
      exact fun hnull => by cases hfault.symm.trans hnull
    · rw [h]
      decide
  have hkeeps : ∀ {t}, Keeps s t → t.fault ≠ some .nullEvent := by
    intro t h
    rcases h.fault with h | h
    · rw [h, hfault]
      decide
    · rw [h]
      decide
  cases event with
  | accept =>
    show (processAccept s env).fault ≠ _
    unfold processAccept
    cases s.acceptSession with
    | none => exact hkeeps (.refl s)
    | some x =>
      dsimp only
      split_ifs
      · exact hkeeps (.refl s)
      · exact hkeeps (.refl s)
      · exact hconnect x
  | session x event =>
    simp only [ownerDispatch]
    split_ifs
    · cases event with
      | connect => exact hconnect x
      | disconnect => exact hkeeps ((Keeps.refl _).setOwner (by decide) _)
      | recv => exact hkeeps ((Keeps.refl _).processRecv _ _ _)
      | send => exact hkeeps ((Keeps.refl _).processSend _ _)
    · simp [State.fail, hfault]

theorem owner_processConnect (x : S) :
    ((s.processConnect x env.results env.requests).session x).owner .connect = false := by
  rw [(Keeps.processConnect s x env.results env.requests).owner x]
  simp [State.record, State.setOwner]

theorem trace_processConnect (s : State S α) (env : Environment S α) (x : S) :
    ∃ calls, (s.processConnect x env.results env.requests).trace = s.trace ++ calls ∧
      .storeConnected x ∈ calls := by
  obtain ⟨calls, hcalls⟩ := (Keeps.processConnect s x env.results env.requests).trace
  exact ⟨.storeConnected x :: calls, hcalls.symm.trans (List.append_assoc ..), List.mem_cons_self⟩

/-- The completion of a `ConnectEx` finds its owner, whether it has failed or not. -/
theorem ownerDispatch_connect (inv : Attempts s) {x : S}
    (hposted : (s.session x).connecting = true) (numOfBytes : ℕ) :
    ownerDispatch (take s (some (.session x .connect))) env numOfBytes (.session x .connect) =
      (take s (some (.session x .connect))).processConnect x env.results env.requests := by
  simp only [ownerDispatch, sessionDispatch]
  exact if_pos (by simpa [take] using inv.owner x hposted)

theorem fault_take (event : Option (Event S)) : (take s event).fault = s.fault := by
  unfold take
  split <;> rfl

theorem trace_take (event : Option (Event S)) : (take s event).trace = s.trace := by
  unfold take
  split <;> rfl

/-- A completion that is not that of a `ConnectEx` is handled well unless a null event is used. -/
theorem Sound.of_not_connect {dequeued : Dequeued S}
    (hother : ∀ x, dequeued.event ≠ some (.session x .connect))
    (hevent : t.fault ≠ some .nullEvent) : Sound s t dequeued where
  failed x hfailed := by
    cases dequeued with
    | success => exact hfailed.elim
    | failure => exact absurd hfailed (hother x)
  event := hevent
  owner x hx := absurd hx (hother x)

/-- A failed completion does not look like a success exactly if it is one of those that `Dispatch`
handles: no failed `ConnectEx`, and without an event only with one of the two codes it knows. -/
theorem failed_completions_iff (hs : (system S α).Reachable s) {dequeued : Dequeued S}
    (h : step s (.dispatch dequeued env) = some t) : Sound s t dequeued ↔ dequeued.Handled := by
  have inv := attempts_of_reachable hs
  obtain ⟨⟨hfault, hposted⟩, ⟨⟩⟩ := Option.ite_none_right_eq_some.1 h
  have htaken := (fault_take dequeued.event).trans hfault
  cases dequeued with
  | success event numOfBytes =>
    refine iff_of_true ⟨fun _ => False.elim, fault_ownerDispatch htaken _ _, ?_⟩ trivial
    rintro x ⟨⟩
    rw [dispatch, Dequeued.event, ownerDispatch_connect inv hposted]
    exact owner_processConnect x
  | failure errCode event numOfBytes =>
    by_cases hknown : errCode = waitTimeout ∨ errCode = errorConnectionRefused
    · rw [dispatch_of_known _ _ hknown]
      constructor
      · -- the session stays the owner of the event
        refine fun sound => ⟨?_, .inr hknown⟩
        rintro x rfl
        have howner := sound.owner x rfl
        simp only [Dequeued.event, take, State.session_modify_self] at howner
        exact absurd ((inv.owner x hposted).symm.trans howner) (by decide)
      · intro hhandled
        exact .of_not_connect hhandled.1 (by rw [htaken]; decide)
    · rw [dispatch_of_not_known _ _ hknown]
      cases event with
      | none =>
        refine iff_of_false (fun sound => sound.event ?_) fun hhandled => ?_
        · simp [State.fail, htaken]
        · exact hhandled.2.elim (fun h => h rfl) hknown
      | some event =>
        constructor
        · -- `ProcessConnect` runs as if the attempt had succeeded
          refine fun sound => ⟨?_, .inl nofun⟩
          rintro x ⟨⟩
          obtain ⟨calls, hcalls, hstore⟩ := trace_processConnect (take s _) env x
          rw [trace_take, ← ownerDispatch_connect inv hposted] at hcalls
          exact (sound.failed x rfl calls hcalls).1 hstore
        · intro hhandled
          exact .of_not_connect hhandled.1 (fault_ownerDispatch htaken _ _)

/-- Overrides that make no calls. -/
def quiet : Environment (Fin 1) Unit := ⟨.accepted, [], true, true, true, 0⟩

/-- The client has called `Connect`. -/
def connecting : State (Fin 1) Unit := (State.initial false none).connect 0 .accepted

theorem reachable_connecting : (system (Fin 1) Unit).Reachable connecting := by
  have hinit : (system (Fin 1) Unit).Reachable (.initial false none) := .init ⟨false, none, rfl⟩
  exact hinit.step (a := .connect 0 .accepted) rfl

/-- A `ConnectEx` that succeeds leaves nothing behind. -/
theorem failed_completions_iff_success :
    (system (Fin 1) Unit).Reachable connecting ∧ ∃ t,
      step connecting (.dispatch (.success (.session 0 .connect) 0) quiet) = some t ∧
        Sound connecting t (.success (.session 0 .connect) 0) :=
  ⟨reachable_connecting, _, rfl, (failed_completions_iff reachable_connecting rfl).2 trivial⟩

/-- A `ConnectEx` that fails with `ERROR_SEM_TIMEOUT` makes a session that is connected and in
`m_sessions`; one that is refused leaves the session as the owner of its event; and a failure
without an event uses a null pointer. -/
theorem failed_connect_looks_like_success :
    (system (Fin 1) Unit).Reachable connecting ∧
      (∃ t, step connecting (.dispatch (.failure 121 (some (.session 0 .connect)) 0) quiet) =
          some t ∧ (t.session 0).connected = true ∧ t.sessions.find? 0 = some () ∧
        t.trace = [.storeConnected 0, .addSession 0, .onConnected 0]) ∧
      (∃ t, step connecting (.dispatch (.failure errorConnectionRefused
          (some (.session 0 .connect)) 0) quiet) = some t ∧
        (t.session 0).owner .connect = true) ∧
      ∃ t, step connecting (.dispatch (.failure 735 none 0) quiet) = some t ∧
        t.fault = some .nullEvent :=
  ⟨reachable_connecting, ⟨_, rfl, rfl, rfl, rfl⟩, ⟨_, rfl, rfl⟩, _, rfl, rfl⟩

end Failures

end SessionCalls

end DhNet
