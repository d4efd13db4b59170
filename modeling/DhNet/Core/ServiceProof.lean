import DhNet.Lib.Counting
import DhNet.Core.Service

/-!
# The registration of sessions

Each session goes through `ProcessConnect`, `AddSession`, the one `Disconnect` that takes effect,
`OnDisconnected` and `ReleaseSession`.  How often each of them has happened differs from how often
the one before has happened by the number of threads that are in between (`Balanced`), and
`ProcessConnect` is called once.
-/

namespace DhNet

namespace Service

variable {S T : Type*}

/-! ## Threads on their way -/

/-- The stages between two of the counters of a session. -/
inductive Stage where
  | storing
  | adding
  | calling
  | releasing
  | disconnecting
  deriving DecidableEq

theorem Stage.forall {p : Stage → Prop} : (∀ stage, p stage) ↔
    p .storing ∧ p .adding ∧ p .calling ∧ p .releasing ∧ p .disconnecting := by
  refine ⟨fun h => ⟨h _, h _, h _, h _, h _⟩, fun h stage => ?_⟩
  cases stage <;> tauto

section Weights

variable [DecidableEq S]

/-- Whether an activation is in this stage of a session. -/
def Frame.weight (x : S) : Stage → Frame S → ℕ
  | .storing, .processConnect y .store => if y = x then 1 else 0
  | .adding, .processConnect y .addSession => if y = x then 1 else 0
  | .calling, .disconnect y .callOnDisconnected => if y = x then 1 else 0
  | .releasing, .disconnect y .onDisconnected => if y = x then 1 else 0
  | .releasing, .disconnect y .releaseSession => if y = x then 1 else 0
  | .disconnecting, .disconnect y _ => if y = x then 1 else 0
  | _, _ => 0

variable [Fintype T]

/-- The number of activations in this stage of a session. -/
def State.inStage (s : State S T) (x : S) (stage : Stage) : ℕ :=
  ∑ t, ((s.stack t).map (Frame.weight x stage)).sum

variable {s : State S T} {t : T} {f : Frame S} {rest new : List (Frame S)}

theorem weight_le_inStage (h : f ∈ s.stack t) (x : S) (stage : Stage) :
    f.weight x stage ≤ s.inStage x stage := by
  have hle : f.weight x stage ≤ ((s.stack t).map (Frame.weight x stage)).sum :=
    List.single_le_sum (fun _ _ => Nat.zero_le _) _ (List.mem_map_of_mem h)
  exact hle.trans (Finset.single_le_sum
    (f := fun t => ((s.stack t).map (Frame.weight x stage)).sum) (fun _ _ => Nat.zero_le _)
    (Finset.mem_univ t))

variable [DecidableEq T]

/-- The innermost activation of a thread is replaced. -/
theorem inStage_replace {s' : State S T} (hstack : s.stack t = f :: rest)
    (hnew : s'.stack = Function.update s.stack t (new ++ rest)) (x : S) (stage : Stage) :
    s'.inStage x stage + f.weight x stage =
      s.inStage x stage + (new.map (Frame.weight x stage)).sum := by
  have h := Counting.sum_update_add s.stack (fun stack => (stack.map (Frame.weight x stage)).sum) t
    (new ++ rest)
  simp only [hstack, List.map_cons, List.sum_cons, List.map_append, List.sum_append] at h
  unfold State.inStage
  rw [hnew]
  omega

/-- A call begins. -/
theorem inStage_push {s' : State S T}
    (hnew : s'.stack = Function.update s.stack t (f :: s.stack t)) (x : S) (stage : Stage) :
    s'.inStage x stage = s.inStage x stage + f.weight x stage := by
  have h := Counting.sum_update_add s.stack (fun stack => (stack.map (Frame.weight x stage)).sum) t
    (f :: s.stack t)
  simp only [List.map_cons, List.sum_cons] at h
  unfold State.inStage
  rw [hnew]
  omega

end Weights

/-! ## The accounts of a session -/

/-- The counters of a session, given the number of threads in each stage and whether the session is
in `m_sessions`. -/
structure Balanced (n : Session) (inStage : Stage → ℕ) (member : Prop) : Prop where
  once : n.processConnects ≤ 1
  processConnects : n.processConnects = inStage .storing + n.stores
  stores : n.stores = inStage .adding + n.adds
  connected : n.stores = n.connected.toNat + n.disconnects
  disconnects : n.disconnects = inStage .calling + n.onDisconnecteds
  onDisconnecteds : n.onDisconnecteds = inStage .releasing + n.releases
  known : 0 < inStage .disconnecting ∨ 0 < n.disconnects → 0 < n.adds
  member_iff : member ↔ n.adds = n.releases + 1

/-- The invariant of the service. -/
structure Inv [DecidableEq S] [Fintype T] (s : State S T) : Prop where
  balanced : ∀ x, Balanced (s.session x) (s.inStage x) (x ∈ s.sessions)
  sessionCount : s.sessionCount = s.sessions.card
  crash : s.crash = false

/-- The session an activation works on. -/
def Frame.session : Frame S → S
  | .processConnect x _ => x
  | .disconnect x _ => x

theorem Frame.weight_of_ne [DecidableEq S] {f : Frame S} {y : S} (h : y ≠ f.session)
    (stage : Stage) : f.weight y stage = 0 := by
  rcases f with ⟨x, pc⟩ | ⟨x, pc⟩ <;> cases pc <;> cases stage <;>
    simp_all [Frame.weight, Frame.session, Ne.symm]

/-- What the step of an activation does to the other sessions. -/
theorem stepFrame_others [DecidableEq S] (s : State S T) (f : Frame S) {y : S} (h : y ≠ f.session) :
    (stepFrame s f).1.session y = s.session y ∧
    (y ∈ (stepFrame s f).1.sessions ↔ y ∈ s.sessions) ∧
    ∀ g ∈ (stepFrame s f).2, g.session = f.session := by
  rcases f with ⟨x, pc⟩ | ⟨x, pc⟩ <;> cases pc <;>
    simp only [Frame.session] at h <;>
    simp only [stepFrame, State.setSession, State.addSession, State.releaseSession] <;>
    try split_ifs
  all_goals simp [h, Frame.session]

section Accounts

variable [DecidableEq S] [Fintype T] {s : State S T}

theorem inv_initial : Inv (State.initial : State S T) where
  balanced x := by
    have hzero : (State.initial : State S T).inStage x = fun _ => 0 := by
      funext stage
      simp [State.inStage, State.initial]
    rw [hzero]
    constructor <;> simp [State.initial]
  sessionCount := rfl
  crash := rfl

theorem Inv.notMem_of_adding (h : Inv s) {x : S} (hadding : 0 < s.inStage x .adding) :
    x ∉ s.sessions := by
  have hx := h.balanced x
  rw [hx.member_iff]
  have := hx.once
  have := hx.processConnects
  have := hx.stores
  omega

theorem Inv.mem_of_releasing (h : Inv s) {x : S} (hreleasing : 0 < s.inStage x .releasing) :
    x ∈ s.sessions := by
  have hx := h.balanced x
  rw [hx.member_iff]
  have := hx.once
  have := hx.processConnects
  have := hx.stores
  have := hx.connected
  have := hx.disconnects
  have := hx.onDisconnecteds
  have := hx.known
  omega

end Accounts

section Steps

variable [DecidableEq S] [Fintype T] [DecidableEq T] {s s' : State S T} {t : T} {f : Frame S}
  {rest : List (Frame S)}

/-- The innermost activation goes on: it is enough to look at its own session. -/
theorem Inv.of_session (h : Inv s) (hstack : s.stack t = f :: rest)
    (hsame : (stepFrame s f).1.stack = s.stack)
    (here : ∀ inStage : Stage → ℕ,
      (∀ stage, inStage stage + f.weight f.session stage = s.inStage f.session stage +
        ((stepFrame s f).2.map (Frame.weight f.session stage)).sum) →
      Balanced ((stepFrame s f).1.session f.session) inStage
        (f.session ∈ (stepFrame s f).1.sessions))
    (sessionCount : (stepFrame s f).1.sessionCount = (stepFrame s f).1.sessions.card)
    (crash : (stepFrame s f).1.crash = false) :
    Inv ((stepFrame s f).1.setStack t ((stepFrame s f).2 ++ rest)) := by
  have hstacks : ((stepFrame s f).1.setStack t ((stepFrame s f).2 ++ rest)).stack =
      Function.update s.stack t ((stepFrame s f).2 ++ rest) := by
    simp only [State.setStack, hsame]
  have hstages := inStage_replace hstack hstacks
  refine ⟨fun y => ?_, sessionCount, crash⟩
  rcases eq_or_ne y f.session with rfl | hne
  · exact here _ (hstages _)
  · obtain ⟨hsession, hmember, hnew⟩ := stepFrame_others s f hne
    have hinStage : State.inStage ((stepFrame s f).1.setStack t ((stepFrame s f).2 ++ rest)) y =
        s.inStage y := by
      funext stage
      have hzero : ((stepFrame s f).2.map (Frame.weight y stage)).sum = 0 := by
        refine List.sum_eq_zero fun n hn => ?_
        obtain ⟨g, hg, rfl⟩ := List.mem_map.1 hn
        exact Frame.weight_of_ne (by rwa [hnew g hg]) stage
      have := hstages y stage
      rw [Frame.weight_of_ne hne, hzero] at this
      omega
    rw [hinStage]
    change Balanced ((stepFrame s f).1.session y) _ (y ∈ (stepFrame s f).1.sessions)
    rw [hsession, hmember]
    exact h.balanced y

theorem Inv.nextProcessConnect {x : S} {pc : ConnectPc} (h : Inv s)
    (hstack : s.stack t = .processConnect x pc :: rest) :
    Inv ((stepFrame s (.processConnect x pc)).1.setStack t
      ((stepFrame s (.processConnect x pc)).2 ++ rest)) := by
  have hweight := weight_le_inStage (s := s) (t := t) (f := .processConnect x pc)
    (by simp [hstack]) x
  obtain ⟨once, processConnects, stores, connected, disconnects, onDisconnecteds, known,
    member⟩ := h.balanced x
  cases pc with
  | store =>
    refine h.of_session hstack rfl (fun inStage hst => ?_) h.sessionCount h.crash
    simp [Stage.forall, stepFrame, Frame.weight, Frame.session] at hst hweight
    constructor <;> simp [stepFrame, Frame.session, State.setSession] <;> omega
  | addSession =>
    have hnotMem : x ∉ s.sessions :=
      h.notMem_of_adding (Nat.lt_of_lt_of_le (by simp [Frame.weight]) (hweight .adding))
    refine h.of_session hstack rfl (fun inStage hst => ?_) ?_ h.crash
    · simp [Stage.forall, stepFrame, Frame.weight, Frame.session] at hst hweight
      constructor <;> simp [stepFrame, Frame.session, State.setSession, State.addSession] <;> omega
    · simp [stepFrame, State.setSession, State.addSession, hnotMem, h.sessionCount]
  | onConnected | registerRecv =>
    refine h.of_session hstack rfl (fun inStage hst => ?_) h.sessionCount h.crash
    simp [Stage.forall, stepFrame, Frame.weight, Frame.session] at hst hweight
    constructor <;> simp only [stepFrame, Frame.session] <;> omega

/-- The `exchange` of `m_connected` in `Disconnect`: the first call for a connected session goes on,
every other one returns. -/
theorem Inv.nextExchange {x : S} (h : Inv s)
    (hstack : s.stack t = .disconnect x .exchange :: rest) :
    Inv ((stepFrame s (.disconnect x .exchange)).1.setStack t
      ((stepFrame s (.disconnect x .exchange)).2 ++ rest)) := by
  have hweight := weight_le_inStage (s := s) (t := t) (f := .disconnect x .exchange)
    (by simp [hstack]) x
  obtain ⟨once, processConnects, stores, connected, disconnects, onDisconnecteds, known,
    member⟩ := h.balanced x
  by_cases hconnected : (s.session x).connected = true
  · have hnext : stepFrame s (.disconnect x .exchange) = (s.setSession x { s.session x with
        connected := false
        disconnects := (s.session x).disconnects + 1 }, [.disconnect x .callOnDisconnected]) := by
      simp only [stepFrame, if_pos hconnected]
    refine h.of_session hstack (by rw [hnext]; rfl) (fun inStage hst => ?_)
      (by rw [hnext]; exact h.sessionCount) (by rw [hnext]; exact h.crash)
    rw [hnext] at hst ⊢
    rw [hconnected] at connected
    simp [Stage.forall, Frame.weight, Frame.session] at hst hweight connected
    constructor <;> simp [Frame.session, State.setSession] <;> omega
  · have hnext : stepFrame s (.disconnect x .exchange) = (s, []) := by
      simp only [stepFrame, if_neg hconnected]
    refine h.of_session hstack (by rw [hnext]) (fun inStage hst => ?_)
      (by rw [hnext]; exact h.sessionCount) (by rw [hnext]; exact h.crash)
    rw [hnext] at hst ⊢
    simp [Stage.forall, Frame.weight, Frame.session] at hst hweight
    constructor <;> simp only [Frame.session] <;> omega

/-- `ReleaseSession` finds the session in `m_sessions`. -/
theorem Inv.nextReleaseSession {x : S} (h : Inv s)
    (hstack : s.stack t = .disconnect x .releaseSession :: rest) :
    Inv ((stepFrame s (.disconnect x .releaseSession)).1.setStack t
      ((stepFrame s (.disconnect x .releaseSession)).2 ++ rest)) := by
  have hweight := weight_le_inStage (s := s) (t := t) (f := .disconnect x .releaseSession)
    (by simp [hstack]) x
  have hmem : x ∈ s.sessions :=
    h.mem_of_releasing (Nat.lt_of_lt_of_le (by simp [Frame.weight]) (hweight .releasing))
  have hnext : stepFrame s (.disconnect x .releaseSession) =
      (({ s with sessions := s.sessions.erase x, sessionCount := s.sessionCount - 1 }).setSession
        x { s.session x with releases := (s.session x).releases + 1 },
        [.disconnect x .registerDisconnect]) := by
    simp only [stepFrame, State.releaseSession, if_pos hmem]
  refine h.of_session hstack (by rw [hnext]; rfl) (fun inStage hst => ?_) ?_
    (by rw [hnext]; exact h.crash)
  · obtain ⟨once, processConnects, stores, connected, disconnects, onDisconnecteds, known,
      member⟩ := h.balanced x
    rw [hnext] at hst ⊢
    simp [Stage.forall, Frame.weight, Frame.session] at hst hweight
    constructor <;> simp [Frame.session, State.setSession] <;> omega
  · rw [hnext]
    have hpos := Finset.card_pos.2 ⟨x, hmem⟩
    have hcard := Finset.card_erase_of_mem hmem
    have := h.sessionCount
    simp only [State.setSession]
    omega

theorem Inv.nextDisconnect {x : S} {pc : DisconnectPc} (h : Inv s)
    (hstack : s.stack t = .disconnect x pc :: rest) :
    Inv ((stepFrame s (.disconnect x pc)).1.setStack t
      ((stepFrame s (.disconnect x pc)).2 ++ rest)) := by
  have hweight := weight_le_inStage (s := s) (t := t) (f := .disconnect x pc)
    (by simp [hstack]) x
  obtain ⟨once, processConnects, stores, connected, disconnects, onDisconnecteds, known,
    member⟩ := h.balanced x
  cases pc with
  | exchange => exact h.nextExchange hstack
  | callOnDisconnected =>
    refine h.of_session hstack rfl (fun inStage hst => ?_) h.sessionCount h.crash
    simp [Stage.forall, stepFrame, Frame.weight, Frame.session] at hst hweight
    constructor <;> simp [stepFrame, Frame.session, State.setSession] <;> omega
  | onDisconnected | registerDisconnect =>
    refine h.of_session hstack rfl (fun inStage hst => ?_) h.sessionCount h.crash
    simp [Stage.forall, stepFrame, Frame.weight, Frame.session] at hst hweight
    constructor <;> simp only [stepFrame, Frame.session] <;> omega
  | releaseSession => exact h.nextReleaseSession hstack

/-- A call of `ProcessConnect` or `Disconnect` begins. -/
theorem Inv.begin {n : Session} (h : Inv s)
    (here : ∀ inStage : Stage → ℕ,
      (∀ stage, inStage stage = s.inStage f.session stage + f.weight f.session stage) →
      Balanced n inStage (f.session ∈ s.sessions)) :
    Inv ((s.setSession f.session n).setStack t (f :: s.stack t)) := by
  have hstages : ∀ x stage,
      ((s.setSession f.session n).setStack t (f :: s.stack t)).inStage x stage =
        s.inStage x stage + f.weight x stage := inStage_push rfl
  refine ⟨fun y => ?_, h.sessionCount, h.crash⟩
  rcases eq_or_ne y f.session with rfl | hne
  · have := here _ (hstages _)
    simpa [State.setStack, State.setSession] using this
  · have hinStage : ((s.setSession f.session n).setStack t (f :: s.stack t)).inStage y =
        s.inStage y := by
      funext stage
      rw [hstages, Frame.weight_of_ne hne, Nat.add_zero]
    rw [hinStage]
    simpa [State.setStack, State.setSession, hne] using h.balanced y

theorem Inv.beginProcessConnect {x : S} (h : Inv s) (hstack : s.stack t = [])
    (hfresh : (s.session x).processConnects = 0) :
    Inv ((s.setSession x { s.session x with
      processConnects := (s.session x).processConnects + 1 }).setStack t
        [.processConnect x .store]) := by
  have hbegin := h.begin (t := t) (f := .processConnect x .store)
    (n := { s.session x with processConnects := (s.session x).processConnects + 1 })
    (fun inStage hst => by
      obtain ⟨once, processConnects, stores, connected, disconnects, onDisconnecteds, known,
        member⟩ := h.balanced x
      simp [Stage.forall, Frame.weight, Frame.session] at hst
      constructor <;> simp [Frame.session] <;> omega)
  rw [hstack] at hbegin
  exact hbegin

theorem Inv.beginDisconnect {x : S} (h : Inv s) (hadded : 0 < (s.session x).adds) :
    Inv (s.setStack t (.disconnect x .exchange :: s.stack t)) := by
  have hbegin := h.begin (t := t) (f := .disconnect x .exchange) (n := s.session x)
    (fun inStage hst => by
      obtain ⟨once, processConnects, stores, connected, disconnects, onDisconnecteds, known,
        member⟩ := h.balanced x
      simp [Stage.forall, Frame.weight, Frame.session] at hst
      exact ⟨by omega, by omega, by omega, by omega, by omega, by omega, by omega, member⟩)
  have hsame : s.setSession x (s.session x) = s := by
    simp [State.setSession]
  rw [Frame.session, hsame] at hbegin
  exact hbegin

theorem Inv.step {a : T × Op S} (h : Inv s) (hok : Introduced s a) (hstep : step s a = some s') :
    Inv s' := by
  obtain ⟨t, op⟩ := a
  have hcrash := h.crash
  cases op with
  | processConnect x =>
    cases hstack : s.stack t with
    | cons f rest => simp [Service.step, hcrash, hstack] at hstep
    | nil =>
      simp only [Service.step, hcrash, hstack, Bool.false_eq_true, if_false,
        Option.some.injEq] at hstep
      subst hstep
      exact h.beginProcessConnect hstack hok
  | disconnect x =>
    simp only [Service.step, hcrash, Bool.false_eq_true, if_false, Option.ite_none_right_eq_some,
      Option.some.injEq] at hstep
    rw [← hstep.2]
    exact h.beginDisconnect hok
  | next =>
    cases hstack : s.stack t with
    | nil => simp [Service.step, hcrash, hstack] at hstep
    | cons f rest =>
      simp only [Service.step, hcrash, hstack, Bool.false_eq_true, if_false,
        Option.some.injEq] at hstep
      subst hstep
      cases f with
      | processConnect x pc => exact h.nextProcessConnect hstack
      | disconnect x pc => exact h.nextDisconnect hstack

end Steps

/-! ## The life of a session -/

variable [DecidableEq S] [Fintype T] {s : State S T}

/-- The activation of `Disconnect` on `x` took effect and has not released the session yet. -/
def Frame.cleaning (x : S) : Frame S → Bool
  | .disconnect y .callOnDisconnected => y = x
  | .disconnect y .onDisconnected => y = x
  | .disconnect y .releaseSession => y = x
  | _ => false

theorem Frame.weight_eq_zero {x : S} {stage : Stage}
    (hstage : stage = .calling ∨ stage = .releasing) {f : Frame S} (h : f.cleaning x = false) :
    f.weight x stage = 0 := by
  rcases f with ⟨y, pc⟩ | ⟨y, pc⟩
  · rcases hstage with rfl | rfl <;> rfl
  · cases pc with
    | callOnDisconnected | onDisconnected | releaseSession =>
      have hne : y ≠ x := of_decide_eq_false h
      rcases hstage with rfl | rfl <;> simp [Frame.weight, hne]
    | exchange | registerDisconnect => rcases hstage with rfl | rfl <;> rfl

theorem inStage_eq_zero {x : S} {stage : Stage} (hstage : stage = .calling ∨ stage = .releasing)
    (h : ∀ t, ∀ f ∈ s.stack t, f.cleaning x = false) : s.inStage x stage = 0 := by
  refine Finset.sum_eq_zero fun t _ => List.sum_eq_zero fun n hn => ?_
  obtain ⟨f, hf, rfl⟩ := List.mem_map.1 hn
  exact Frame.weight_eq_zero hstage (h t f hf)

/-- A session in the states of a service: `OnDisconnected` and `ReleaseSession` run at most once,
not before a `Disconnect` took effect, and exactly once when the call that took effect is past
them; `m_connected` stays false from then on; and `m_sessions` has the sessions that were added and
not yet released. -/
structure Registered (s : State S T) (x : S) : Prop where
  onDisconnected_once : (s.session x).onDisconnecteds ≤ 1
  release_once : (s.session x).releases ≤ 1
  effective : 0 < (s.session x).onDisconnecteds ∨ 0 < (s.session x).releases →
    0 < (s.session x).disconnects
  cleaned : 0 < (s.session x).disconnects → (∀ t, ∀ f ∈ s.stack t, f.cleaning x = false) →
    (s.session x).onDisconnecteds = 1 ∧ (s.session x).releases = 1
  disconnected : 0 < (s.session x).disconnects → (s.session x).connected = false
  member : x ∈ s.sessions ↔ (s.session x).adds = 1 ∧ (s.session x).releases = 0

theorem Inv.registered (h : Inv s) (x : S) : Registered s x := by
  obtain ⟨once, processConnects, stores, connected, disconnects, onDisconnecteds, known,
    member⟩ := h.balanced x
  refine ⟨by omega, by omega, by omega, fun hpos hcleaning => ?_, fun hpos => ?_, ?_⟩
  · have hcalling := inStage_eq_zero (Or.inl rfl) hcleaning
    have hreleasing := inStage_eq_zero (Or.inr rfl) hcleaning
    omega
  · have hzero : (s.session x).connected.toNat = 0 := by omega
    exact Bool.toNat_eq_zero.1 hzero
  · rw [member]
    omega

variable [DecidableEq T]

/-- Whatever the threads do, the assertion of `ReleaseSession` holds, `m_sessionCount` is the size
of `m_sessions`, and every session is registered and released as it should be. -/
theorem session_registration_lifecycle {s : State S T}
    (hreach : (system S T).Reach Introduced s) :
    s.crash = false ∧ s.sessionCount = s.sessions.card ∧ ∀ x, Registered s x := by
  have hinv : Inv s := by
    refine hreach.invariant (fun s hs => ?_) (fun s a s' _ h hok hstep => h.step hok hstep)
    subst hs
    exact inv_initial
  exact ⟨hinv.crash, hinv.sessionCount, hinv.registered⟩

/-- Both threads disconnect the session, one of them from inside `OnConnected`, and the other call
takes effect. -/
theorem session_registration_lifecycle_race : ∃ s : State Unit Bool,
    s.crash = false ∧ (s.session ()).disconnects = 1 ∧ s.stack true = [] ∧
    s.stack false = [.processConnect () .onConnected] ∧ (s.session ()).onDisconnecteds = 1 ∧
    (s.session ()).releases = 1 ∧ () ∉ s.sessions := by
  have hrun : ((system Unit Bool).runWhen (fun s a => decide (Introduced s a)) .initial
      (List.flatten [[(false, .processConnect ()), (false, .next), (false, .next),
        (false, .disconnect ()), (true, .disconnect ()), (true, .next), (false, .next)],
        List.replicate 4 (true, .next)])).any (fun s =>
          decide ((s.session ()).disconnects = 1 ∧ s.stack true = [] ∧
            s.stack false = [.processConnect () .onConnected])) = true := by
    decide +kernel
  obtain ⟨s, hs, hprop⟩ := (Option.any_eq_true _ _).1 hrun
  obtain ⟨hdisconnects, htrue, hfalse⟩ := of_decide_eq_true hprop
  obtain ⟨hcrash, -, hregistered⟩ := session_registration_lifecycle
    ((Transition.System.reach_of_runWhen (.init rfl) hs).mono fun _ _ => of_decide_eq_true)
  have hcleaning : ∀ t, ∀ f ∈ s.stack t, f.cleaning () = false := by
    intro t f hf
    cases t <;> simp_all [Frame.cleaning]
  obtain ⟨honce, hreleased⟩ := (hregistered ()).cleaned (by omega) hcleaning
  refine ⟨s, hcrash, hdisconnects, htrue, hfalse, honce, hreleased, fun hmem => ?_⟩
  have := (hregistered ()).member.1 hmem
  omega

end Service

end DhNet
