import DhNet.Core.SessionIoProof

/-!
# Sending and receiving over whole runs

* `no_half_dead_session`: if sockets only fail with a reset or an abort, a connected session on
  which no thread is at work has a receive outstanding and has lost no sender.  `HandleError` lets
  every other error pass, and then neither is true (`half_dead_session`).
* `send_path_single_flight`: without failures at most one `WSASend` is outstanding, in the order of
  `Send` and without a loss.  Between the completion of a send and the moment at which
  `ProcessSend` gets the lock the flag stands for neither (`send_flag_without_send`).
-/

namespace DhNet

namespace SessionIo

variable {T α : Type*}

/-! ## Connections -/

section Connections

variable [DecidableEq T] {s s' : State T α} {t : T} {f : Frame α}
  {rest : List (Frame α)} {result : WsaResult} {ok : Bool} {r : State T α × List (Frame α)}

/-- What the step of an activation leaves alone. -/
theorem stepFrame_frame (hstep : stepFrame s t result ok f = some r) :
    r.1.stack = s.stack ∧ r.1.opened = s.opened ∧ (r.1.connected = true → s.connected = true) ∧
      s.recvsOutstanding ≤ r.1.recvsOutstanding := by
  have hacquire : ∀ s₁, s.acquire t = some s₁ → s₁.stack = s.stack ∧ s₁.opened = s.opened ∧
      (s₁.connected = true → s.connected = true) ∧ s.recvsOutstanding ≤ s₁.recvsOutstanding := by
    rintro s₁ hs
    obtain ⟨lock, rfl, -⟩ := acquire_spec hs
    exact ⟨rfl, rfl, id, le_refl _⟩
  rcases f with pc | pc | ⟨n, pc⟩ | pc | pc | ⟨x, pc⟩ | pc <;> cases pc <;>
    simp only [stepFrame] at hstep
  all_goals try split at hstep
  all_goals first
    | obtain rfl := Option.some.inj hstep
      exact ⟨rfl, rfl, id, le_refl _⟩
    | obtain ⟨s₁, hs, rfl⟩ := Option.map_eq_some_iff.1 hstep
      exact hacquire s₁ hs
    | obtain rfl := Option.some.inj hstep
      exact ⟨rfl, rfl, Bool.false_ne_true.elim, le_refl _⟩
    | obtain rfl := Option.some.inj hstep
      exact ⟨rfl, rfl, id, Nat.le_succ _⟩

/-- A session does not come back to life. -/
theorem Step.live {op : Op α} (h : Step s t op s') (live : s'.Live) : s.Live := by
  intro hopened
  cases h with
  | processConnect empty opened =>
    rw [hopened] at opened
    cases opened
  | processRecv empty outstanding => exact live hopened
  | processSend empty outstanding => exact live hopened
  | send may => exact live hopened
  | disconnect may => exact live hopened
  | next stack step =>
    obtain ⟨-, hsame, hconnected, -⟩ := stepFrame_frame step
    exact hconnected (live (hsame.trans hopened))

theorem core_initial : Core (State.initial : State T α) where
  connected := rfl
  locals _ := .nil
  held _ := rfl
  tokens := .of_none (Nat.zero_le _) (fun _ => rfl) fun hne => absurd rfl hne
  placed := ⟨fun _ hpos => absurd hpos (lt_irrefl 0), fun _ => rfl⟩

theorem core_of_reach {ok : State T α → T × Op α → Prop} (fatal : ∀ s a, ok s a → FatalSend s a)
    (h : (system T α).Reach ok s) (live : s.Live) : Core s := by
  refine h.invariant (P := fun s => s.Live → Core s) ?_ ?_ live
  · rintro s rfl -
    exact core_initial
  · intro s a s' _ hs hok hstep hlive
    exact (hs ((step_cases hstep).live hlive)).step (fatal s a hok) hlive hstep

/-! ## Receives -/

/-- The activation is on its way to post the next receive. -/
def Frame.receives : Frame α → Bool
  | .processConnect .onConnected => true
  | .processRecv (.checkBytes _) | .processRecv .loop => true
  | .registerRecv .isConnected | .registerRecv .wsaRecv => true
  | _ => false

/-- A receive is outstanding, or a thread is about to post one, or about to disconnect. -/
def Receiving (s : State T α) : Prop :=
  0 < s.recvsOutstanding ∨ (∃ t, ∃ f ∈ s.stack t, f.receives = true) ∨
    ∃ t f rest, s.stack t = .disconnect .exchange :: f :: rest ∧ f.kind ≠ .disconnect

/-- A failed `WSARecv` is reported with a code that disconnects. -/
def FatalRecv (s : State T α) (a : T × Op α) : Prop :=
  ∀ code ok rest, a.2 = .next (.error code) ok → s.stack a.1 = .registerRecv .wsaRecv :: rest →
    isFatal code = true

/-- A thread that was about to post a receive still is, or has posted it, or disconnects. -/
theorem stepFrame_receives (hstep : stepFrame s t result ok f = some r)
    (connected : s.connected = true) (receives : f.receives = true)
    (fatal : f = .registerRecv .wsaRecv → ∀ code, result = .error code → isFatal code = true) :
    0 < r.1.recvsOutstanding ∨ (∃ g ∈ r.2, g.receives = true) ∨
      ∃ g, r.2 = [.disconnect .exchange, g] ∧ g.kind ≠ .disconnect := by
  cases f with
  | processConnect pc =>
    cases pc with
    | onConnected =>
      obtain rfl := Option.some.inj hstep
      exact .inr (.inl ⟨.registerRecv .isConnected, by simp, rfl⟩)
    | leave => cases receives
  | processRecv pc =>
    cases pc with
    | checkBytes numOfBytes =>
      simp only [stepFrame] at hstep
      split_ifs at hstep
      · obtain rfl := Option.some.inj hstep
        exact .inr (.inr ⟨_, rfl, by simp [Frame.kind]⟩)
      · obtain rfl := Option.some.inj hstep
        exact .inr (.inl ⟨.processRecv .loop, by simp, rfl⟩)
    | loop =>
      simp only [stepFrame] at hstep
      split_ifs at hstep
      · obtain rfl := Option.some.inj hstep
        exact .inr (.inl ⟨.registerRecv .isConnected, by simp, rfl⟩)
      · obtain rfl := Option.some.inj hstep
        exact .inr (.inr ⟨_, rfl, by simp [Frame.kind]⟩)
    | leave => cases receives
  | registerRecv pc =>
    cases pc with
    | isConnected =>
      simp only [stepFrame, connected, if_true] at hstep
      obtain rfl := Option.some.inj hstep
      exact .inr (.inl ⟨.registerRecv .wsaRecv, by simp, rfl⟩)
    | wsaRecv =>
      cases result with
      | success =>
        obtain rfl := Option.some.inj hstep
        exact .inl (Nat.succ_pos _)
      | pending =>
        obtain rfl := Option.some.inj hstep
        exact .inl (Nat.succ_pos _)
      | error code =>
        obtain rfl := Option.some.inj hstep
        refine .inr (.inr ⟨.registerRecv .leave, ?_, by simp [Frame.kind]⟩)
        rw [handleError, if_pos (fatal rfl code rfl)]
        rfl
    | leave => cases receives
  | _ => cases receives

theorem Receiving.next (h : Receiving s) (hstack : s.stack t = f :: rest)
    (hstep : stepFrame s t result ok f = some r) (connected : s.connected = true)
    (live : f ≠ .disconnect .exchange)
    (fatal : f = .registerRecv .wsaRecv → ∀ code, result = .error code → isFatal code = true) :
    Receiving (r.1.setStack t (r.2 ++ rest)) := by
  obtain ⟨hsame, -, -, hrecvs⟩ := stepFrame_frame hstep
  have hother : ∀ u, u ≠ t → (r.1.setStack t (r.2 ++ rest)).stack u = s.stack u := by
    intro u hu
    simp [State.setStack, hu, hsame]
  rcases h with hpos | ⟨u, g, hg, hreceives⟩ | ⟨u, g, rest', hu, hkind⟩
  · exact .inl (hpos.trans_le hrecvs)
  · rcases eq_or_ne u t with rfl | hne
    · rw [hstack] at hg
      rcases List.mem_cons.1 hg with rfl | hg
      · refine (stepFrame_receives hstep connected hreceives fatal).imp_right (Or.imp ?_ ?_)
        · rintro ⟨g, hg, hreceives⟩
          exact ⟨u, g, by simp [hg], hreceives⟩
        · rintro ⟨g, hnew, hkind⟩
          exact ⟨u, g, rest, by simp [hnew], hkind⟩
      · exact .inr (.inl ⟨u, g, by simp [hg], hreceives⟩)
    · exact .inr (.inl ⟨u, g, by rwa [hother u hne], hreceives⟩)
  · rcases eq_or_ne u t with rfl | hne
    · rw [hstack] at hu
      exact absurd (List.cons.inj hu).1 live
    · exact .inr (.inr ⟨u, g, rest', by rwa [hother u hne], hkind⟩)

/-- A call begins on top of the activations of a thread. -/
theorem Receiving.push {s₁ : State T α} (h : Receiving s) (hstacks : s₁.stack = s.stack)
    (hrecvs : s.recvsOutstanding ≤ s₁.recvsOutstanding)
    (idle : ∀ g rest, s.stack t ≠ .disconnect .exchange :: g :: rest) :
    Receiving (s₁.setStack t (f :: s.stack t)) := by
  have hother : ∀ u, u ≠ t → (s₁.setStack t (f :: s.stack t)).stack u = s.stack u := by
    intro u hu
    simp [State.setStack, hu, hstacks]
  rcases h with hpos | ⟨u, g, hg, hreceives⟩ | ⟨u, g, rest', hu, hkind⟩
  · exact .inl (hpos.trans_le hrecvs)
  · rcases eq_or_ne u t with rfl | hne
    · exact .inr (.inl ⟨u, g, by simp [hg], hreceives⟩)
    · exact .inr (.inl ⟨u, g, by rwa [hother u hne], hreceives⟩)
  · rcases eq_or_ne u t with rfl | hne
    · exact absurd hu (idle g rest')
    · exact .inr (.inr ⟨u, g, rest', by rwa [hother u hne], hkind⟩)

theorem receiving_of_reach {ok : State T α → T × Op α → Prop}
    (fatal : ∀ s a, ok s a → FatalSend s a ∧ FatalRecv s a) (h : (system T α).Reach ok s)
    (live : s.Live) (opened : s.opened = true) : Receiving s := by
  refine h.invariant (P := fun s => s.Live → s.opened = true → Receiving s) ?_ ?_ live opened
  · rintro s rfl - hopened
    cases hopened
  · rintro s ⟨t, op⟩ s' hreach ih hok hstep hlive hopened
    have hstep := step_cases hstep
    have hlive' := hstep.live hlive
    cases hstep with
    | processConnect empty _ =>
      exact .inr (.inl ⟨t, .processConnect .onConnected, by simp, rfl⟩)
    | @processRecv numOfBytes empty _ =>
      exact .inr (.inl ⟨t, .processRecv (.checkBytes numOfBytes), by simp, rfl⟩)
    | processSend empty _ =>
      rw [← empty]
      exact (ih hlive' hopened).push rfl (le_refl _) fun g rest hstack => by
        rw [hstack] at empty
        cases empty
    | send may =>
      exact (ih hlive' hopened).push rfl (le_refl _) fun g rest hstack => by
        rw [hstack] at may
        cases may
    | disconnect may =>
      exact (ih hlive' hopened).push rfl (le_refl _) fun g rest hstack => by
        rw [hstack] at may
        cases may
    | next stack step =>
      obtain ⟨-, hsame, -, -⟩ := stepFrame_frame step
      have hconnected := hlive' (hsame.symm.trans hopened)
      refine (ih hlive' (hsame.symm.trans hopened)).next stack step hconnected ?_ ?_
      · -- The exchange of a `Disconnect` would end the connection.
        rintro rfl
        simp only [stepFrame, hconnected, if_true, Option.some.injEq] at step
        subst step
        exact absurd (hlive hopened) Bool.false_ne_true
      · rintro rfl code rfl
        exact (fatal s _ hok).2 code _ _ rfl stack

end Connections

/-! ## Errors -/

/-- The error code that a socket call reports in this action. -/
def Op.error? : Op α → Option ℕ
  | .next (.error code) _ => some code
  | _ => none

/-- Every error is a reset or an abort of the connection. -/
def FatalErrors (_ : State T α) (a : T × Op α) : Prop :=
  ∀ code ∈ a.2.error?, code = wsaEConnReset ∨ code = wsaEConnAborted

instance (s : State T α) (a : T × Op α) : Decidable (FatalErrors s a) :=
  inferInstanceAs (Decidable (∀ code ∈ a.2.error?, _))

/-- No thread is inside a function of the session other than `Disconnect`. -/
def State.Quiet (s : State T α) : Prop := ∀ t, ∀ f ∈ s.stack t, f.kind = .disconnect

theorem FatalErrors.isFatal {s : State T α} {a : T × Op α} (h : FatalErrors s a) :
    FatalSend s a ∧ FatalRecv s a := by
  constructor <;> intro code ok rest hop _ <;>
    simpa [SessionIo.isFatal, FatalErrors, hop, Op.error?] using h

variable [DecidableEq T] {s s' : State T α} {t : T} {f : Frame α}
  {rest : List (Frame α)} {result : WsaResult} {ok : Bool} {r : State T α × List (Frame α)}

/-- If every error of a run is a reset or an abort, then a session on which no thread is at work and
which is still connected has a receive outstanding, and every sender that it accepted was taken by
a `WSASend` or is queued. -/
theorem no_half_dead_session (reach : (system T α).Reach FatalErrors s) (quiet : s.Quiet)
    (connected : s.connected = true) :
    0 < s.recvsOutstanding ∧ s.wsaSends.flatten ++ s.senderQueue = s.accepted := by
  have hlive : s.Live := fun _ => connected
  have hcore := core_of_reach (fun _ _ h => h.isFatal.1) reach hlive
  constructor
  · have hopened : s.opened = true := hcore.connected ▸ connected
    rcases receiving_of_reach (fun _ _ h => h.isFatal) reach hlive hopened with
      hpos | ⟨t, f, hf, hreceives⟩ | ⟨t, f, rest, hstack, hkind⟩
    · exact hpos
    · have hkind := quiet t f hf
      cases f with
      | disconnect pc => cases hreceives
      | _ => cases hkind
    · exact absurd (quiet t f (by simp [hstack])) hkind
  · refine (hcore.placed.free fun t => ?_).symm
    rw [← hcore.held t, depth]
    refine List.sum_eq_zero fun n hn => ?_
    obtain ⟨f, hf, rfl⟩ := List.mem_map.1 hn
    have hkind := quiet t f hf
    cases f with
    | disconnect pc => rfl
    | _ => cases hkind

theorem quiet_of_empty {s : State Unit α} (h : s.stack () = []) : s.Quiet := by
  rintro ⟨⟩ f hf
  rw [h] at hf
  cases hf

/-- A sender is posted on a connected session. -/
theorem no_half_dead_session_posted : ∃ s : State Unit ℕ, s.Quiet ∧ s.connected = true ∧
    s.accepted = [7] ∧ 0 < s.recvsOutstanding ∧
    s.wsaSends.flatten ++ s.senderQueue = s.accepted := by
  have hrun : ((system Unit ℕ).runWhen (fun s a => decide (FatalErrors s a)) .initial
      (List.flatten [[((), .processConnect)], List.replicate 4 ((), .next .success true),
        [((), .send 7)], List.replicate 9 ((), .next .success true)])).any (fun s =>
          decide (s.stack () = [] ∧ s.connected = true ∧ s.accepted = [7])) = true := by
    decide +kernel
  obtain ⟨s, hs, hprop⟩ := (Option.any_eq_true _ _).1 hrun
  obtain ⟨hstack, hconnected, haccepted⟩ := of_decide_eq_true hprop
  have hreach : (system Unit ℕ).Reach FatalErrors s :=
    (Transition.System.reach_of_runWhen (.init rfl) hs).mono fun _ _ => of_decide_eq_true
  have hquiet := quiet_of_empty hstack
  exact ⟨s, hquiet, hconnected, haccepted, no_half_dead_session hreach hquiet hconnected⟩

/-- After `WSAENOBUFS` (10055) the session stays connected, without a receive if `WSARecv` reported
it and without the sender if `WSASend` did. -/
theorem half_dead_session :
    (∃ s : State Unit ℕ, (system Unit ℕ).Reachable s ∧ s.Quiet ∧ s.connected = true ∧
      s.recvsOutstanding = 0) ∧
    ∃ s : State Unit ℕ, (system Unit ℕ).Reachable s ∧ s.Quiet ∧ s.connected = true ∧
      7 ∈ s.accepted ∧ 7 ∉ s.wsaSends.flatten ∧ 7 ∉ s.senderQueue := by
  constructor
  · have hrun : ((system Unit ℕ).run .initial
        (List.flatten [[((), .processConnect)], List.replicate 2 ((), .next .success true),
          List.replicate 3 ((), .next (.error 10055) true)])).any (fun s =>
            decide (s.stack () = [] ∧ s.connected = true ∧ s.recvsOutstanding = 0)) = true := by
      decide +kernel
    obtain ⟨s, hs, hprop⟩ := (Option.any_eq_true _ _).1 hrun
    obtain ⟨hstack, hconnected, hrecvs⟩ := of_decide_eq_true hprop
    exact ⟨s, Transition.System.reachable_of_run (.init rfl) hs, quiet_of_empty hstack, hconnected,
      hrecvs⟩
  · have hrun : ((system Unit ℕ).run .initial
        (List.flatten [[((), .processConnect)], List.replicate 4 ((), .next .success true),
          [((), .send 7)], List.replicate 7 ((), .next .success true),
          List.replicate 4 ((), .next (.error 10055) true)])).any (fun s =>
            decide (s.stack () = [] ∧ s.connected = true ∧ 7 ∈ s.accepted ∧
              7 ∉ s.wsaSends.flatten ∧ 7 ∉ s.senderQueue)) = true := by
      decide +kernel
    obtain ⟨s, hs, hprop⟩ := (Option.any_eq_true _ _).1 hrun
    obtain ⟨hstack, hconnected, hlost⟩ := of_decide_eq_true hprop
    exact ⟨s, Transition.System.reachable_of_run (.init rfl) hs, quiet_of_empty hstack, hconnected,
      hlost⟩

/-! ## Sends -/

/-- `Send` is only called on the connected session, a send completes with some bytes, and no
`WSASend` fails. -/
def Op.smooth (s : State T α) (t : T) : Op α → Bool
  | .send _ => s.connected
  | .processSend numOfBytes => 0 < numOfBytes
  | .next (.error _) _ =>
      match s.stack t with
      | .registerSend .wsaSend :: _ => false
      | _ => true
  | _ => true

/-- A step of a run without failures, in which the session stays connected. -/
def Smooth (s : State T α) (a : T × Op α) : Prop :=
  a.2.smooth s a.1 = true ∧ (s.connected = true → ∀ s' ∈ step s a, s'.connected = true)

instance (s : State T α) (a : T × Op α) : Decidable (Smooth s a) :=
  inferInstanceAs (Decidable (_ ∧ _))

/-- An activation of `ProcessSend` has some bytes to report. -/
def Frame.Positive : Frame α → Prop
  | .processSend numOfBytes pc => 0 < numOfBytes ∧ pc ≠ .leave
  | _ => True

/-- What a step in a smooth run does to the flag and to the queue. -/
theorem stepFrame_smooth (hstep : stepFrame s t result ok f = some r)
    (connected : s.connected = true ↔ f.kind ≠ .disconnect) (positive : f.Positive)
    (going : f ≠ .registerSend .clear ∧ f ≠ .registerSend .store)
    (noError : f = .registerSend .wsaSend → ∀ code, result ≠ .error code) :
    (∀ g ∈ r.2, g.Positive) ∧
    (r.1.sendRegistered = true → 0 < r.1.sendsOutstanding ∨ 0 < tokens r.2 ∨
      s.sendRegistered = true ∧ r.1.sendsOutstanding = s.sendsOutstanding ∧ f.token = 0) ∧
    (r.1.senderQueue ≠ [] → r.1.sendRegistered = true ∨ (∃ x, .send x .exchange ∈ r.2) ∨
      s.senderQueue ≠ [] ∧ r.1.sendRegistered = s.sendRegistered ∧ ∀ x, f ≠ .send x .exchange) ∧
    (r.2 = [] ∧ (r.1.recvsOutstanding ≠ 0 ∨ r.1.sendsOutstanding ≠ 0 →
      s.recvsOutstanding ≠ 0 ∨ s.sendsOutstanding ≠ 0) ∨ s.connected = true) := by
  have hacquire : ∀ s₁, s.acquire t = some s₁ → s₁.sendRegistered = s.sendRegistered ∧
      s₁.sendsOutstanding = s.sendsOutstanding ∧ s₁.senderQueue = s.senderQueue := by
    rintro s₁ hs
    obtain ⟨lock, rfl, -⟩ := acquire_spec hs
    exact ⟨rfl, rfl, rfl⟩
  -- One case for each point that an activation can have reached.
  rcases f with pc | pc | ⟨n, pc⟩ | pc | pc | ⟨x, pc⟩ | pc <;> cases pc <;>
    simp only [stepFrame] at hstep
  all_goals try split at hstep
  all_goals first
    | obtain rfl := Option.some.inj hstep
    | obtain ⟨s₁, hs, rfl⟩ := Option.map_eq_some_iff.1 hstep
      have := hacquire s₁ hs
  all_goals
    simp_all [Frame.token, Frame.Positive, moveAll_eq, State.release, Frame.kind, handleError]
  rintro _ (⟨-, rfl⟩ | rfl) <;> trivial

/-- What holds in a smooth run. -/
structure Steady (s : State T α) : Prop where
  live : s.Live
  core : Core s
  early : ∀ t, ∀ f ∈ s.stack t, f.kind = .disconnect ∨ s.opened = true
  posted : s.recvsOutstanding ≠ 0 ∨ s.sendsOutstanding ≠ 0 → s.opened = true
  positive : ∀ t, ∀ f ∈ s.stack t, f.Positive
  claimed : s.sendRegistered = true → 0 < s.sendsOutstanding ∨ ∃ t, 0 < tokens (s.stack t)
  queued : s.senderQueue ≠ [] → s.sendRegistered = true ∨ ∃ t x, .send x .exchange ∈ s.stack t

theorem Smooth.wsaSend {code : ℕ} (h : Smooth s (t, .next (.error code) ok)) :
    s.stack t ≠ .registerSend .wsaSend :: rest := by
  intro hstack
  have hsmooth := h.1
  simp [Op.smooth, hstack] at hsmooth

theorem Smooth.fatalSend {a : T × Op α} (h : Smooth s a) : FatalSend s a := by
  obtain ⟨t, op⟩ := a
  rintro code ok rest rfl hstack
  exact absurd hstack h.wsaSend

/-- The innermost activation of a thread goes on. -/
theorem Steady.next (h : Steady s) (hstack : s.stack t = f :: rest)
    (hstep : stepFrame s t result ok f = some r)
    (connected : s.connected = true ↔ f.kind ≠ .disconnect)
    (noError : f = .registerSend .wsaSend → ∀ code, result ≠ .error code)
    (live : (r.1.setStack t (r.2 ++ rest)).Live) (core : Core (r.1.setStack t (r.2 ++ rest))) :
    Steady (r.1.setStack t (r.2 ++ rest)) := by
  have hmem : f ∈ s.stack t := by simp [hstack]
  obtain ⟨hsame, hopened, -, -⟩ := stepFrame_frame hstep
  have hlocal := h.core.locals t
  rw [hstack] at hlocal
  obtain ⟨hpositive, hclaimed, hqueued, hposted⟩ := stepFrame_smooth hstep connected
    (h.positive t f hmem) ⟨fun hf => (hlocal.top _ _ (by rw [hf])).1 rfl,
      fun hf => (hlocal.top _ _ (by rw [hf])).2 rfl⟩ noError
  have hstacks : (r.1.setStack t (r.2 ++ rest)).stack =
      Function.update s.stack t (r.2 ++ rest) := by
    simp only [State.setStack, hsame]
  have hrest : ∀ g ∈ rest, g ∈ s.stack t := fun g hg => by simp [hstack, hg]
  refine ⟨live, core, ?_, ?_, ?_, ?_, ?_⟩
  · rw [hstacks]
    refine forall_update (P := fun _ stack => ∀ g ∈ stack, g.kind = .disconnect ∨
      r.1.opened = true) ?_ fun u _ g hg => (h.early u g hg).imp_right hopened.trans
    intro g hg
    rcases List.mem_append.1 hg with hg | hg
    · rcases hposted with ⟨hnil, -⟩ | hconnected
      · rw [hnil] at hg
        cases hg
      · exact .inr (hopened.trans (h.core.connected ▸ hconnected))
    · exact (h.early t g (hrest g hg)).imp_right hopened.trans
  · intro hne
    rcases hposted with ⟨-, hsame⟩ | hconnected
    · exact hopened.trans (h.posted (hsame hne))
    · exact hopened.trans (h.core.connected ▸ hconnected)
  · rw [hstacks]
    refine forall_update (P := fun _ stack => ∀ g ∈ stack, g.Positive) ?_ fun u _ => h.positive u
    intro g hg
    rcases List.mem_append.1 hg with hg | hg
    · exact hpositive g hg
    · exact h.positive t g (hrest g hg)
  · intro hflag
    rcases hclaimed hflag with hpos | hpos | ⟨hflag', hsame', htoken⟩
    · exact .inl hpos
    · refine .inr ⟨t, ?_⟩
      rw [setStack_stack_self, tokens_append]
      omega
    · refine (h.claimed hflag').imp (fun hpos => hsame'.symm ▸ hpos) ?_
      rintro ⟨u, hu⟩
      rcases eq_or_ne u t with rfl | hne
      · refine ⟨u, ?_⟩
        rw [hstack, tokens_cons, htoken] at hu
        rw [setStack_stack_self, tokens_append]
        omega
      · exact ⟨u, by rwa [hstacks, Function.update_of_ne hne]⟩
  · intro hne
    rcases hqueued hne with hflag | ⟨x, hx⟩ | ⟨hne', hflag, hf⟩
    · exact .inl hflag
    · exact .inr ⟨t, x, by simp [hx]⟩
    · refine (h.queued hne').imp hflag.trans ?_
      rintro ⟨u, x, hx⟩
      rcases eq_or_ne u t with rfl | hne
      · rw [hstack] at hx
        rcases List.mem_cons.1 hx with hx | hx
        · exact absurd hx.symm (hf x)
        · exact ⟨u, x, by simp [hx]⟩
      · exact ⟨u, x, by rwa [hstacks, Function.update_of_ne hne]⟩

/-- A call begins, or a completion is taken up. -/
theorem Steady.push {s₁ : State T α} (h : Steady s) (hstacks : s₁.stack = s.stack)
    (hflag : s₁.sendRegistered = s.sendRegistered)
    (hsends : s₁.sendsOutstanding = s.sendsOutstanding ∨
      s₁.sendsOutstanding ≤ s.sendsOutstanding ∧ 0 < f.token)
    (hrecvs : s₁.recvsOutstanding ≤ s.recvsOutstanding) (hqueue : s₁.senderQueue = s.senderQueue)
    (hopened : s.opened = true → s₁.opened = true)
    (early : f.kind = .disconnect ∨ s₁.opened = true) (positive : f.Positive)
    (live : (s₁.setStack t (f :: s.stack t)).Live) (core : Core (s₁.setStack t (f :: s.stack t))) :
    Steady (s₁.setStack t (f :: s.stack t)) := by
  have hstacks' : (s₁.setStack t (f :: s.stack t)).stack =
      Function.update s.stack t (f :: s.stack t) := by
    simp only [State.setStack, hstacks]
  refine ⟨live, core, ?_, ?_, ?_, ?_, ?_⟩
  · rw [hstacks']
    refine forall_update (P := fun _ stack => ∀ g ∈ stack, g.kind = .disconnect ∨ s₁.opened = true)
      ?_ fun u _ g hg => (h.early u g hg).imp_right hopened
    intro g hg
    rcases List.mem_cons.1 hg with rfl | hg
    · exact early
    · exact (h.early t g hg).imp_right hopened
  · intro hne
    change s₁.recvsOutstanding ≠ 0 ∨ s₁.sendsOutstanding ≠ 0 at hne
    exact hopened (h.posted (by omega))
  · rw [hstacks']
    refine forall_update (P := fun _ stack => ∀ g ∈ stack, g.Positive) ?_ fun u _ => h.positive u
    intro g hg
    rcases List.mem_cons.1 hg with rfl | hg
    · exact positive
    · exact h.positive t g hg
  · intro hflag'
    rcases hsends with hsame | ⟨-, htoken⟩
    · refine (h.claimed (hflag.symm.trans hflag')).imp (fun hpos => hsame.symm ▸ hpos) ?_
      rintro ⟨u, hu⟩
      refine ⟨u, ?_⟩
      rw [hstacks']
      rcases eq_or_ne u t with rfl | hne
      · rw [Function.update_self, tokens_cons]
        omega
      · rwa [Function.update_of_ne hne]
    · refine .inr ⟨t, ?_⟩
      rw [setStack_stack_self, tokens_cons]
      omega
  · intro hne
    refine (h.queued (hqueue ▸ hne)).imp hflag.trans ?_
    rintro ⟨u, x, hx⟩
    refine ⟨u, x, ?_⟩
    rw [hstacks']
    rcases eq_or_ne u t with rfl | hne
    · simp [hx]
    · rwa [Function.update_of_ne hne]

/-- A session becomes connected when it is opened. -/
theorem Step.opened {op : Op α} (h : Step s t op s') (opened : s'.opened = true) :
    s.opened = true ∨ s'.connected = true := by
  cases h with
  | processConnect empty _ => exact .inr rfl
  | processRecv empty outstanding => exact .inl opened
  | processSend empty outstanding => exact .inl opened
  | send may => exact .inl opened
  | disconnect may => exact .inl opened
  | next stack step => exact .inl ((stepFrame_frame step).2.1.symm.trans opened)

theorem steady_of_reach (h : (system T α).Reach Smooth s) : Steady s := by
  refine h.invariant (P := Steady) ?_ ?_
  · rintro s rfl
    exact ⟨nofun, core_initial, nofun, by simp [State.initial], nofun, nofun,
      fun hne => absurd rfl hne⟩
  · rintro s ⟨t, op⟩ s' - hs smooth hstep
    have hcases := step_cases hstep
    have hlive : s'.Live := fun hopened =>
      (hcases.opened hopened).elim (fun h => smooth.2 (hs.live h) s' hstep) id
    have hcore := hs.core.step smooth.fatalSend hlive hstep
    cases hcases with
    | processConnect empty opened =>
      change s.stack t = [] at empty
      rw [← empty] at hlive hcore ⊢
      exact hs.push rfl rfl (.inl rfl) (le_refl _) rfl (fun _ => rfl) (.inr rfl) trivial hlive hcore
    | processRecv empty outstanding =>
      change s.stack t = [] at empty
      rw [← empty] at hlive hcore ⊢
      exact hs.push rfl rfl (.inl rfl) (Nat.sub_le _ _) rfl id (.inr (hs.posted (.inl outstanding)))
        trivial hlive hcore
    | processSend empty outstanding =>
      change s.stack t = [] at empty
      rw [← empty] at hlive hcore ⊢
      exact hs.push rfl rfl (.inr ⟨Nat.sub_le _ _, Nat.one_pos⟩) (le_refl _) rfl id
        (.inr (hs.posted (.inr outstanding))) ⟨of_decide_eq_true smooth.1, nofun⟩ hlive hcore
    | send may =>
      have hopened : s.opened = true := hs.core.connected ▸ smooth.1
      exact hs.push rfl rfl (.inl rfl) (le_refl _) rfl id (.inr hopened) trivial hlive hcore
    | disconnect may =>
      exact hs.push rfl rfl (.inl rfl) (le_refl _) rfl id (.inl rfl) trivial hlive hcore
    | @next result ok f rest r stack step =>
      refine hs.next stack step ⟨fun hconnected hkind => ?_, fun hkind => ?_⟩ ?_ hlive hcore
      · -- The exchange of a `Disconnect` would end the connection.
        cases f with
        | disconnect pc =>
          cases pc with
          | exchange =>
            simp only [stepFrame, hconnected, if_true, Option.some.injEq] at step
            subst step
            exact absurd (smooth.2 hconnected _ hstep) Bool.false_ne_true
          | onDisconnected =>
            have hlocal := hs.core.locals t
            exact absurd rfl (stack ▸ hlocal.stacked).1
        | _ => cases hkind
      · exact hs.live ((hs.early t f (by simp [stack])).resolve_left hkind)
      · rintro rfl code rfl
        exact smooth.wsaSend stack

/-- The completion of a send is in `ProcessSend`, which has not yet looked at the queue. -/
def State.Completing (s : State T α) : Prop :=
  ∃ t numOfBytes pc, .processSend numOfBytes pc ∈ s.stack t ∧ pc ≠ .unlock ∧ pc ≠ .leave

/-- A thread has claimed the flag and not yet posted its `WSASend`. -/
def State.Claiming (s : State T α) : Prop := ∃ t pc, .registerSend pc ∈ s.stack t

theorem exists_token_iff {stack : List (Frame α)} : 0 < tokens stack ↔
    (∃ numOfBytes pc, .processSend numOfBytes pc ∈ stack ∧ pc ≠ .unlock ∧ pc ≠ .leave) ∨
      ∃ pc, .registerSend pc ∈ stack := by
  constructor
  · intro hpos
    obtain ⟨f, hf, hne⟩ : ∃ f ∈ stack, f.token ≠ 0 := by
      by_contra hall
      push Not at hall
      have : tokens stack = 0 := List.sum_eq_zero fun n hn => by
        obtain ⟨f, hf, rfl⟩ := List.mem_map.1 hn
        exact hall f hf
      omega
    cases f with
    | processSend numOfBytes pc =>
      refine .inl ⟨numOfBytes, pc, hf, ?_, ?_⟩ <;> rintro rfl <;> exact hne rfl
    | registerSend pc => exact .inr ⟨pc, hf⟩
    | _ => exact absurd rfl hne
  · rintro (⟨numOfBytes, pc, hf, h1, h2⟩ | ⟨pc, hf⟩)
    · have hle := token_le_tokens hf
      cases pc with
      | unlock => exact absurd rfl h1
      | leave => exact absurd rfl h2
      | _ => exact hle
    · exact token_le_tokens hf

/-- In a smooth run at most one `WSASend` is outstanding; the flag says that one is, or that its
completion is being processed, or that a thread is about to post one; and whenever the lock is free
the senders passed to `WSASend` and the queued ones are the accepted ones in their order, and a
queue that is not empty has a `WSASend` outstanding or completing. -/
theorem send_path_single_flight (reach : (system T α).Reach Smooth s) :
    s.sendsOutstanding ≤ 1 ∧
    (s.sendRegistered = true ↔ 0 < s.sendsOutstanding ∨ s.Completing ∨ s.Claiming) ∧
    (s.lock = none → s.wsaSends.flatten ++ s.senderQueue = s.accepted) ∧
    (s.lock = none → s.senderQueue ≠ [] → 0 < s.sendsOutstanding ∨ s.Completing) := by
  have hs := steady_of_reach reach
  have htokens : (∃ t, 0 < tokens (s.stack t)) ↔ s.Completing ∨ s.Claiming := by
    simp only [exists_token_iff, exists_or, State.Completing, State.Claiming]
  have hfree : s.lock = none → ∀ t, s.held t = 0 := fun hlock t => by simp [State.held, hlock]
  have hdepth : s.lock = none → ∀ t, depth (s.stack t) = 0 := fun hlock t => by
    rw [hs.core.held t, hfree hlock t]
  refine ⟨hs.core.tokens.flight.trans (Bool.toNat_le _), ⟨fun hflag => ?_, ?_⟩,
    fun hlock => (hs.core.placed.free (hfree hlock)).symm, fun hlock hne => ?_⟩
  · rw [← htokens]
    exact hs.claimed hflag
  · rw [← htokens]
    rintro (hpos | ⟨t, hpos⟩)
    · by_contra hflag
      have := hs.core.tokens.flight
      rw [Bool.eq_false_of_not_eq_true hflag, Bool.toNat_false] at this
      omega
    · exact (hs.core.tokens.of_pos hpos).1
  · have hflag : s.sendRegistered = true := by
      refine (hs.queued hne).resolve_right ?_
      rintro ⟨t, x, hx⟩
      have hle : (Frame.send x .exchange).depth ≤ depth (s.stack t) :=
        List.single_le_sum (fun _ _ => Nat.zero_le _) _ (List.mem_map_of_mem hx)
      rw [hdepth hlock t] at hle
      exact absurd hle (by simp [Frame.depth])
    refine (hs.claimed hflag).imp_right fun htoken => (htokens.1 htoken).resolve_right ?_
    rintro ⟨t, pc, hmem⟩
    exact (hs.core.locals t).stacked.not_registerSend (hdepth hlock t) pc hmem

/-- Thread `true` is in `ProcessSend` when thread `false` sends again. -/
theorem reach_overtaken_completion : ∃ s : State Bool ℕ, (system Bool ℕ).Reach Smooth s ∧
    s.lock = none ∧ s.sendRegistered = true ∧ s.senderQueue = [2] ∧ s.sendsOutstanding = 0 ∧
    s.stack false = [.processConnect .onConnected] ∧
    s.stack true = [.processSend 8 .checkBytes] := by
  have hrun : ((system Bool ℕ).runWhen (fun s a => decide (Smooth s a)) .initial
      (List.flatten [[(false, .processConnect), (false, .send 1)],
        List.replicate 9 (false, .next .success true),
        [(true, .processSend 8), (true, .next .success true), (false, .send 2)],
        List.replicate 4 (false, .next .success true)])).any (fun s => decide (s.lock = none ∧
          s.sendRegistered = true ∧ s.senderQueue = [2] ∧ s.sendsOutstanding = 0 ∧
          s.stack false = [.processConnect .onConnected] ∧
          s.stack true = [.processSend 8 .checkBytes])) = true := by
    decide +kernel
  obtain ⟨s, hs, hprop⟩ := (Option.any_eq_true _ _).1 hrun
  exact ⟨s, (Transition.System.reach_of_runWhen (.init rfl) hs).mono fun _ _ => of_decide_eq_true,
    of_decide_eq_true hprop⟩

theorem send_path_single_flight_overtaken : ∃ s : State Bool ℕ,
    s.senderQueue = [2] ∧ s.Completing ∧ s.wsaSends.flatten ++ s.senderQueue = s.accepted := by
  obtain ⟨s, hs, hlock, -, hqueue, hout, -⟩ := reach_overtaken_completion
  obtain ⟨-, -, hcontent, hpending⟩ := send_path_single_flight hs
  have hcompleting := (hpending hlock (by simp [hqueue])).resolve_left (by omega)
  exact ⟨s, hqueue, hcompleting, hcontent hlock⟩

/-- While a completion is being processed, the flag is set and a sender may be queued although no
`WSASend` is outstanding and no thread is about to post one; and while `Send` holds the lock, its
sender may be neither queued nor passed to `WSASend`. -/
theorem send_flag_without_send :
    (∃ s : State Bool ℕ, (system Bool ℕ).Reach Smooth s ∧ s.lock = none ∧
      s.sendRegistered = true ∧ s.senderQueue ≠ [] ∧ s.sendsOutstanding = 0 ∧ ¬ s.Claiming) ∧
    ∃ s : State Bool ℕ, (system Bool ℕ).Reach Smooth s ∧
      s.wsaSends.flatten ++ s.senderQueue ≠ s.accepted := by
  constructor
  · obtain ⟨s, hs, hlock, hflag, hqueue, hout, hfalse, htrue⟩ := reach_overtaken_completion
    refine ⟨s, hs, hlock, hflag, by simp [hqueue], hout, ?_⟩
    rintro ⟨_ | _, pc, hpc⟩
    · simp [hfalse] at hpc
    · simp [htrue] at hpc
  · have hrun : ((system Bool ℕ).runWhen (fun s a => decide (Smooth s a)) .initial
        [(false, .processConnect), (false, .send 1), (false, .next .success true)]).any
          (fun s => decide (s.wsaSends.flatten ++ s.senderQueue ≠ s.accepted)) = true := by
      decide +kernel
    obtain ⟨s, hs, hprop⟩ := (Option.any_eq_true _ _).1 hrun
    exact ⟨s, (Transition.System.reach_of_runWhen (.init rfl) hs).mono
      fun _ _ => of_decide_eq_true, of_decide_eq_true hprop⟩

end SessionIo

end DhNet
