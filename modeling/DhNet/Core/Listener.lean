import DhNet.Core.IocpCore
import DhNet.Core.ServiceProof

/-!
# The listener

`StartAccept` opens the socket and issues the first `AcceptEx`.  The completion of the `AcceptEx` is
taken from the port by any thread of the service, which hands the accepted session to
`ProcessConnect` and issues the next `AcceptEx` with a session of its own.  Every other thread may
call `Disconnect` on the sessions that `AddSession` has made known.

The sessions are numbered in the order in which `CreateSession` makes them.  The calls of
`RegisterAccept` at the end of `StartAccept`, `ProcessAccept` and `RegisterAccept` itself take the
place of their caller.  `ok` is the result of the system call that an activation makes.

* `accept_loop`: the accept event is outstanding or with one thread, and the session that waits with
  it was never connected, so that the sessions are registered and released as they should be.
-/

namespace DhNet

namespace Listener

/-- The socket calls with which `StartAccept` begins, in this order. -/
inductive StartCall where
  | createSocket
  | register
  | setReuseAddress
  | setLinger
  | bind
  | listen
  deriving DecidableEq, Repr

/-- All socket calls of `StartAccept`. -/
def startCalls : List StartCall :=
  [.createSocket, .register, .setReuseAddress, .setLinger, .bind, .listen]

/-- The point `ProcessAccept` has reached. -/
inductive ProcessPc where
  | setUpdateAcceptSocket
  | getpeername
  | processConnect
  | connecting
  deriving DecidableEq, Repr

/-- The activation of the listener in a thread: `StartAccept` with the socket calls it has still to
make, `RegisterAccept` before and behind `CreateSession`, or `ProcessAccept`. -/
inductive Frame where
  | startAccept (calls : List StartCall)
  | registerAccept
  | acceptEx (session : ℕ)
  | processAccept (session : ℕ) (pc : ProcessPc)
  deriving DecidableEq, Repr

/-- The service, the listener and its accept event: how many accept events `StartAccept` has made,
the session of the event, how many `AcceptEx` are outstanding, and how many completions `Dispatch`
has dropped. -/
structure State (T : Type*) where
  service : Service.State ℕ T
  frame : T → Option Frame
  started : Bool
  acceptEvents : ℕ
  acceptSession : Option ℕ
  outstanding : ℕ
  lost : ℕ
  created : ℕ
  crash : Bool

/-- What a thread does next: call `StartAccept`, take the completion of the `AcceptEx` from the
port, call `Disconnect`, or go on with its innermost activation. -/
inductive Op where
  | startAccept
  | dispatch (errCode : Option ℕ)
  | disconnect (session : ℕ)
  | next (ok : Bool)
  deriving DecidableEq, Repr

section Model

variable {T : Type*} [DecidableEq T]

def State.setFrame (s : State T) (t : T) (frame : Option Frame) : State T :=
  { s with frame := Function.update s.frame t frame }

/-- The thread is outside the modelled functions. -/
def State.Idle (s : State T) (t : T) : Prop := s.service.stack t = [] ∧ s.frame t = none

instance (s : State T) (t : T) : Decidable (s.Idle t) :=
  inferInstanceAs (Decidable (_ ∧ _))

/-- `Service::CreateSession`, with the result of `IocpCore::Register`; `RegisterAccept` follows the
pointer without a check. -/
def State.createSession (s : State T) (ok : Bool) : State T :=
  if ok then { s with created := s.created + 1, acceptSession := some s.created }
  else { s with created := s.created + 1, acceptSession := none, crash := true }

/-- `Listener::Dispatch`, called by `IocpCore::Dispatch` unless the operation failed with one of the
two codes that it knows. -/
def State.dispatch (s : State T) (t : T) (errCode : Option ℕ) : State T :=
  if errCode = some SessionCalls.waitTimeout ∨ errCode = some SessionCalls.errorConnectionRefused
  then { s with outstanding := s.outstanding - 1, lost := s.lost + 1 }
  else
    match s.acceptSession with
    | none => { s with outstanding := s.outstanding - 1, crash := true }
    | some x =>
        { s with outstanding := s.outstanding - 1 }.setFrame t
          (some (.processAccept x .setUpdateAcceptSocket))

/-- The next step of an activation of the listener. -/
def stepFrame (s : State T) (t : T) (ok : Bool) : Frame → Option (State T)
  | .startAccept (_ :: calls) =>
      some (s.setFrame t (if ok then some (.startAccept calls) else none))
  | .startAccept [] =>
      some ({ s with acceptEvents := s.acceptEvents + 1 }.setFrame t (some .registerAccept))
  | .registerAccept =>
      some ((s.createSession ok).setFrame t (some (if ok then .acceptEx s.created
        else .registerAccept)))
  | .acceptEx _ =>
      some (if ok then { s with outstanding := s.outstanding + 1 }.setFrame t none
        else s.setFrame t (some .registerAccept))
  | .processAccept x .setUpdateAcceptSocket =>
      some (s.setFrame t (some (if ok then .processAccept x .getpeername else .registerAccept)))
  | .processAccept x .getpeername =>
      some (s.setFrame t (some (if ok then .processAccept x .processConnect else .registerAccept)))
  | .processAccept x .processConnect =>
      (Service.step s.service (t, .processConnect x)).map fun service =>
        { s with service := service }.setFrame t (some (.processAccept x .connecting))
  | .processAccept _ .connecting => some (s.setFrame t (some .registerAccept))

/-- One step of thread `a.1`; nothing happens after a crash.  `StartAccept` is called once, and a
session can be reached once it was added to its service. -/
def step (s : State T) (a : T × Op) : Option (State T) :=
  if s.crash then none
  else
    match a.2 with
    | .startAccept =>
        if s.started = false ∧ s.Idle a.1 then
          some ({ s with started := true }.setFrame a.1 (some (.startAccept startCalls)))
        else none
    | .dispatch errCode =>
        if 0 < s.outstanding ∧ s.Idle a.1 then some (s.dispatch a.1 errCode) else none
    | .disconnect x =>
        if (s.service.stack a.1 ≠ [] ∨ s.frame a.1 = none) ∧ 0 < (s.service.session x).adds then
          (Service.step s.service (a.1, .disconnect x)).map fun service =>
            { s with service := service }
        else none
    | .next ok =>
        if s.service.stack a.1 = [] then (s.frame a.1).bind (stepFrame s a.1 ok)
        else
          (Service.step s.service (a.1, .next)).map fun service => { s with service := service }

/-- Nothing was started. -/
def State.initial : State T := ⟨.initial, fun _ => none, false, 0, none, 0, 0, 0, false⟩

/-- The listener with its service. -/
def system (T : Type*) [DecidableEq T] : Transition.System (State T) (T × Op) :=
  ⟨(· = .initial), step⟩

end Model

/-! ## The accept event -/

/-- The activation has the accept event. -/
def Frame.holds : Frame → ℕ
  | .startAccept _ => 0
  | _ => 1

/-- The activation is going to make the accept event. -/
def Frame.starts : Frame → ℕ
  | .startAccept _ => 1
  | _ => 0

/-- The session that waits with the accept event in the hands of an activation. -/
def Frame.waiting : Frame → Option ℕ
  | .acceptEx x => some x
  | .processAccept x .setUpdateAcceptSocket => some x
  | .processAccept x .getpeername => some x
  | .processAccept x .processConnect => some x
  | _ => none

theorem Frame.holds_of_waiting {f : Frame} {x : ℕ} (h : f.waiting = some x) : f.holds = 1 := by
  cases f with
  | startAccept calls => cases h
  | _ => rfl

/-- What an optional activation contributes. -/
def weigh (weight : Frame → ℕ) (frame : Option Frame) : ℕ := (frame.map weight).getD 0

section Invariant

variable {T : Type*} [Fintype T] {s : State T}

/-- The session was made and was not handed to `ProcessConnect`. -/
def State.Unconnected (s : State T) (x : ℕ) : Prop :=
  x < s.created ∧ (s.service.session x).processConnects = 0

/-- The invariant of the listener. -/
structure Inv (s : State T) : Prop where
  service : Service.Inv s.service
  events : s.outstanding + ∑ t, weigh Frame.holds (s.frame t) + s.lost = s.acceptEvents
  once : s.acceptEvents + ∑ t, weigh Frame.starts (s.frame t) ≤ s.started.toNat
  fresh : ∀ x, s.created ≤ x → (s.service.session x).processConnects = 0
  held : ∀ t f x, s.frame t = some f → f.waiting = some x →
    s.acceptSession = some x ∧ s.Unconnected x
  waiting : 0 < s.outstanding → ∃ x, s.acceptSession = some x ∧ s.Unconnected x

theorem inv_initial : Inv (State.initial : State T) where
  service := Service.inv_initial
  events := by simp [State.initial, weigh]
  once := by simp [State.initial, weigh]
  fresh _ _ := rfl
  held t f x h := by cases h
  waiting h := by simp [State.initial] at h

theorem Inv.acceptEvents_le (inv : Inv s) : s.acceptEvents ≤ 1 := by
  have honce := inv.once
  have hstarted := Bool.toNat_le s.started
  omega

theorem Inv.holds_le (inv : Inv s) : ∑ t, weigh Frame.holds (s.frame t) ≤ 1 := by
  have hevents := inv.events
  have hle := inv.acceptEvents_le
  omega

/-- While a thread has the accept event, no `AcceptEx` is outstanding. -/
theorem Inv.outstanding_eq_zero (inv : Inv s) {t : T} {f : Frame} (hframe : s.frame t = some f)
    (hholds : f.holds = 1) : s.outstanding = 0 := by
  have hle := Finset.single_le_sum (f := fun t => weigh Frame.holds (s.frame t))
    (fun _ _ => Nat.zero_le _) (Finset.mem_univ t)
  have hweigh : weigh Frame.holds (s.frame t) = 1 := by rw [hframe]; exact hholds
  have hevents := inv.events
  have hone := inv.acceptEvents_le
  omega

end Invariant

/-! ## Steps -/

section Steps

variable {T : Type*}

theorem stepFrame_processConnects (s : Service.State ℕ T) (f : Service.Frame ℕ) (x : ℕ) :
    ((Service.stepFrame s f).1.session x).processConnects = (s.session x).processConnects := by
  rcases eq_or_ne x f.session with rfl | hne
  · rcases f with ⟨y, pc⟩ | ⟨y, pc⟩ <;> cases pc <;>
      simp only [Service.stepFrame, Service.Frame.session, Service.State.setSession,
        Service.State.addSession, Service.State.releaseSession] <;> try split_ifs
    all_goals simp
  · rw [(Service.stepFrame_others s f hne).1]

variable [DecidableEq T]

/-- Only the begin of a `ProcessConnect` counts as one. -/
theorem processConnects_of_step {s s' : Service.State ℕ T} {t : T} {op : Service.Op ℕ}
    (h : Service.step s (t, op) = some s') (hop : ∀ y, op ≠ .processConnect y) (x : ℕ) :
    (s'.session x).processConnects = (s.session x).processConnects := by
  unfold Service.step at h
  split_ifs at h
  cases op with
  | processConnect y => exact absurd rfl (hop y)
  | disconnect y =>
    simp only [Option.ite_none_right_eq_some, Option.some.injEq] at h
    rw [← h.2]
    rfl
  | next =>
    cases hstack : s.stack t with
    | nil => simp [hstack] at h
    | cons f rest =>
      simp only [hstack, Option.some.injEq] at h
      rw [← h]
      exact stepFrame_processConnects s f x

variable [Fintype T] {s s' : State T} {t : T} {new : Option Frame}

/-- A step of one thread: its activation is replaced, and no other thread has the accept event, or
the session that waits with it is the same. -/
theorem Inv.replace (inv : Inv s) (hservice : Service.Inv s'.service)
    (hframe : s'.frame = Function.update s.frame t new)
    (hevents : s'.outstanding + weigh Frame.holds new + s'.lost + s.acceptEvents =
      s.outstanding + weigh Frame.holds (s.frame t) + s.lost + s'.acceptEvents)
    (honce : s'.acceptEvents + weigh Frame.starts new + s.started.toNat ≤
      s.acceptEvents + weigh Frame.starts (s.frame t) + s'.started.toNat)
    (hfresh : ∀ x, s'.created ≤ x → (s'.service.session x).processConnects = 0)
    (hothers : weigh Frame.holds (s.frame t) = 0 →
      ∀ x, s.acceptSession = some x → s.Unconnected x →
        s'.acceptSession = some x ∧ s'.Unconnected x)
    (hheld : ∀ f x, new = some f → f.waiting = some x →
      s'.acceptSession = some x ∧ s'.Unconnected x)
    (hwaiting : 0 < s'.outstanding → ∃ x, s'.acceptSession = some x ∧ s'.Unconnected x) :
    Inv s' where
  service := hservice
  events := by
    have hsum := Counting.sum_update_add s.frame (weigh Frame.holds) t new
    rw [← hframe] at hsum
    have := inv.events
    omega
  once := by
    have hsum := Counting.sum_update_add s.frame (weigh Frame.starts) t new
    rw [← hframe] at hsum
    have := inv.once
    omega
  fresh := hfresh
  held t' f x hf hx := by
    rw [hframe] at hf
    rcases eq_or_ne t' t with rfl | hne
    · rw [Function.update_self] at hf
      exact hheld f x hf hx
    · rw [Function.update_of_ne hne] at hf
      obtain ⟨hsession, hunconnected⟩ := inv.held t' f x hf hx
      refine hothers ?_ x hsession hunconnected
      by_contra hpos
      -- two threads with the accept event are the same
      have hone : weigh Frame.holds (s.frame t') = 1 := by
        rw [hf]
        exact Frame.holds_of_waiting hx
      exact hne (Counting.eq_of_sum_le_one (fun t => weigh Frame.holds (s.frame t)) inv.holds_le
        (hone.symm ▸ Nat.one_pos) (Nat.pos_of_ne_zero hpos))
  waiting := hwaiting

/-- A step that changes the activation and nothing else that the invariant speaks about. -/
theorem Inv.setFrame (inv : Inv s)
    (hholds : weigh Frame.holds new = weigh Frame.holds (s.frame t))
    (hstarts : weigh Frame.starts new ≤ weigh Frame.starts (s.frame t))
    (hheld : ∀ f x, new = some f → f.waiting = some x →
      s.acceptSession = some x ∧ s.Unconnected x) : Inv (s.setFrame t new) := by
  refine inv.replace inv.service rfl ?_ ?_ inv.fresh (fun _ x hx hu => ⟨hx, hu⟩) hheld inv.waiting
  all_goals
    simp only [State.setFrame]
    omega

/-- A step of the service that is not the begin of a `ProcessConnect`. -/
theorem Inv.serviceStep (inv : Inv s) (op : Service.Op ℕ) {service : Service.State ℕ T}
    (hop : ∀ y, op ≠ .processConnect y) (hok : Service.Introduced s.service (t, op))
    (hstep : Service.step s.service (t, op) = some service) :
    Inv { s with service := service } := by
  have hsame := processConnects_of_step hstep hop
  have hunconnected : ∀ x, s.Unconnected x → State.Unconnected { s with service := service } x :=
    fun x hx => ⟨hx.1, (hsame x).trans hx.2⟩
  refine inv.replace (t := t) (inv.service.step hok hstep)
    (Function.update_eq_self t s.frame).symm rfl (le_refl _) ?_ ?_ ?_ ?_
  · exact fun x hx => (hsame x).trans (inv.fresh x hx)
  · exact fun _ x hx hu => ⟨hx, hunconnected x hu⟩
  · intro f x hf hx
    obtain ⟨hsession, hu⟩ := inv.held t f x hf hx
    exact ⟨hsession, hunconnected x hu⟩
  · intro hpos
    obtain ⟨x, hx, hu⟩ := inv.waiting hpos
    exact ⟨x, hx, hunconnected x hu⟩

theorem Inv.startAccept (inv : Inv s) (hstarted : s.started = false) (hidle : s.Idle t) :
    Inv ({ s with started := true }.setFrame t (some (.startAccept startCalls))) := by
  refine inv.replace inv.service rfl ?_ ?_ inv.fresh (fun _ x hx hu => ⟨hx, hu⟩) ?_ inv.waiting
  · simp [State.setFrame, hidle.2, weigh, Frame.holds]
  · simp [State.setFrame, hidle.2, weigh, Frame.starts, hstarted]
  · rintro f x ⟨⟩ hx
    cases hx

theorem Inv.dispatch (inv : Inv s) (hpos : 0 < s.outstanding) (hidle : s.Idle t)
    (errCode : Option ℕ) : Inv (s.dispatch t errCode) := by
  obtain ⟨x, hx, hu⟩ := inv.waiting hpos
  unfold State.dispatch
  split_ifs
  · have hcount : s.outstanding - 1 + weigh Frame.holds (s.frame t) + (s.lost + 1) +
        s.acceptEvents =
        s.outstanding + weigh Frame.holds (s.frame t) + s.lost + s.acceptEvents := by omega
    exact inv.replace inv.service (Function.update_eq_self t s.frame).symm hcount (le_refl _)
      inv.fresh (fun _ y hy hu => ⟨hy, hu⟩) (inv.held t) fun _ => ⟨x, hx, hu⟩
  · split
    · rename_i hnone
      exact absurd (hnone.symm.trans hx) (by simp)
    · rename_i y hy
      obtain rfl : y = x := Option.some.inj (hy.symm.trans hx)
      refine inv.replace inv.service rfl ?_ ?_ inv.fresh (fun _ z hz hu => ⟨hz, hu⟩) ?_
        fun _ => ⟨y, hx, hu⟩
      · simp only [State.setFrame, hidle.2, weigh, Option.map_some, Option.map_none,
          Option.getD_some, Option.getD_none, Frame.holds]
        omega
      · simp [State.setFrame, hidle.2, weigh, Frame.starts]
      · rintro f z ⟨⟩ hz
        obtain rfl := Option.some.inj hz
        exact ⟨hx, hu⟩

/-- A step of the thread that has the accept event and keeps it. -/
theorem Inv.keep (inv : Inv s) {f f' : Frame} (hframe : s.frame t = some f) (hf : f.holds = 1)
    (hf' : f'.holds = 1) (hservice : Service.Inv s'.service)
    (hframe' : s'.frame = Function.update s.frame t (some f'))
    (hsame : s'.outstanding = s.outstanding ∧ s'.lost = s.lost ∧
      s'.acceptEvents = s.acceptEvents ∧ s'.started = s.started)
    (hfresh : ∀ x, s'.created ≤ x → (s'.service.session x).processConnects = 0)
    (hheld : ∀ x, f'.waiting = some x → s'.acceptSession = some x ∧ s'.Unconnected x) :
    Inv s' := by
  obtain ⟨houtstanding, hlost, hevents, hstarted⟩ := hsame
  have hzero := inv.outstanding_eq_zero hframe hf
  have hholds : weigh Frame.holds (s.frame t) = 1 := by rw [hframe]; exact hf
  have hstarts : f'.starts = 0 := by
    cases f' with
    | startAccept calls => cases hf'
    | _ => rfl
  refine inv.replace hservice hframe' ?_ ?_ hfresh (fun h => ?_) ?_ (fun h => ?_)
  · rw [houtstanding, hlost, hevents, hholds, show weigh Frame.holds (some f') = 1 from hf']
  · rw [hevents, hstarted, show weigh Frame.starts (some f') = 0 from hstarts]
    omega
  · rw [hholds] at h
    cases h
  · rintro g x ⟨⟩ hx
    exact hheld x hx
  · rw [houtstanding, hzero] at h
    exact absurd h (Nat.lt_irrefl 0)

/-- `ProcessAccept` calls `ProcessConnect` on a session for which nobody has called it. -/
theorem Inv.processConnect (inv : Inv s) {x : ℕ} {service : Service.State ℕ T}
    (hframe : s.frame t = some (.processAccept x .processConnect))
    (hstep : Service.step s.service (t, .processConnect x) = some service) :
    Inv ({ s with service := service }.setFrame t (some (.processAccept x .connecting))) := by
  obtain ⟨-, hcreated, hzero⟩ := inv.held t _ x hframe rfl
  have hothers : ∀ y, y ≠ x → service.session y = s.service.session y := by
    intro y hne
    unfold Service.step at hstep
    split_ifs at hstep
    cases hstack : s.service.stack t with
    | cons f rest => simp [hstack] at hstep
    | nil =>
      simp only [hstack, Option.some.injEq] at hstep
      rw [← hstep]
      exact Function.update_of_ne hne _ _
  refine inv.keep hframe rfl rfl (inv.service.step (a := (t, .processConnect x)) hzero hstep) rfl
    ⟨rfl, rfl, rfl, rfl⟩ (fun y hy => ?_) (fun y hy => by cases hy)
  have hne : y ≠ x := (hcreated.trans_le hy).ne'
  show (service.session y).processConnects = 0
  rw [hothers y hne]
  exact inv.fresh y hy

theorem Inv.stepFrame (inv : Inv s) {f : Frame} (hframe : s.frame t = some f) {ok : Bool}
    (hstep : Listener.stepFrame s t ok f = some s') : Inv s' := by
  cases f with
  | startAccept calls =>
    cases calls with
    | cons call calls =>
      obtain rfl := Option.some.inj hstep
      refine inv.setFrame ?_ ?_ ?_
      · rw [hframe]
        cases ok <;> rfl
      · rw [hframe]
        cases ok
        · exact Nat.zero_le _
        · exact le_refl _
      · intro f x hf hx
        cases ok with
        | true =>
          obtain rfl := Option.some.inj hf
          cases hx
        | false => cases hf
    | nil =>
      obtain rfl := Option.some.inj hstep
      refine inv.replace inv.service rfl ?_ ?_ inv.fresh (fun _ x hx hu => ⟨hx, hu⟩) ?_ inv.waiting
      · simp only [State.setFrame, hframe, weigh, Option.map_some, Option.getD_some, Frame.holds]
        omega
      · simp [State.setFrame, hframe, weigh, Frame.starts]
      · rintro f x ⟨⟩ hx
        cases hx
  | registerAccept =>
    obtain rfl := Option.some.inj hstep
    have hfresh : ∀ x, s.created + 1 ≤ x → (s.service.session x).processConnects = 0 :=
      fun x hx => inv.fresh x (Nat.le_of_succ_le hx)
    cases ok with
    | true =>
      refine inv.keep hframe rfl rfl inv.service rfl ⟨rfl, rfl, rfl, rfl⟩ hfresh fun x hx => ?_
      obtain rfl := Option.some.inj hx
      exact ⟨rfl, Nat.lt_succ_self _, inv.fresh _ (le_refl _)⟩
    | false =>
      exact inv.keep hframe rfl rfl inv.service rfl ⟨rfl, rfl, rfl, rfl⟩ hfresh
        fun x hx => by cases hx
  | acceptEx x =>
    obtain rfl := Option.some.inj hstep
    cases ok with
    | true =>
      have hheld := inv.held t _ x hframe rfl
      refine inv.replace inv.service rfl ?_ ?_ inv.fresh (fun _ y hy hu => ⟨hy, hu⟩) ?_
        fun _ => ⟨x, hheld⟩
      · simp [State.setFrame, hframe, weigh, Frame.holds]
      · simp [State.setFrame, hframe, weigh, Frame.starts]
      · intro f y hf
        cases hf
    | false =>
      exact inv.keep hframe rfl rfl inv.service rfl ⟨rfl, rfl, rfl, rfl⟩ inv.fresh
        fun y hy => by cases hy
  | processAccept x pc =>
    cases pc with
    | setUpdateAcceptSocket | getpeername =>
      obtain rfl := Option.some.inj hstep
      have hheld := inv.held t _ x hframe rfl
      cases ok with
      | true =>
        refine inv.keep hframe rfl rfl inv.service rfl ⟨rfl, rfl, rfl, rfl⟩ inv.fresh fun y hy => ?_
        obtain rfl := Option.some.inj hy
        exact hheld
      | false =>
        exact inv.keep hframe rfl rfl inv.service rfl ⟨rfl, rfl, rfl, rfl⟩ inv.fresh
          fun y hy => by cases hy
    | processConnect =>
      obtain ⟨service, hservice, rfl⟩ := Option.map_eq_some_iff.1 hstep
      exact inv.processConnect hframe hservice
    | connecting =>
      obtain rfl := Option.some.inj hstep
      exact inv.keep hframe rfl rfl inv.service rfl ⟨rfl, rfl, rfl, rfl⟩ inv.fresh
        fun y hy => by cases hy

theorem Inv.step {a : T × Op} (inv : Inv s) (hstep : step s a = some s') : Inv s' := by
  obtain ⟨t, op⟩ := a
  obtain ⟨-, hstep⟩ := Option.ite_none_left_eq_some.1 hstep
  cases op with
  | startAccept =>
    obtain ⟨⟨hstarted, hidle⟩, ⟨⟩⟩ := Option.ite_none_right_eq_some.1 hstep
    exact inv.startAccept hstarted hidle
  | dispatch errCode =>
    obtain ⟨⟨hpos, hidle⟩, ⟨⟩⟩ := Option.ite_none_right_eq_some.1 hstep
    exact inv.dispatch hpos hidle errCode
  | disconnect x =>
    obtain ⟨⟨-, hadds⟩, hmap⟩ := Option.ite_none_right_eq_some.1 hstep
    obtain ⟨service, hservice, rfl⟩ := Option.map_eq_some_iff.1 hmap
    exact inv.serviceStep (.disconnect x) (fun y h => by cases h) hadds hservice
  | next ok =>
    simp only at hstep
    split_ifs at hstep
    · obtain ⟨f, hframe, hnext⟩ := Option.bind_eq_some_iff.1 hstep
      exact inv.stepFrame hframe hnext
    · obtain ⟨service, hservice, rfl⟩ := Option.map_eq_some_iff.1 hstep
      exact inv.serviceStep .next (fun y h => by cases h) trivial hservice

theorem inv_of_reachable (h : (system T).Reachable s) : Inv s := by
  refine h.invariant ?_ fun s a s' inv hstep => inv.step hstep
  rintro s rfl
  exact inv_initial

end Steps

/-! ## The accept loop -/

section Loop

variable {T : Type*} [DecidableEq T] [Fintype T] {s : State T}

/-- The thread is inside `ProcessAccept` or `RegisterAccept`. -/
def State.Accepts (s : State T) (t : T) : Prop := ∃ f, s.frame t = some f ∧ f.holds = 1

theorem weigh_holds_eq (frame : Option Frame) :
    weigh Frame.holds frame = 1 ∧ (∃ f, frame = some f ∧ f.holds = 1) ∨
      weigh Frame.holds frame = 0 ∧ ¬ ∃ f, frame = some f ∧ f.holds = 1 := by
  cases frame with
  | none => exact .inr ⟨rfl, by simp⟩
  | some f =>
    cases f with
    | startAccept calls => exact .inr ⟨rfl, by simp [Frame.holds]⟩
    | _ => exact .inl ⟨rfl, _, rfl, rfl⟩

/-- The accept event of a listener that has made one is outstanding with an `AcceptEx`, or with one
thread, or the completion was dropped; the session that waits with an outstanding `AcceptEx` was
never connected. -/
structure Accepting (s : State T) : Prop where
  outstanding_le : s.outstanding ≤ 1
  not_both : 0 < s.outstanding → ∀ t, ¬ s.Accepts t
  one_thread : ∀ t t', s.Accepts t → s.Accepts t' → t = t'
  goes_on : s.acceptEvents = 1 → s.lost = 0 → s.outstanding = 1 ∨ ∃ t, s.Accepts t
  unconnected : 0 < s.outstanding →
    ∃ x, s.acceptSession = some x ∧ (s.service.session x).processConnects = 0

theorem Inv.accepting (inv : Inv s) : Accepting s where
  outstanding_le := by
    have hevents := inv.events
    have hle := inv.acceptEvents_le
    omega
  not_both hpos t := by
    rintro ⟨f, hframe, hholds⟩
    exact absurd (inv.outstanding_eq_zero hframe hholds) (Nat.pos_iff_ne_zero.1 hpos)
  one_thread t t' := by
    rintro ⟨f, hframe, hholds⟩ ⟨f', hframe', hholds'⟩
    refine Counting.eq_of_sum_le_one (fun t => weigh Frame.holds (s.frame t)) inv.holds_le ?_ ?_
    all_goals simp [weigh, hframe, hframe', hholds, hholds']
  goes_on hone hlost := by
    by_contra hnone
    rw [not_or, not_exists] at hnone
    have hzero : ∑ t, weigh Frame.holds (s.frame t) = 0 := by
      refine Finset.sum_eq_zero fun t _ => ?_
      rcases weigh_holds_eq (s.frame t) with ⟨-, h⟩ | ⟨h, -⟩
      · exact absurd h (hnone.2 t)
      · exact h
    have hevents := inv.events
    omega
  unconnected hpos := by
    obtain ⟨x, hx, -, hzero⟩ := inv.waiting hpos
    exact ⟨x, hx, hzero⟩

end Loop

end Listener

end DhNet
