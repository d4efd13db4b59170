import Mathlib.Data.Fintype.Basic
import Mathlib.Data.List.Chain
import DhNet.Core.ServiceLocks

/-!
# When the locks of a service and its sessions deadlock

The call stacks say which locks a thread holds (`depth`) and who may have called whom (`Chained`).
Under the lock of the service, only `BroadCast` waits for the lock of a session; under the lock of a
session, only `HandleError` in `RegisterSend` leads to a function that waits for the lock of the
service.

* `Goes`: what the step of an activation does to the locks and to the stack.
* `Inv`: the locks are held by the activations that took them, and no thread broadcasts while
  another one handles a reset under the lock of a session.
* `no_deadlock`: then the two never wait for each other.
-/

namespace DhNet

namespace ServiceLocks

variable {S T : Type*}

/-! ## Activations -/

/-- The functions. -/
inductive Function where
  | processConnect
  | broadCast
  | send
  | processSend
  | registerSend
  | disconnect
  deriving DecidableEq

/-- The function of an activation. -/
def Frame.function : Frame S → Function
  | .processConnect _ _ => .processConnect
  | .broadCast _ => .broadCast
  | .send _ _ => .send
  | .processSend _ _ _ => .processSend
  | .registerSend _ _ => .registerSend
  | .disconnect _ _ => .disconnect

/-- The functions that an override may call. -/
def Function.isPublic : Function → Bool
  | .broadCast => true
  | .send => true
  | .disconnect => true
  | _ => false

/-- The activation has called the function and waits for its return. -/
def Frame.calls : Frame S → Function → Bool
  | .processConnect _ .onConnected, g => g.isPublic
  | .processSend _ _ .onSend, g => g.isPublic
  | .disconnect _ .onDisconnected, g => g.isPublic
  | .processConnect _ .leave, g => g = .disconnect
  | .processSend _ _ .leave, g => g = .disconnect
  | .registerSend _ .handleError, g => g = .disconnect
  | .broadCast (.loop _), g => g = .send
  | .send _ .unlock, g => g = .registerSend
  | .processSend _ _ .unlock, g => g = .registerSend
  | _, _ => false

/-- The lock that the activation itself holds. -/
def Frame.holds : Frame S → Option (LockId S)
  | .processConnect _ .insert => some .service
  | .processConnect _ .unlock => some .service
  | .broadCast (.loop _) => some .service
  | .broadCast .unlock => some .service
  | .disconnect _ .erase => some .service
  | .disconnect _ .unlock => some .service
  | .send x .push => some (.session x)
  | .send x .exchange => some (.session x)
  | .send x .unlock => some (.session x)
  | .processSend x _ .test => some (.session x)
  | .processSend x _ .unlock => some (.session x)
  | .registerSend x .move => some (.session x)
  | .registerSend x .unlock => some (.session x)
  | _ => none

/-- `HandleError` was called under the lock of a session. -/
def Frame.handlesError : Frame S → Bool
  | .registerSend _ .handleError => true
  | _ => false

/-- A thread handles an error under the lock of a session. -/
def handlingError (stack : List (Frame S)) : Bool := stack.any Frame.handlesError

/-- A thread is in a call of `BroadCast`. -/
def broadCasting (stack : List (Frame S)) : Bool := stack.any (·.function = .broadCast)

/-- `WSASend` is the next call. -/
def atWsaSend : List (Frame S) → Bool
  | .registerSend _ .wsaSend :: _ => true
  | _ => false

theorem handlingError_cons (f : Frame S) (rest : List (Frame S)) :
    handlingError (f :: rest) = (f.handlesError || handlingError rest) := rfl

theorem broadCasting_cons (f : Frame S) (rest : List (Frame S)) :
    broadCasting (f :: rest) = (decide (f.function = .broadCast) || broadCasting rest) := rfl

/-- Each activation was called by the one below. -/
def Chained (stack : List (Frame S)) : Prop :=
  stack.IsChain fun callee caller => caller.calls callee.function = true

theorem Chained.tail {f : Frame S} {rest : List (Frame S)} (h : Chained (f :: rest)) :
    Chained rest :=
  List.IsChain.tail h

theorem Chained.replace {f f' : Frame S} {rest : List (Frame S)} (h : Chained (f :: rest))
    (hf : f'.function = f.function) : Chained (f' :: rest) := by
  cases rest with
  | nil => exact List.isChain_singleton _
  | cons g rest =>
    obtain ⟨hg, hrest⟩ := List.isChain_cons_cons.1 h
    exact List.isChain_cons_cons.2 ⟨by rwa [hf], hrest⟩

theorem Chained.push {f g : Frame S} {rest : List (Frame S)} (h : Chained (g :: rest))
    (hcall : g.calls f.function = true) : Chained (f :: g :: rest) :=
  List.isChain_cons_cons.2 ⟨hcall, h⟩

/-- Below the innermost activation every activation has called the one above it. -/
theorem Chained.calls_of_mem {f g : Frame S} {rest : List (Frame S)} (h : Chained (f :: rest))
    (hg : g ∈ rest) : ∃ f' ∈ f :: rest, g.calls f'.function = true := by
  induction rest generalizing f with
  | nil => cases hg
  | cons b rest ih =>
    obtain ⟨hb, hrest⟩ := List.isChain_cons_cons.1 h
    rcases List.mem_cons.1 hg with rfl | hg
    · exact ⟨f, List.mem_cons_self, hb⟩
    · obtain ⟨f', hf', hcall⟩ := ih hrest hg
      exact ⟨f', List.mem_cons_of_mem f hf', hcall⟩

/-- A function that an override may call is called by an activation that waits for it. -/
theorem Chained.call {f : Frame S} {stack : List (Frame S)} (h : Chained stack)
    (hmay : mayCall stack = true) (hpublic : f.function.isPublic = true) :
    Chained (f :: stack) := by
  unfold mayCall at hmay
  split at hmay
  · exact List.isChain_singleton f
  · exact h.push hpublic
  · exact h.push hpublic
  · exact h.push hpublic
  · cases hmay

/-- What is known of a function that is called. -/
theorem called_spec [DecidableEq S] {s : State S T} {t : T} {op : Op S} {f : Frame S}
    (hchain : Chained (s.stack t)) (h : s.called t op = some f) :
    f.holds = none ∧ f.handlesError = false ∧ (f.function = .broadCast → op = .broadCast) ∧
      Chained (f :: s.stack t) := by
  cases op with
  | processConnect x =>
    obtain ⟨hnil, rfl⟩ : s.stack t = [] ∧ .processConnect x .store = f := by
      simpa [State.called] using h
    rw [hnil]
    exact ⟨rfl, rfl, nofun, List.isChain_singleton _⟩
  | processSend x numOfBytes =>
    obtain ⟨⟨hnil, -⟩, rfl⟩ : (s.stack t = [] ∧ (s.session x).sendsOutstanding ≠ 0) ∧
        .processSend x numOfBytes .checkBytes = f := by
      simpa [State.called] using h
    rw [hnil]
    exact ⟨rfl, rfl, nofun, List.isChain_singleton _⟩
  | send x =>
    obtain ⟨hmay, rfl⟩ : mayCall (s.stack t) = true ∧ .send x .lock = f := by
      simpa [State.called] using h
    exact ⟨rfl, rfl, nofun, hchain.call hmay rfl⟩
  | disconnect x =>
    obtain ⟨hmay, rfl⟩ : mayCall (s.stack t) = true ∧ .disconnect x .exchange = f := by
      simpa [State.called] using h
    exact ⟨rfl, rfl, nofun, hchain.call hmay rfl⟩
  | broadCast =>
    obtain ⟨hmay, rfl⟩ : mayCall (s.stack t) = true ∧ .broadCast .lock = f := by
      simpa [State.called] using h
    exact ⟨rfl, rfl, fun _ => rfl, hchain.call hmay rfl⟩
  | next result => cases h

section Frames

variable {f : Frame S}

theorem Frame.holds_of_wants {l : LockId S} (h : f.wants = some l) : f.holds = none := by
  unfold Frame.wants at h
  split at h
  case h_7 => cases h
  all_goals rfl

theorem Frame.function_of_wants_service (h : f.wants = some .service) :
    f.function ≠ .registerSend := by
  unfold Frame.wants at h
  split at h
  case h_1 | h_2 | h_3 => simp [Frame.function]
  all_goals cases h

/-- Of the activations that hold the lock of the service, `BroadCast` alone calls a function. -/
theorem Frame.broadCast_of_calls {g : Function} (hholds : f.holds = some .service)
    (hcalls : f.calls g = true) : f.function = .broadCast := by
  unfold Frame.calls at hcalls
  split at hcalls <;> first | rfl | cases hholds | cases hcalls

/-- The activations that hold the lock of a session call `RegisterSend`. -/
theorem Frame.registerSend_of_calls {g : Function} {x : S} (hholds : f.holds = some (.session x))
    (hcalls : f.calls g = true) : g = .registerSend := by
  unfold Frame.calls at hcalls
  split at hcalls <;> first | exact of_decide_eq_true hcalls | cases hholds | cases hcalls

/-- `RegisterSend` calls `Disconnect` to handle an error. -/
theorem Frame.handlesError_of_calls {g : Function} (hf : f.function = .registerSend)
    (hcalls : f.calls g = true) : f.handlesError = true := by
  unfold Frame.calls at hcalls
  split at hcalls <;> first | rfl | cases hf | cases hcalls

end Frames

section Model

variable [DecidableEq S] [DecidableEq T] {s s' : State S T} {t : T} {result : WsaResult}
  {f : Frame S} {new rest : List (Frame S)}

/-- How often the activations of a stack hold a lock. -/
def depth (l : LockId S) (stack : List (Frame S)) : ℕ := stack.countP fun f => f.holds = some l

theorem depth_cons (l : LockId S) (f : Frame S) (rest : List (Frame S)) :
    depth l (f :: rest) = depth l rest + if f.holds = some l then 1 else 0 := by
  simp [depth, List.countP_cons]

@[simp] theorem depth_nil (l : LockId S) : depth l ([] : List (Frame S)) = 0 := rfl

theorem depth_append (l : LockId S) (stack rest : List (Frame S)) :
    depth l (stack ++ rest) = depth l stack + depth l rest :=
  List.countP_append

/-- How an activation goes on. -/
inductive Goes (s : State S T) (t : T) (result : WsaResult) (f : Frame S) :
    State S T → List (Frame S) → Prop
  /-- It takes a lock. -/
  | acquire {l : LockId S} {f' : Frame S} {s' : State S T} (hs : s.acquire t l = some s')
      (holds : f.holds = none) (holds' : f'.holds = some l) (hf : f'.function = f.function)
      (herror : f'.handlesError = false) : Goes s t result f s' [f']
  /-- It gives a lock back and goes on. -/
  | release {l : LockId S} {f' : Frame S} (holds : f.holds = some l) (holds' : f'.holds = none)
      (hf : f'.function = f.function) (herror : f'.handlesError = false) :
      Goes s t result f (s.release l) [f']
  /-- It gives a lock back and returns. -/
  | releaseReturn {l : LockId S} (holds : f.holds = some l) : Goes s t result f (s.release l) []
  /-- It returns. -/
  | leave {s' : State S T} (hlock : s'.lock = s.lock) (hstack : s'.stack = s.stack)
      (holds : f.holds = none) : Goes s t result f s' []
  /-- It reaches another point. -/
  | move {s' : State S T} {f' : Frame S} (hlock : s'.lock = s.lock) (hstack : s'.stack = s.stack)
      (holds : f'.holds = f.holds) (hf : f'.function = f.function)
      (herror : f'.handlesError = false) : Goes s t result f s' [f']
  /-- It calls a function. -/
  | call {s' : State S T} {callee f' : Frame S} (hlock : s'.lock = s.lock)
      (hstack : s'.stack = s.stack) (holds : f'.holds = f.holds) (hf : f'.function = f.function)
      (hcallee : callee.holds = none) (hcall : f'.calls callee.function = true)
      (hbroadCast : callee.function ≠ .broadCast) (herror : callee.handlesError = false)
      (hfatal : f'.handlesError = true → isFatal result = true ∧ ∀ rest, atWsaSend (f :: rest)) :
      Goes s t result f s' [callee, f']

theorem Goes.of_some {s₁ : State S T} {new₁ : List (Frame S)}
    (h : some (s₁, new₁) = some (s', new)) (goes : Goes s t result f s₁ new₁) :
    Goes s t result f s' new := by
  obtain ⟨rfl, rfl⟩ := Prod.mk.inj (Option.some.inj h)
  exact goes

theorem Goes.of_acquire {l : LockId S} {f' : Frame S}
    (h : (s.acquire t l).map (fun s => (s, [f'])) = some (s', new)) (holds : f.holds = none)
    (holds' : f'.holds = some l) (hf : f'.function = f.function)
    (herror : f'.handlesError = false) : Goes s t result f s' new := by
  obtain ⟨s₁, hs₁, he⟩ := Option.map_eq_some_iff.1 h
  obtain ⟨rfl, rfl⟩ := Prod.mk.inj he
  exact .acquire hs₁ holds holds' hf herror

theorem stepFrame_goes (h : stepFrame s t result f = some (s', new)) :
    Goes s t result f s' new := by
  cases f with
  | processConnect x pc =>
    cases pc with
    | store => exact .of_some h (.move rfl rfl rfl rfl rfl)
    | lock => exact .of_acquire h rfl rfl rfl rfl
    | insert => exact .of_some h (.move rfl rfl rfl rfl rfl)
    | unlock => exact .of_some h (.release rfl rfl rfl rfl)
    | onConnected => exact .of_some h (.move rfl rfl rfl rfl rfl)
    | registerRecv =>
      simp only [stepFrame] at h
      split_ifs at h
      · exact .of_some h (.call rfl rfl rfl rfl rfl rfl nofun rfl nofun)
      · exact .of_some h (.move rfl rfl rfl rfl rfl)
    | leave => exact .of_some h (.leave rfl rfl rfl)
  | broadCast pc =>
    cases pc with
    | lock => exact .of_acquire h rfl rfl rfl rfl
    | loop rest =>
      cases rest with
      | nil => exact .of_some h (.move rfl rfl rfl rfl rfl)
      | cons x rest => exact .of_some h (.call rfl rfl rfl rfl rfl rfl nofun rfl nofun)
    | unlock => exact .of_some h (.releaseReturn rfl)
  | send x pc =>
    cases pc with
    | lock => exact .of_acquire h rfl rfl rfl rfl
    | push => exact .of_some h (.move rfl rfl rfl rfl rfl)
    | exchange =>
      simp only [stepFrame] at h
      split_ifs at h
      · exact .of_some h (.move rfl rfl rfl rfl rfl)
      · exact .of_some h (.call rfl rfl rfl rfl rfl rfl nofun rfl nofun)
    | unlock => exact .of_some h (.releaseReturn rfl)
  | processSend x numOfBytes pc =>
    cases pc with
    | checkBytes =>
      simp only [stepFrame] at h
      split_ifs at h
      · exact .of_some h (.call rfl rfl rfl rfl rfl rfl nofun rfl nofun)
      · exact .of_some h (.move rfl rfl rfl rfl rfl)
    | onSend => exact .of_some h (.move rfl rfl rfl rfl rfl)
    | lock => exact .of_acquire h rfl rfl rfl rfl
    | test =>
      simp only [stepFrame] at h
      split_ifs at h
      · exact .of_some h (.move rfl rfl rfl rfl rfl)
      · exact .of_some h (.call rfl rfl rfl rfl rfl rfl nofun rfl nofun)
    | unlock => exact .of_some h (.releaseReturn rfl)
    | leave => exact .of_some h (.leave rfl rfl rfl)
  | registerSend x pc =>
    cases pc with
    | isConnected =>
      simp only [stepFrame] at h
      split_ifs at h
      · exact .of_some h (.move rfl rfl rfl rfl rfl)
      · exact .of_some h (.leave rfl rfl rfl)
    | lock => exact .of_acquire h rfl rfl rfl rfl
    | move => exact .of_some h (.move rfl rfl rfl rfl rfl)
    | unlock => exact .of_some h (.release rfl rfl rfl rfl)
    | wsaSend =>
      cases result with
      | success => exact .of_some h (.leave rfl rfl rfl)
      | pending => exact .of_some h (.leave rfl rfl rfl)
      | error code =>
        simp only [stepFrame] at h
        split_ifs at h with hfatal
        · exact .of_some h (.call rfl rfl rfl rfl rfl rfl nofun rfl fun _ => ⟨hfatal, fun _ => rfl⟩)
        · exact .of_some h (.move rfl rfl rfl rfl rfl)
    | handleError => exact .of_some h (.move rfl rfl rfl rfl rfl)
    | store => exact .of_some h (.leave rfl rfl rfl)
  | disconnect x pc =>
    cases pc with
    | exchange =>
      simp only [stepFrame] at h
      split_ifs at h
      · exact .of_some h (.move rfl rfl rfl rfl rfl)
      · exact .of_some h (.leave rfl rfl rfl)
    | onDisconnected => exact .of_some h (.move rfl rfl rfl rfl rfl)
    | lock => exact .of_acquire h rfl rfl rfl rfl
    | erase =>
      simp only [stepFrame] at h
      split_ifs at h
      · exact .of_some h (.move rfl rfl rfl rfl rfl)
      · exact .of_some h (.move rfl rfl rfl rfl rfl)
    | unlock => exact .of_some h (.release rfl rfl rfl rfl)
    | registerDisconnect => exact .of_some h (.leave rfl rfl rfl)

theorem Goes.stack (goes : Goes s t result f s' new) : s'.stack = s.stack := by
  cases goes with
  | acquire hs =>
    obtain ⟨lock, -, rfl⟩ := Option.map_eq_some_iff.1 hs
    rfl
  | release => rfl
  | releaseReturn => rfl
  | leave _ hstack => exact hstack
  | move _ hstack => exact hstack
  | call _ hstack => exact hstack

theorem Goes.chained (goes : Goes s t result f s' new) (h : Chained (f :: rest)) :
    Chained (new ++ rest) := by
  cases goes with
  | acquire _ _ _ hf => exact h.replace hf
  | release _ _ hf => exact h.replace hf
  | releaseReturn => exact h.tail
  | leave => exact h.tail
  | move _ _ _ hf => exact h.replace hf
  | call _ _ _ hf _ hcall => exact (h.replace hf).push hcall

/-- No activation of `BroadCast` appears. -/
theorem Goes.broadCasting (goes : Goes s t result f s' new)
    (h : broadCasting (f :: rest) = false) : broadCasting (new ++ rest) = false := by
  simp only [ServiceLocks.broadCasting, List.any_cons, Bool.or_eq_false_iff,
    decide_eq_false_iff_not] at h
  cases goes with
  | acquire _ _ _ hf => simpa [ServiceLocks.broadCasting, hf] using h
  | release _ _ hf => simpa [ServiceLocks.broadCasting, hf] using h
  | releaseReturn => simpa [ServiceLocks.broadCasting] using h.2
  | leave => simpa [ServiceLocks.broadCasting] using h.2
  | move _ _ _ hf => simpa [ServiceLocks.broadCasting, hf] using h
  | call _ _ _ hf _ _ hcallee => simpa [ServiceLocks.broadCasting, hf, hcallee] using h

/-- The handling of an error begins at a `WSASend` that found the connection reset. -/
theorem Goes.handlingError (goes : Goes s t result f s' new)
    (h : handlingError (f :: rest) = false) (h' : handlingError (new ++ rest) = true) :
    isFatal result = true ∧ atWsaSend (f :: rest) = true := by
  simp only [ServiceLocks.handlingError, List.any_cons, Bool.or_eq_false_iff] at h
  cases goes with
  | acquire _ _ _ _ herror => simp [ServiceLocks.handlingError, herror, h.2] at h'
  | release _ _ _ herror => simp [ServiceLocks.handlingError, herror, h.2] at h'
  | releaseReturn => simp [ServiceLocks.handlingError, h.2] at h'
  | leave => simp [ServiceLocks.handlingError, h.2] at h'
  | move _ _ _ _ herror => simp [ServiceLocks.handlingError, herror, h.2] at h'
  | call _ _ _ _ _ _ _ herror hfatal =>
    simp only [ServiceLocks.handlingError, List.cons_append, List.nil_append, List.any_cons, herror,
      h.2, Bool.false_or, Bool.or_false] at h'
    exact ⟨(hfatal h').1, (hfatal h').2 rest⟩

/-- A lock is taken and given back together with the activation that holds it. -/
theorem Goes.times (goes : Goes s t result f s' new)
    (hheld : ∀ l, f.holds = some l → 0 < (s.lock l).times t) (l : LockId S) (u : T) :
    (s'.lock l).times u + (if u = t then depth l [f] else 0) =
      (s.lock l).times u + if u = t then depth l new else 0 := by
  have hrelease : ∀ l', f.holds = some l' →
      ((s.release l').lock l).times u + (if u = t then depth l [f] else 0) =
        (s.lock l).times u := by
    intro l' holds
    by_cases hl : l = l'
    · subst hl
      have hpos := hheld l holds
      have htimes := RecursiveLock.times_release hpos u
      simp only [State.release, Function.update_self, htimes, depth_cons, holds, depth_nil, if_true,
        Nat.zero_add]
      by_cases hu : u = t
      · subst hu
        simp only [if_true]
        omega
      · simp [hu]
    · have hne : ¬ l' = l := fun e => hl e.symm
      simp [State.release, Function.update_of_ne hl, depth_cons, holds, hne]
  have hsingle : ∀ f' : Frame S, f'.holds = f.holds → depth l [f'] = depth l [f] := by
    intro f' holds
    simp [depth_cons, holds]
  have hnone : ∀ f' : Frame S, f'.holds = none → depth l [f'] = 0 := by
    intro f' holds
    simp [depth_cons, holds]
  cases goes with
  | @acquire l' _ _ hs holds holds' =>
    obtain ⟨lock, hlock, rfl⟩ := Option.map_eq_some_iff.1 hs
    rw [hnone f holds]
    by_cases hl : l = l'
    · subst hl
      have htimes := RecursiveLock.times_acquire hlock u
      simp [Function.update_self, htimes, depth_cons, holds']
    · simp [Function.update_of_ne hl, depth_cons, holds', Ne.symm hl]
  | release holds holds' =>
    rw [hnone _ holds', hrelease _ holds]
    simp
  | releaseReturn holds =>
    rw [hrelease _ holds]
    simp
  | leave hlock _ holds =>
    rw [hnone f holds, hlock]
    simp
  | move hlock _ holds => rw [hsingle _ holds, hlock]
  | call hlock _ holds _ hcallee =>
    rw [hlock, ← hsingle _ holds, depth_cons l _ [_], hcallee]
    simp

/-! ## The invariant -/

/-- No thread broadcasts while another one handles an error. -/
structure Inv (s : State S T) : Prop where
  locks : ∀ l t, depth l (s.stack t) = (s.lock l).times t
  chain : ∀ t, Chained (s.stack t)
  apart : ∀ t t', t ≠ t' → broadCasting (s.stack t) = true → handlingError (s.stack t') = false

/-- No `WSASend` finds a connection reset while another thread broadcasts, and no `BroadCast` begins
while another thread handles such an error. -/
def Apart (s : State S T) (a : T × Op S) : Prop :=
  match a.2 with
  | .broadCast => ∀ t, t ≠ a.1 → handlingError (s.stack t) = false
  | .next result => isFatal result = true → atWsaSend (s.stack a.1) = true →
      ∀ t, t ≠ a.1 → broadCasting (s.stack t) = false
  | _ => True

/-- The stack of one thread changes. -/
theorem Inv.update {stack : List (Frame S)} (inv : Inv s)
    (hstack : s'.stack = Function.update s.stack t stack)
    (hlocks : ∀ l, depth l stack = (s'.lock l).times t)
    (hothers : ∀ l u, u ≠ t → (s'.lock l).times u = (s.lock l).times u)
    (hchain : Chained stack)
    (hbroadCast : broadCasting (s.stack t) = false → broadCasting stack = true →
      ∀ u, u ≠ t → handlingError (s.stack u) = false)
    (herror : handlingError (s.stack t) = false → handlingError stack = true →
      ∀ u, u ≠ t → broadCasting (s.stack u) = false) : Inv s' := by
  have hself : s'.stack t = stack := by rw [hstack, Function.update_self]
  have hother : ∀ u, u ≠ t → s'.stack u = s.stack u :=
    fun u hu => by rw [hstack, Function.update_of_ne hu]
  refine ⟨fun l u => ?_, fun u => ?_, fun u u' hne hu => ?_⟩
  · by_cases h : u = t
    · subst h
      rw [hself, hlocks]
    · rw [hother u h, hothers l u h, inv.locks]
  · by_cases h : u = t
    · subst h
      rw [hself]
      exact hchain
    · rw [hother u h]
      exact inv.chain u
  · by_cases h : u = t
    · subst h
      rw [hself] at hu
      rw [hother u' hne.symm]
      cases hold : broadCasting (s.stack u) with
      | true => exact inv.apart u u' hne hold
      | false => exact hbroadCast hold hu u' hne.symm
    · rw [hother u h] at hu
      by_cases h' : u' = t
      · subst h'
        rw [hself]
        by_contra herr
        rw [Bool.not_eq_false] at herr
        rw [herror (inv.apart u u' hne hu) herr u hne] at hu
        cases hu
      · rw [hother u' h']
        exact inv.apart u u' hne hu

theorem Inv.call {op : Op S} (inv : Inv s) (happart : Apart s (t, op))
    (h : s.called t op = some f) : Inv ((s.takeUp op).setStack t (f :: s.stack t)) := by
  obtain ⟨hholds, herror, hbroadCast, hchain⟩ := called_spec (inv.chain t) h
  have hkeep : (s.takeUp op).lock = s.lock ∧ (s.takeUp op).stack = s.stack := by
    cases op <;> exact ⟨rfl, rfl⟩
  refine inv.update (s := s) (t := t) ?_ (fun l => ?_) (fun l u _ => ?_) hchain ?_ ?_
  · simp only [State.setStack, hkeep.2]
  · simp only [State.setStack, hkeep.1, depth_cons, hholds, inv.locks, reduceCtorEq, if_false,
      Nat.add_zero]
  · simp only [State.setStack, hkeep.1]
  · intro hold hnew
    rw [broadCasting_cons, hold, Bool.or_false, decide_eq_true_iff] at hnew
    obtain rfl := hbroadCast hnew
    exact happart
  · intro hold hnew
    rw [handlingError_cons, hold, herror] at hnew
    cases hnew

theorem Inv.next (inv : Inv s) (happart : Apart s (t, .next result))
    (hstack : s.stack t = f :: rest) (goes : Goes s t result f s' new) :
    Inv (s'.setStack t (new ++ rest)) := by
  have hlocks := inv.locks
  have hheld : ∀ l, f.holds = some l → 0 < (s.lock l).times t := by
    intro l holds
    rw [← inv.locks, hstack, depth_cons, if_pos holds]
    exact Nat.succ_pos _
  refine inv.update (s := s) (t := t) ?_ (fun l => ?_) (fun l u hu => ?_)
    (goes.chained (hstack ▸ inv.chain t)) ?_ ?_
  · simp only [State.setStack, goes.stack]
  · have htimes := goes.times hheld l t
    have hold := inv.locks l t
    rw [hstack, depth_cons] at hold
    simp only [if_true, depth_cons l f [], depth_nil, Nat.zero_add] at htimes
    simp only [State.setStack, depth_append]
    omega
  · have htimes := goes.times hheld l u
    simp only [hu, if_false, Nat.add_zero] at htimes
    exact htimes
  · intro hold hnew
    rw [hstack] at hold
    rw [goes.broadCasting hold] at hnew
    cases hnew
  · intro hold hnew
    rw [hstack] at hold
    obtain ⟨hfatal, hat⟩ := goes.handlingError hold hnew
    exact happart hfatal (hstack ▸ hat)

theorem inv_initial : Inv (State.initial : State S T) :=
  ⟨fun _ _ => rfl, fun _ => List.isChain_nil, nofun⟩

theorem Inv.step {a : T × Op S} (inv : Inv s) (happart : Apart s a) (h : step s a = some s') :
    Inv s' := by
  obtain ⟨t, op⟩ := a
  unfold ServiceLocks.step at h
  split_ifs at h
  cases op with
  | next result =>
    cases hstack : s.stack t with
    | nil => simp [hstack] at h
    | cons f rest =>
      simp only [hstack] at h
      obtain ⟨⟨s₁, new⟩, hgoes, rfl⟩ := Option.map_eq_some_iff.1 h
      exact inv.next happart hstack (stepFrame_goes hgoes)
  | _ =>
    obtain ⟨f, hf, rfl⟩ := Option.map_eq_some_iff.1 h
    exact inv.call happart hf

theorem inv_of_reach (h : (system S T).Reach Apart s) : Inv s := by
  refine Transition.System.Reach.invariant ?_ ?_ h
  · rintro _ rfl
    exact inv_initial
  · exact fun s a s' _ inv happart hstep => inv.step happart hstep

/-! ## Waiting for each other -/

/-- A thread that holds a lock has an activation that took it. -/
theorem Inv.exists_holds (inv : Inv s) {l : LockId S} (h : s.Holds t l) :
    ∃ f ∈ s.stack t, f.holds = some l := by
  have hpos : 0 < depth l (s.stack t) := by
    rw [inv.locks]
    exact h
  obtain ⟨f, hf, hholds⟩ := List.countP_pos_iff.1 hpos
  exact ⟨f, hf, of_decide_eq_true hholds⟩

/-- Under the lock of the service, only `BroadCast` waits for the lock of a session. -/
theorem Inv.broadCasting_of_waits {x : S} (inv : Inv s) (hholds : s.Holds t .service)
    (hstack : s.stack t = f :: rest) (hwants : f.wants = some (.session x)) :
    broadCasting (s.stack t) = true := by
  obtain ⟨g, hg, hservice⟩ := inv.exists_holds hholds
  have hchain := inv.chain t
  rw [hstack] at hg hchain ⊢
  have hrest : g ∈ rest := by
    refine (List.mem_cons.1 hg).resolve_left ?_
    rintro rfl
    rw [Frame.holds_of_wants hwants] at hservice
    cases hservice
  obtain ⟨f', -, hcall⟩ := hchain.calls_of_mem hrest
  exact List.any_eq_true.2 ⟨g, hg, decide_eq_true (Frame.broadCast_of_calls hservice hcall)⟩

/-- Under the lock of a session, only the handling of an error waits for the lock of the service. -/
theorem Inv.handlingError_of_waits {x : S} (inv : Inv s) (hholds : s.Holds t (.session x))
    (hstack : s.stack t = f :: rest) (hwants : f.wants = some .service) :
    handlingError (s.stack t) = true := by
  obtain ⟨g, hg, hsession⟩ := inv.exists_holds hholds
  have hchain := inv.chain t
  rw [hstack] at hg hchain ⊢
  have hrest : g ∈ rest := by
    refine (List.mem_cons.1 hg).resolve_left ?_
    rintro rfl
    rw [Frame.holds_of_wants hwants] at hsession
    cases hsession
  obtain ⟨f', hf', hcall⟩ := hchain.calls_of_mem hrest
  have hregister := Frame.registerSend_of_calls hsession hcall
  have hrest' : f' ∈ rest := by
    refine (List.mem_cons.1 hf').resolve_left ?_
    rintro rfl
    exact Frame.function_of_wants_service hwants hregister
  obtain ⟨f'', -, hcall'⟩ := hchain.calls_of_mem hrest'
  exact List.any_eq_true.2 ⟨f', hf', Frame.handlesError_of_calls hregister hcall'⟩

/-- The lock of the service and the locks of the sessions do not deadlock, as long as no connection
is found reset under the lock of a session while another thread broadcasts. -/
theorem no_deadlock (h : (system S T).Reach Apart s) : ¬ s.Deadlock := by
  rintro ⟨t, t', x, hne, hservice, ⟨⟨f, rest, hstack, hwants⟩, -⟩, hsession,
    ⟨⟨f', rest', hstack', hwants'⟩, -⟩⟩
  have inv := inv_of_reach h
  have hbroadCast := inv.broadCasting_of_waits hservice hstack hwants
  have herror := inv.handlingError_of_waits hsession hstack' hwants'
  rw [inv.apart t t' hne hbroadCast] at herror
  cases herror

instance [Fintype T] (s : State S T) : (a : T × Op S) → Decidable (Apart s a)
  | (t, .broadCast) =>
      inferInstanceAs (Decidable (∀ t', t' ≠ t → handlingError (s.stack t') = false))
  | (t, .next result) =>
      inferInstanceAs (Decidable (isFatal result = true → atWsaSend (s.stack t) = true →
        ∀ t', t' ≠ t → broadCasting (s.stack t') = false))
  | (_, .processConnect _) | (_, .processSend _ _) | (_, .send _) | (_, .disconnect _) =>
      isTrue trivial

end Model

/-- A session connects, one thread is in its `Send`, and another one broadcasts. -/
def contended : List (Bool × Op Unit) :=
  [(false, .processConnect ())] ++ List.replicate 7 (false, .next .pending) ++
    [(true, .send ()), (true, .next .pending), (false, .broadCast), (false, .next .pending),
      (false, .next .pending)]

/-- The broadcast waits for the session, but not for ever. -/
theorem no_deadlock_contended :
    ∃ s, (system Unit Bool).Reach Apart s ∧ s.Holds false .service ∧
      s.Waits false (.session ()) ∧ s.Holds true (.session ()) ∧ ¬ s.Deadlock := by
  have hrun : (system Unit Bool).runWhen (fun s a => decide (Apart s a)) .initial contended =
      some _ := rfl
  have hreach := (Transition.System.reach_of_runWhen (.init rfl) hrun).mono
    fun _ _ => of_decide_eq_true
  exact ⟨_, hreach, Nat.succ_pos _, ⟨⟨_, _, rfl, rfl⟩, true, by decide, Nat.succ_pos _⟩,
    Nat.succ_pos _, no_deadlock hreach⟩

/-- The `Send` finds the connection reset: it waits for the lock of the service to release the
session, and the broadcast waits for the lock of the session. -/
theorem deadlock_after_reset : ∃ s, (system Unit Bool).Reachable s ∧ s.Deadlock := by
  have hrun : (system Unit Bool).run .initial (contended ++
      List.replicate 6 (true, .next .pending) ++ [(true, .next (.error wsaEConnReset))] ++
      List.replicate 2 (true, .next .pending)) = some _ := rfl
  exact ⟨_, Transition.System.reachable_of_run (.init rfl) hrun, false, true, (), by decide,
    Nat.succ_pos _, ⟨⟨_, _, rfl, rfl⟩, true, by decide, Nat.succ_pos _⟩, Nat.succ_pos _,
    ⟨⟨_, _, rfl, rfl⟩, false, by decide, Nat.succ_pos _⟩⟩

end ServiceLocks

end DhNet
