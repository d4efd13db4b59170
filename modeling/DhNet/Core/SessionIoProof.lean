import Mathlib.Algebra.Order.BigOperators.Group.List
import Mathlib.Algebra.Order.Ring.Nat
import DhNet.Core.SessionIo

/-!
# A session that is not disconnected

While no `Disconnect` has taken effect, at most one thread answers for `m_sendRegistered`, and every
sender that `Send` accepted is in one of four places.  After a `Disconnect` nothing is claimed here.

* `Stacked`, `Local`: which activation may have called which.
* `State.held`, `acquire_spec`, `release_spec`: the lock.
* `Tokens`: the flag and its holder, with one rule for each way the token can move.
* `Placed`: the senders in the order in which they were accepted.
* `Core.step`: every step keeps all of this, unless `WSASend` fails with a code for which
  `HandleError` does not disconnect.
-/

namespace DhNet

namespace SessionIo

variable {T α : Type*}

/-! ## Call stacks -/

/-- What an activation is called as. -/
inductive Kind where
  | completion
  | registerRecv
  | registerSend
  | send
  | disconnect
  deriving DecidableEq, Repr

namespace Frame

def kind : Frame α → Kind
  | .processConnect _ | .processRecv _ | .processSend _ _ => .completion
  | .registerRecv _ => .registerRecv
  | .registerSend _ => .registerSend
  | .send _ _ => .send
  | .disconnect _ => .disconnect

/-- The activation waits for a call of this kind to return. -/
def calls (f : Frame α) : Kind → Bool
  | .completion => false
  | .registerRecv =>
      match f with
      | .processConnect .leave | .processRecv .leave => true
      | _ => false
  | .registerSend =>
      match f with
      | .processSend _ .unlock | .send _ .unlock => true
      | _ => false
  | .send => mayCall [f]
  | .disconnect =>
      match f with
      | .processRecv .leave | .processSend _ .leave | .registerRecv .leave
      | .registerSend .clear => true
      | f => mayCall [f]

/-- How often the activation itself holds the lock. -/
def depth : Frame α → ℕ
  | .processSend _ .test | .processSend _ .unlock => 1
  | .registerSend .move | .registerSend .unlock => 1
  | .send _ .push | .send _ .exchange | .send _ .unlock => 1
  | _ => 0

/-- The activation answers for the flag `m_sendRegistered`. -/
def token : Frame α → ℕ
  | .processSend _ .clear | .processSend _ .checkBytes | .processSend _ .onSend
  | .processSend _ .lock | .processSend _ .test => 1
  | .registerSend _ => 1
  | _ => 0

/-- `RegisterSend` has moved the queue to `m_senders`, and no `WSASend` has taken it. -/
def moved : Frame α → Bool
  | .registerSend .unlock | .registerSend .wsaSend | .registerSend .clear => true
  | _ => false

/-- The senders of a completed send are still in `m_senders`. -/
def keeps : Frame α → Bool
  | .processSend _ .clear => true
  | _ => false

/-- The sender that `Send` has accepted and not yet queued. -/
def hand : Frame α → Option α
  | .send sender .push => some sender
  | _ => none

theorem token_of_moved {f : Frame α} (h : f.moved = true) : f.token = 1 := by
  cases f with
  | registerSend pc => rfl
  | _ => cases h

theorem token_of_keeps {f : Frame α} (h : f.keeps = true) : f.token = 1 := by
  cases f with
  | processSend numOfBytes pc =>
    cases pc with
    | clear => rfl
    | _ => cases h
  | _ => cases h

end Frame

/-- How often a thread holds the lock. -/
def depth (stack : List (Frame α)) : ℕ := (stack.map Frame.depth).sum

/-- The activations of a thread that answer for `m_sendRegistered`. -/
def tokens (stack : List (Frame α)) : ℕ := (stack.map Frame.token).sum

/-- The part of `m_senders` that a thread has yet to pass to `WSASend`. -/
def unposted (senders : List α) (stack : List (Frame α)) : List α :=
  if stack.any Frame.moved then senders else []

/-- The sender that a thread has accepted and not yet queued. -/
def inHand (stack : List (Frame α)) : List α := stack.filterMap Frame.hand

/-- Completions, `Send` and `Disconnect` may be the outermost activation. -/
def Called (kind : Kind) : List (Frame α) → Prop
  | [] => kind ≠ .registerRecv ∧ kind ≠ .registerSend
  | f :: _ => f.calls kind = true

/-- Each activation was called by the one below it, and no `Disconnect` has got past its exchange.
-/
def Stacked : List (Frame α) → Prop
  | [] => True
  | f :: rest => f ≠ .disconnect .onDisconnected ∧ Called f.kind rest ∧ Stacked rest

section Stacks

variable {f : Frame α} {rest stack : List (Frame α)}

@[simp] theorem depth_nil : depth ([] : List (Frame α)) = 0 := rfl

@[simp] theorem depth_cons : depth (f :: rest) = f.depth + depth rest := by simp [depth]

@[simp] theorem tokens_nil : tokens ([] : List (Frame α)) = 0 := rfl

@[simp] theorem tokens_cons : tokens (f :: rest) = f.token + tokens rest := by simp [tokens]

theorem depth_append (new : List (Frame α)) : depth (new ++ rest) = depth new + depth rest := by
  simp [depth]

theorem tokens_append (new : List (Frame α)) :
    tokens (new ++ rest) = tokens new + tokens rest := by
  simp [tokens]

theorem inHand_cons : inHand (f :: rest) = f.hand.toList ++ inHand rest := by
  cases hf : f.hand <;> simp [inHand, hf]

theorem inHand_append (new : List (Frame α)) :
    inHand (new ++ rest) = inHand new ++ inHand rest := by
  simp [inHand]

theorem unposted_cons (senders : List α) :
    unposted senders (f :: rest) = if f.moved then senders else unposted senders rest := by
  cases hf : f.moved <;> simp [unposted, hf]

/-- Activations that keep what is in `m_senders` are still there. -/
theorem keeps_or_moved {new : List (Frame α)} (hkeeps : new.any Frame.keeps = stack.any Frame.keeps)
    (hmoved : new.any Frame.moved = stack.any Frame.moved) :
    ∀ f ∈ stack, f.keeps = true ∨ f.moved = true → ∃ f ∈ new, f.keeps = true ∨ f.moved = true := by
  rintro f hf (h | h)
  · have : new.any Frame.keeps = true := hkeeps.trans (List.any_eq_true.2 ⟨f, hf, h⟩)
    obtain ⟨g, hg, h⟩ := List.any_eq_true.1 this
    exact ⟨g, hg, .inl h⟩
  · have : new.any Frame.moved = true := hmoved.trans (List.any_eq_true.2 ⟨f, hf, h⟩)
    obtain ⟨g, hg, h⟩ := List.any_eq_true.1 this
    exact ⟨g, hg, .inr h⟩

theorem token_le_tokens (h : f ∈ stack) : f.token ≤ tokens stack :=
  List.single_le_sum (fun _ _ => Nat.zero_le _) _ (List.mem_map_of_mem h)

theorem unposted_of_tokens (senders : List α) (h : tokens stack = 0) :
    unposted senders stack = [] := by
  refine if_neg fun hany => ?_
  obtain ⟨f, hf, hmoved⟩ := List.any_eq_true.1 hany
  have := token_le_tokens hf
  rw [Frame.token_of_moved hmoved] at this
  omega

/-- What an activation that waits does not do. -/
theorem Frame.of_calls {f : Frame α} {kind : Kind} (h : f.calls kind = true) :
    f.hand = none ∧ (kind = .registerSend → f.depth = 1) := by
  rcases f with pc | pc | ⟨n, pc⟩ | pc | pc | ⟨x, pc⟩ | pc <;> cases pc <;> cases kind <;>
    simp_all [calls, hand, depth, mayCall]

/-- Below the innermost activation no sender is in hand. -/
theorem Stacked.inHand_rest (h : Stacked (f :: rest)) : inHand rest = [] := by
  induction rest generalizing f with
  | nil => rfl
  | cons g rest ih =>
    have hg := (Frame.of_calls h.2.1).1
    simp only [inHand, List.filterMap_cons, hg]
    exact ih h.2.2

/-- `RegisterSend` is called under the lock. -/
theorem Stacked.not_registerSend (h : Stacked stack) (free : depth stack = 0)
    (pc : RegisterSendPc) : .registerSend pc ∉ stack := by
  induction stack with
  | nil => exact List.not_mem_nil
  | cons f rest ih =>
    rw [depth_cons] at free
    intro hmem
    rcases List.mem_cons.1 hmem with rfl | hmem
    · cases rest with
      | nil => exact absurd rfl h.2.1.2
      | cons g rest =>
        have := (Frame.of_calls h.2.1).2 rfl
        rw [depth_cons] at free
        omega
    · exact ih h.2.2 (by omega) hmem

/-- A thread that does not hold the lock is not in the middle of a send. -/
theorem Stacked.of_depth (h : Stacked stack) (free : depth stack = 0) (senders : List α) :
    unposted senders stack = [] ∧ inHand stack = [] := by
  constructor
  · refine if_neg fun hany => ?_
    obtain ⟨f, hf, hmoved⟩ := List.any_eq_true.1 hany
    cases f with
    | registerSend pc => exact h.not_registerSend free pc hf
    | _ => cases hmoved
  · refine List.filterMap_eq_nil_iff.2 fun f hf => ?_
    have hle : f.depth ≤ depth stack :=
      List.single_le_sum (fun _ _ => Nat.zero_le _) _ (List.mem_map_of_mem hf)
    cases f with
    | send sender pc =>
      cases pc with
      | push => exact absurd (hle.trans free.le) (by simp [Frame.depth])
      | _ => rfl
    | _ => rfl

end Stacks

theorem moveAll_eq (queue senders : List α) : moveAll queue senders = ([], senders ++ queue) := by
  induction queue generalizing senders with
  | nil => simp [moveAll]
  | cons sender queue ih => simp [moveAll, ih]

/-! ## The lock -/

section Lock

variable [DecidableEq T]

/-- How often a thread holds the lock of the session. -/
def State.held (s : State T α) (t : T) : ℕ :=
  match s.lock with
  | none => 0
  | some (owner, depth) => if owner = t then depth else 0

variable {s s' : State T α} {t u : T}

theorem held_unique (ht : 0 < s.held t) (hu : 0 < s.held u) : t = u := by
  unfold State.held at ht hu
  rcases hlock : s.lock with _ | ⟨owner, depth⟩
  · simp [hlock] at ht
  · simp only [hlock] at ht hu
    split_ifs at ht hu with h1 h2
    · exact h1.symm.trans h2
    all_goals omega

/-- Taking the lock. -/
theorem acquire_spec (h : s.acquire t = some s') : ∃ lock, s' = { s with lock := lock } ∧
    s'.held t = s.held t + 1 ∧ ∀ u, u ≠ t → s.held u = 0 ∧ s'.held u = 0 := by
  unfold State.acquire at h
  rcases hlock : s.lock with _ | ⟨owner, depth⟩
  · simp only [hlock, Option.some.injEq] at h
    subst h
    refine ⟨_, rfl, by simp [State.held, hlock], fun u hu => ?_⟩
    simp [State.held, hlock, hu.symm]
  · simp only [hlock] at h
    split_ifs at h with howner
    subst howner
    obtain rfl := Option.some.inj h
    refine ⟨_, rfl, by simp [State.held, hlock], fun u hu => ?_⟩
    simp [State.held, hlock, hu.symm]

/-- Giving the lock back. -/
theorem release_spec (h : 0 < s.held t) : ∃ lock, s.release = { s with lock := lock } ∧
    s.release.held t = s.held t - 1 ∧ ∀ u, u ≠ t → s.held u = 0 ∧ s.release.held u = 0 := by
  unfold State.held at h
  rcases hlock : s.lock with _ | ⟨owner, depth⟩
  · simp [hlock] at h
  · simp only [hlock] at h
    have howner : owner = t := by
      by_contra hne
      simp [hne] at h
    subst howner
    refine ⟨_, rfl, ?_, fun u hu => ?_⟩
    · rcases depth with _ | _ | depth <;> simp [State.held, State.release, hlock]
    · rcases depth with _ | _ | depth <;> simp [State.held, State.release, hlock, hu.symm]

end Lock

/-! ## What a thread may be doing -/

/-- What holds of the call stack of a thread: a failed `RegisterSend` waits for the `Disconnect`
that it called, and a `RegisterSend` that goes on has seen the session connected. -/
structure Local (opened : Bool) (stack : List (Frame α)) : Prop where
  stacked : Stacked stack
  top : ∀ pc rest, stack = .registerSend pc :: rest → pc ≠ .clear ∧ pc ≠ .store
  posted : ∀ pc, .registerSend pc ∈ stack → pc = .isConnected ∨ opened = true

section Local

variable {opened : Bool} {f g c : Frame α} {rest : List (Frame α)}

/-- Only a `Disconnect` is called by `RegisterSend`, after a failure. -/
theorem Frame.disconnect_of_calls {pc : RegisterSendPc} {kind : Kind}
    (h : (Frame.registerSend pc : Frame α).calls kind = true) :
    kind = .disconnect ∧ pc ≠ .isConnected := by
  cases kind <;> cases pc <;> simp_all [calls, mayCall]

/-- A `RegisterSend` on top goes on, with a reason to believe that the session was connected. -/
def Frame.Sound (opened : Bool) : Frame α → Prop
  | .registerSend pc => pc ≠ .clear ∧ pc ≠ .store ∧ (pc = .isConnected ∨ opened = true)
  | .disconnect pc => pc = .exchange
  | _ => True

theorem Local.nil : Local opened ([] : List (Frame α)) := ⟨trivial, nofun, nofun⟩

theorem Local.mono {opened' : Bool} {stack : List (Frame α)} (h : Local opened stack)
    (le : opened = true → opened' = true) : Local opened' stack :=
  ⟨h.stacked, h.top, fun pc hpc => (h.posted pc hpc).imp_right le⟩

theorem Local.of_sound (stacked : Stacked rest) (called : Called f.kind rest)
    (posted : ∀ pc, .registerSend pc ∈ rest → pc = .isConnected ∨ opened = true)
    (sound : f.Sound opened) : Local opened (f :: rest) where
  stacked := by
    refine ⟨?_, called, stacked⟩
    rintro rfl
    cases sound
  top := by
    rintro pc rest' heq
    obtain ⟨rfl, -⟩ := List.cons.inj heq
    exact ⟨sound.1, sound.2.1⟩
  posted := by
    intro pc hpc
    rcases List.mem_cons.1 hpc with rfl | hpc
    · exact sound.2.2
    · exact posted pc hpc

/-- The innermost activation goes on. -/
theorem Local.replace (h : Local opened (f :: rest)) (kind : g.kind = f.kind)
    (sound : g.Sound opened) : Local opened (g :: rest) :=
  .of_sound h.stacked.2.2 (kind ▸ h.stacked.2.1)
    (fun pc hpc => h.posted pc (List.mem_cons_of_mem f hpc)) sound

/-- The innermost activation calls a function. -/
theorem Local.call (h : Local opened (f :: rest)) (kind : g.kind = f.kind)
    (calls : g.calls c.kind = true) (calm : g ≠ .disconnect .onDisconnected)
    (posted : ∀ pc, g = .registerSend pc → opened = true) (sound : c.Sound opened) :
    Local opened (c :: g :: rest) := by
  refine .of_sound ⟨calm, kind ▸ h.stacked.2.1, h.stacked.2.2⟩ calls (fun pc hpc => ?_) sound
  rcases List.mem_cons.1 hpc with hg | hpc
  · exact .inr (posted pc hg.symm)
  · exact h.posted pc (List.mem_cons_of_mem f hpc)

/-- The innermost activation returns. -/
theorem Local.ret (h : Local opened (f :: rest)) (why : f.kind ≠ .disconnect ∨ opened = false) :
    Local opened rest where
  stacked := h.stacked.2.2
  top := by
    rintro pc rest' rfl
    obtain ⟨hkind, hpc⟩ := Frame.disconnect_of_calls h.stacked.2.1
    have hopened := (h.posted pc (by simp)).resolve_left hpc
    rcases why with hne | hclosed
    · exact absurd hkind hne
    · rw [hopened] at hclosed
      cases hclosed
  posted := fun pc hpc => h.posted pc (List.mem_cons_of_mem f hpc)

end Local

/-! ## The flag `m_sendRegistered` -/

/-- Who answers for `m_sendRegistered` and for the contents of `m_senders`: at most one thread, and
none while a `WSASend` is outstanding. -/
structure Tokens (stack : T → List (Frame α)) (sendRegistered : Bool) (sendsOutstanding : ℕ)
    (senders : List α) : Prop where
  flight : sendsOutstanding ≤ sendRegistered.toNat
  sole : ∀ t, tokens (stack t) + sendsOutstanding ≤ sendRegistered.toNat
  unique : ∀ t u, 0 < tokens (stack t) → 0 < tokens (stack u) → t = u
  kept : senders ≠ [] → 0 < sendsOutstanding ∨
    ∃ t, ∃ f ∈ stack t, f.keeps = true ∨ f.moved = true

section Tokens

variable {t : T} {stack : T → List (Frame α)} {sendRegistered : Bool}
  {sendsOutstanding : ℕ} {senders : List α} {new : List (Frame α)}

theorem Tokens.of_pos (h : Tokens stack sendRegistered sendsOutstanding senders)
    (ht : 0 < tokens (stack t)) : sendRegistered = true ∧ sendsOutstanding = 0 ∧
      tokens (stack t) = 1 ∧ ∀ u, u ≠ t → tokens (stack u) = 0 := by
  have hle := h.sole t
  have hflag : sendRegistered = true := by
    cases sendRegistered with
    | true => rfl
    | false => simp only [Bool.toNat_false] at hle; omega
  rw [hflag, Bool.toNat_true] at hle
  refine ⟨hflag, by omega, by omega, fun u hu => ?_⟩
  by_contra hne
  exact hu (h.unique u t (Nat.pos_of_ne_zero hne) ht)

/-- Without a token anywhere, and with at most one `WSASend` on its way. -/
theorem Tokens.of_none (flight : sendsOutstanding ≤ sendRegistered.toNat)
    (none : ∀ t, tokens (stack t) = 0) (kept : senders ≠ [] → 0 < sendsOutstanding) :
    Tokens stack sendRegistered sendsOutstanding senders where
  flight := flight
  sole t := by rw [none t, Nat.zero_add]; exact flight
  unique t u ht := absurd (none t) ht.ne'
  kept hne := .inl (kept hne)

/-- With the token at one thread. -/
theorem Tokens.of_one (one : tokens (stack t) = 1) (none : ∀ u, u ≠ t → tokens (stack u) = 0)
    (kept : senders ≠ [] → ∃ f ∈ stack t, f.keeps = true ∨ f.moved = true) :
    Tokens stack true 0 senders where
  flight := Nat.zero_le _
  sole u := by
    rcases eq_or_ne u t with rfl | hu
    · rw [one]; rfl
    · rw [none u hu]; exact Nat.zero_le _
  unique u v hu hv := by
    have key : ∀ w, 0 < tokens (stack w) → w = t := fun w hw => by
      by_contra hne
      rw [none w hne] at hw
      exact absurd hw (lt_irrefl 0)
    rw [key u hu, key v hv]
  kept hne := .inr ⟨t, kept hne⟩

/-- Nothing is in `m_senders` when the thread with the token has put nothing there. -/
theorem Tokens.senders_eq_nil (h : Tokens stack sendRegistered sendsOutstanding senders)
    (ht : 0 < tokens (stack t))
    (hkeeps : ∀ f ∈ stack t, f.keeps = false ∧ f.moved = false) : senders = [] := by
  obtain ⟨-, hout, -, hothers⟩ := h.of_pos ht
  by_contra hne
  rcases h.kept hne with hpos | ⟨u, f, hf, hkeep⟩
  · omega
  · have hone : f.token = 1 := hkeep.elim Frame.token_of_keeps Frame.token_of_moved
    rcases eq_or_ne u t with rfl | hu
    · obtain ⟨h1, h2⟩ := hkeeps f hf
      simp [h1, h2] at hkeep
    · have := token_le_tokens hf
      have := hothers u hu
      omega

variable [DecidableEq T]

/-- A property of all threads after one of them has a new call stack. -/
theorem forall_update {P : T → List (Frame α) → Prop} (self : P t new)
    (others : ∀ u, u ≠ t → P u (stack u)) (u : T) : P u (Function.update stack t new u) := by
  rcases eq_or_ne u t with rfl | hu
  · rwa [Function.update_self]
  · rw [Function.update_of_ne hu]
    exact others u hu

/-- A step of a thread that keeps its token or drops it. -/
theorem Tokens.update (h : Tokens stack sendRegistered sendsOutstanding senders)
    (htokens : tokens new ≤ tokens (stack t))
    (hkeeps : ∀ f ∈ stack t, f.keeps = true ∨ f.moved = true →
      ∃ f ∈ new, f.keeps = true ∨ f.moved = true) :
    Tokens (Function.update stack t new) sendRegistered sendsOutstanding senders where
  flight := h.flight
  sole := forall_update
    (P := fun _ stack => tokens stack + sendsOutstanding ≤ sendRegistered.toNat)
    ((Nat.add_le_add_right htokens _).trans (h.sole t)) fun u _ => h.sole u
  unique := by
    have hle : ∀ u, tokens (Function.update stack t new u) ≤ tokens (stack u) :=
      forall_update (P := fun u new => tokens new ≤ tokens (stack u)) htokens
        fun u _ => le_refl _
    exact fun u v hu hv => h.unique u v (hu.trans_le (hle u)) (hv.trans_le (hle v))
  kept := fun hne => by
    refine (h.kept hne).imp_right ?_
    rintro ⟨u, f, hf, hkeep⟩
    rcases eq_or_ne u t with rfl | hu
    · obtain ⟨g, hg, hkeep'⟩ := hkeeps f hf hkeep
      exact ⟨u, g, by rwa [Function.update_self], hkeep'⟩
    · exact ⟨u, f, by rwa [Function.update_of_ne hu], hkeep⟩

end Tokens

/-! ## The senders -/

/-- Where the accepted senders are: passed to `WSASend`, moved to `m_senders` by the thread that
holds the lock, queued, and in the hand of that thread. -/
structure Placed (held : T → ℕ) (stack : T → List (Frame α)) (accepted : List α)
    (wsaSends : List (List α)) (senders queue : List α) : Prop where
  locked : ∀ t, 0 < held t → accepted = wsaSends.flatten ++ unposted senders (stack t) ++ queue ++
    inHand (stack t)
  free : (∀ t, held t = 0) → accepted = wsaSends.flatten ++ queue

section Placed

variable {t : T} {held : T → ℕ} {stack : T → List (Frame α)}
  {accepted : List α} {wsaSends : List (List α)} {senders queue : List α} {new : List (Frame α)}

/-- Only the thread that holds the lock has to be looked at. -/
theorem Placed.of_locked (hpos : 0 < held t) (hothers : ∀ u, u ≠ t → held u = 0)
    (here : accepted = wsaSends.flatten ++ unposted senders (stack t) ++ queue ++
      inHand (stack t)) : Placed held stack accepted wsaSends senders queue where
  locked u hu := by
    rcases eq_or_ne u t with rfl | hne
    · exact here
    · exact absurd (hothers u hne) hu.ne'
  free hall := absurd (hall t) hpos.ne'

/-- What a thread that takes the lock finds, and what it leaves when it gives the lock back. -/
theorem Placed.here (h : Placed held stack accepted wsaSends senders queue)
    (hothers : ∀ u, u ≠ t → held u = 0) (stacked : Stacked (stack t))
    (hdepth : depth (stack t) = held t) :
    accepted = wsaSends.flatten ++ unposted senders (stack t) ++ queue ++ inHand (stack t) := by
  rcases Nat.eq_zero_or_pos (held t) with hzero | hpos
  · obtain ⟨hu, hi⟩ := stacked.of_depth (hdepth.trans hzero) senders
    rw [hu, hi, List.append_nil, List.append_nil]
    refine h.free fun u => ?_
    rcases eq_or_ne u t with rfl | hu
    · exact hzero
    · exact hothers u hu
  · exact h.locked t hpos

theorem Placed.of_here (hothers : ∀ u, u ≠ t → held u = 0) (stacked : Stacked (stack t))
    (hdepth : depth (stack t) = held t)
    (here : accepted = wsaSends.flatten ++ unposted senders (stack t) ++ queue ++
      inHand (stack t)) : Placed held stack accepted wsaSends senders queue := by
  rcases Nat.eq_zero_or_pos (held t) with hzero | hpos
  · refine ⟨fun u hu => ?_, fun _ => ?_⟩
    · rcases eq_or_ne u t with rfl | hne
      · exact absurd hzero hu.ne'
      · exact absurd (hothers u hne) hu.ne'
    · obtain ⟨hu, hi⟩ := stacked.of_depth (hdepth.trans hzero) senders
      rwa [hu, hi, List.append_nil, List.append_nil] at here
  · exact .of_locked hpos hothers here

variable [DecidableEq T]

/-- A step of a thread that does not move any sender. -/
theorem Placed.update (h : Placed held stack accepted wsaSends senders queue)
    (hmoved : new.any Frame.moved = (stack t).any Frame.moved)
    (hhand : inHand new = inHand (stack t)) :
    Placed held (Function.update stack t new) accepted wsaSends senders queue where
  locked := by
    refine forall_update (P := fun u stack => 0 < held u → accepted = wsaSends.flatten ++
      unposted senders stack ++ queue ++ inHand stack) ?_ fun u _ => h.locked u
    intro hpos
    rw [h.locked t hpos, unposted, unposted, hmoved, hhand]
  free := h.free

end Placed

/-! ## The invariant -/

/-- What holds while no `Disconnect` has taken effect. -/
structure Core [DecidableEq T] (s : State T α) : Prop where
  connected : s.connected = s.opened
  locals : ∀ t, Local s.opened (s.stack t)
  held : ∀ t, depth (s.stack t) = s.held t
  tokens : Tokens s.stack s.sendRegistered s.sendsOutstanding s.senders
  placed : Placed s.held s.stack s.accepted s.wsaSends s.senders s.senderQueue

/-- No `Disconnect` has taken effect. -/
def State.Live (s : State T α) : Prop := s.opened = true → s.connected = true

/-- An activation goes on as other activations that do the same for the lock, the flag and the
senders. -/
structure Neutral (f : Frame α) (new : List (Frame α)) : Prop where
  depth : SessionIo.depth new = f.depth
  tokens : SessionIo.tokens new ≤ f.token
  keeps : new.any Frame.keeps = f.keeps
  moved : new.any Frame.moved = f.moved
  hand : inHand new = f.hand.toList

section Steps

variable [DecidableEq T] {s s' : State T α} {t u : T} {f g : Frame α}
  {rest new : List (Frame α)}

@[simp] theorem setStack_stack_self : (s.setStack t new).stack t = new := by
  simp [State.setStack]

/-- A step that changes only the call stack of a thread and nothing that is counted there. -/
theorem Core.setStack (h : Core s) (loc : Local s.opened new)
    (hdepth : depth new = depth (s.stack t)) (htokens : SessionIo.tokens new ≤
      SessionIo.tokens (s.stack t))
    (hkeeps : new.any Frame.keeps = (s.stack t).any Frame.keeps)
    (hmoved : new.any Frame.moved = (s.stack t).any Frame.moved)
    (hhand : inHand new = inHand (s.stack t)) : Core (s.setStack t new) where
  connected := h.connected
  locals := forall_update (P := fun _ => Local s.opened) loc fun u _ => h.locals u
  held := forall_update (P := fun u stack => depth stack = s.held u) (hdepth.trans (h.held t))
    fun u _ => h.held u
  tokens := h.tokens.update htokens (keeps_or_moved hkeeps hmoved)
  placed := h.placed.update hmoved hhand

theorem Core.advance (h : Core s) (hstack : s.stack t = f :: rest) (new : List (Frame α))
    (neutral : Neutral f new)
    (loc : Local s.opened (new ++ rest)) : Core (s.setStack t (new ++ rest)) := by
  apply h.setStack loc <;> rw [hstack]
  · rw [depth_append, depth_cons, neutral.depth]
  · rw [tokens_append, tokens_cons]
    exact Nat.add_le_add_right neutral.tokens _
  · rw [List.any_append, List.any_cons, neutral.keeps]
  · rw [List.any_append, List.any_cons, neutral.moved]
  · rw [inHand_append, inHand_cons, neutral.hand]

/-- A thread takes the lock, and may accept a sender. -/
theorem Core.acquire (h : Core s) (hs : s.acquire t = some s') (hstack : s.stack t = f :: rest)
    (loc : Local s.opened (g :: rest)) (hdepth : g.depth = f.depth + 1)
    (htoken : g.token = f.token) (hkeeps : g.keeps = f.keeps) (hmoved : g.moved = f.moved)
    (hhand : f.hand = none) (added : List α) (hadded : g.hand.toList = added) :
    Core ({ s' with accepted := s'.accepted ++ added }.setStack t (g :: rest)) := by
  obtain ⟨lock, rfl, hself, hothers⟩ := acquire_spec hs
  have hlocal := h.locals t
  have hheld := h.held t
  have hempty : inHand rest = [] := (hstack ▸ hlocal.stacked).inHand_rest
  have hhere := h.placed.here (fun u hu => (hothers u hu).1) hlocal.stacked hheld
  rw [hstack] at hheld hhere
  refine ⟨h.connected, forall_update (P := fun _ => Local s.opened) loc fun u _ => h.locals u,
    ?_, ?_, ?_⟩
  · refine forall_update (P := fun u stack =>
      depth stack = State.held ({ s with lock := lock } : State T α) u) ?_ fun u hu => ?_
    · rw [hself, ← hheld, depth_cons, depth_cons, hdepth]
      omega
    · rw [(hothers u hu).2, h.held u, (hothers u hu).1]
  · refine h.tokens.update (by simp [hstack, htoken]) (keeps_or_moved ?_ ?_) <;>
      simp [hstack, hkeeps, hmoved]
  · have hpos : 0 < State.held ({ s with lock := lock } : State T α) t := by rw [hself]; omega
    refine .of_locked hpos (fun u hu => (hothers u hu).2) ?_
    rw [setStack_stack_self, inHand_cons, hadded, hempty, List.append_nil]
    change s.accepted ++ added =
      s.wsaSends.flatten ++ unposted s.senders (g :: rest) ++ s.senderQueue ++ added
    rw [hhere, inHand_cons, hhand, hempty, unposted_cons, unposted_cons, hmoved]
    simp

/-- A thread gives the lock back. -/
theorem Core.release (h : Core s) (hstack : s.stack t = f :: rest) (new : List (Frame α))
    (loc : Local s.opened (new ++ rest)) (hdepth : f.depth = depth new + 1)
    (htokens : SessionIo.tokens new ≤ f.token) (hkeeps : new.any Frame.keeps = f.keeps)
    (hmoved : new.any Frame.moved = f.moved) (hhand : inHand new = f.hand.toList) :
    Core (s.release.setStack t (new ++ rest)) := by
  have hheld := h.held t
  rw [hstack, depth_cons] at hheld
  obtain ⟨lock, hrelease, hself, hothers⟩ := release_spec (show 0 < s.held t by omega)
  have hhere := h.placed.here (fun u hu => (hothers u hu).1) (h.locals t).stacked (h.held t)
  rw [hstack] at hhere
  have hdepth' : depth (new ++ rest) = s.release.held t := by
    rw [hself, depth_append]
    omega
  rw [hrelease] at hself hothers hdepth' ⊢
  refine ⟨h.connected, forall_update (P := fun _ => Local s.opened) loc fun u _ => h.locals u,
    ?_, ?_, ?_⟩
  · refine forall_update (P := fun u stack =>
      depth stack = State.held ({ s with lock := lock } : State T α) u) hdepth' fun u hu => ?_
    rw [(hothers u hu).2, h.held u, (hothers u hu).1]
  · refine h.tokens.update (by rw [hstack, tokens_append, tokens_cons]; omega)
      (keeps_or_moved ?_ ?_) <;>
      simp [hstack, hkeeps, hmoved]
  · refine .of_here (fun u hu => (hothers u hu).2) ?_ ?_ ?_ (t := t)
    · rw [setStack_stack_self]
      exact loc.stacked
    · rw [setStack_stack_self]
      exact hdepth'
    · rw [setStack_stack_self, inHand_append, hhand, ← inHand_cons]
      refine hhere.trans ?_
      simp only [unposted, List.any_append, List.any_cons, hmoved]
      rfl

/-- A step that leaves the lock and the connection alone. -/
theorem Core.of_step {s₁ : State T α} (h : Core s) (hlock : s₁.lock = s.lock)
    (hconnected : s₁.connected = s.connected) (hopened : s₁.opened = s.opened)
    (hstacks : s₁.stack = s.stack) (loc : Local s.opened new)
    (hdepth : depth new = depth (s.stack t))
    (tokens : Tokens (Function.update s.stack t new) s₁.sendRegistered s₁.sendsOutstanding
      s₁.senders)
    (placed : Placed s.held (Function.update s.stack t new) s₁.accepted s₁.wsaSends s₁.senders
      s₁.senderQueue) : Core (s₁.setStack t new) := by
  have hheld : s₁.held = s.held := by
    funext u
    simp only [State.held, hlock]
  refine ⟨?_, ?_, ?_, ?_, ?_⟩ <;> simp only [State.setStack, hstacks]
  · rw [hconnected, hopened, h.connected]
  · rw [hopened]
    exact forall_update (P := fun _ => Local s.opened) loc fun u _ => h.locals u
  · change ∀ u, _ = s₁.held u
    rw [hheld]
    exact forall_update (P := fun u stack => depth stack = s.held u) (hdepth.trans (h.held t))
      fun u _ => h.held u
  · exact tokens
  · change Placed s₁.held _ _ _ _ _
    rw [hheld]
    exact placed

/-- The thread that holds the lock is the only one. -/
theorem held_others (h : 0 < s.held t) (u : T) (hu : u ≠ t) : s.held u = 0 := by
  by_contra hne
  exact hu (held_unique (Nat.pos_of_ne_zero hne) h)

/-- The thread whose innermost activation has the token has no other, and no one else has. -/
theorem Core.token_top (h : Core s) (hstack : s.stack t = f :: rest) (token : f.token = 1) :
    s.sendRegistered = true ∧ s.sendsOutstanding = 0 ∧ SessionIo.tokens rest = 0 ∧
      (∀ u, u ≠ t → SessionIo.tokens (s.stack u) = 0) ∧
      (f.keeps = false → f.moved = false → s.senders = []) := by
  have hpos : 0 < SessionIo.tokens (s.stack t) := by rw [hstack, tokens_cons, token]; omega
  obtain ⟨hflag, hout, hone, hnone⟩ := h.tokens.of_pos hpos
  have hrest : SessionIo.tokens rest = 0 := by
    rw [hstack, tokens_cons, token] at hone
    omega
  refine ⟨hflag, hout, hrest, hnone, fun hkeeps hmoved => ?_⟩
  refine h.tokens.senders_eq_nil hpos fun g hg => ?_
  rw [hstack] at hg
  rcases List.mem_cons.1 hg with rfl | hg
  · exact ⟨hkeeps, hmoved⟩
  · have := token_le_tokens hg
    constructor <;> by_contra hne
    · rw [Frame.token_of_keeps (by simpa using hne)] at this
      omega
    · rw [Frame.token_of_moved (by simpa using hne)] at this
      omega

/-- `Send` queues its sender. -/
theorem Core.push {sender : α} (h : Core s) (hstack : s.stack t = .send sender .push :: rest) :
    Core ({ s with senderQueue := s.senderQueue ++ [sender] }.setStack t
      (.send sender .exchange :: rest)) := by
  have hlocal := h.locals t
  rw [hstack] at hlocal
  have hpos : 0 < s.held t := by simp [← h.held t, hstack, Frame.depth]
  refine h.of_step rfl rfl rfl rfl (hlocal.replace rfl trivial) (by simp [hstack, Frame.depth])
    ?_ (.of_locked hpos (held_others hpos) ?_)
  · exact h.tokens.update (by simp [hstack, Frame.token])
      (keeps_or_moved (by simp [hstack, Frame.keeps]) (by simp [hstack, Frame.moved]))
  · have hempty := hlocal.stacked.inHand_rest
    refine (h.placed.locked t hpos).trans ?_
    rw [Function.update_self, hstack, inHand_cons, inHand_cons, hempty]
    simp [unposted, Frame.moved, Frame.hand]

/-- The exchange of `Send` finds that no send is registered. -/
theorem Core.claim {sender : α} (h : Core s) (hstack : s.stack t = .send sender .exchange :: rest)
    (idle : s.sendRegistered = false) :
    Core ({ s with sendRegistered := true }.setStack t
      (.registerSend .isConnected :: .send sender .unlock :: rest)) := by
  have hlocal := h.locals t
  rw [hstack] at hlocal
  have hzero : ∀ u, SessionIo.tokens (s.stack u) = 0 ∧ s.sendsOutstanding = 0 := by
    intro u
    have := h.tokens.sole u
    rw [idle, Bool.toNat_false] at this
    omega
  have hrest := (hzero t).1
  rw [hstack, tokens_cons] at hrest
  refine h.of_step rfl rfl rfl rfl ?_ (by simp [hstack, Frame.depth]) ?_
    (h.placed.update (by simp [hstack, Frame.moved]) (by simp [hstack, inHand_cons, Frame.hand]))
  · exact hlocal.call (g := .send sender .unlock) rfl rfl nofun nofun ⟨nofun, nofun, .inl rfl⟩
  · change Tokens _ true s.sendsOutstanding s.senders
    rw [(hzero t).2]
    refine .of_one (t := t) ?_ (fun u hu => ?_) fun hne => ?_
    · simp only [Function.update_self, tokens_cons, Frame.token] at hrest ⊢
      omega
    · rw [Function.update_of_ne hu, (hzero u).1]
    · refine absurd (h.tokens.kept hne) ?_
      rintro (hpos | ⟨u, f, hf, hkeep⟩)
      · exact absurd (hzero t).2 hpos.ne'
      · have := token_le_tokens hf
        rw [hkeep.elim Frame.token_of_keeps Frame.token_of_moved, (hzero u).1] at this
        omega

/-- `RegisterSend` moves the queue. -/
theorem Core.move (h : Core s) (hstack : s.stack t = .registerSend .move :: rest) :
    Core ({ s with
      senderQueue := (moveAll s.senderQueue s.senders).1
      senders := (moveAll s.senderQueue s.senders).2 }.setStack t
        (.registerSend .unlock :: rest)) := by
  have hlocal := h.locals t
  rw [hstack] at hlocal
  have hpos : 0 < s.held t := by simp [← h.held t, hstack, Frame.depth]
  obtain ⟨hflag, hout, hrest, hnone, hsenders⟩ := h.token_top hstack rfl
  rw [moveAll_eq, hsenders rfl rfl, List.nil_append]
  refine h.of_step rfl rfl rfl rfl ?_ (by simp [hstack, Frame.depth]) ?_
    (.of_locked hpos (held_others hpos) ?_)
  · have hopened := (hlocal.posted .move (by simp)).resolve_left nofun
    exact hlocal.replace rfl ⟨nofun, nofun, .inr hopened⟩
  · rw [hflag, hout]
    refine .of_one (t := t) ?_ (fun u hu => ?_) fun _ => ?_
    · simp [Frame.token, hrest]
    · rw [Function.update_of_ne hu, hnone u hu]
    · exact ⟨.registerSend .unlock, by simp, .inr rfl⟩
  · refine (h.placed.locked t hpos).trans ?_
    rw [Function.update_self, hstack, inHand_cons, inHand_cons, unposted_cons, unposted_cons,
      unposted_of_tokens _ hrest]
    simp [Frame.moved, Frame.hand]

/-- A `WSASend` that does not fail. -/
theorem Core.post (h : Core s) (hstack : s.stack t = .registerSend .wsaSend :: rest) :
    Core ({ s with
      sendsOutstanding := s.sendsOutstanding + 1
      wsaSends := s.wsaSends ++ [s.senders] }.setStack t rest) := by
  have hlocal := h.locals t
  rw [hstack] at hlocal
  have hpos : 0 < s.held t := by
    rw [← h.held t, hstack]
    cases rest with
    | nil => exact absurd rfl hlocal.stacked.2.1.2
    | cons g rest =>
      rw [depth_cons, depth_cons, (Frame.of_calls hlocal.stacked.2.1).2 rfl]
      omega
  obtain ⟨hflag, hout, hrest, hnone, -⟩ := h.token_top hstack rfl
  refine h.of_step rfl rfl rfl rfl (hlocal.ret (.inl nofun)) (by simp [hstack, Frame.depth]) ?_
    (.of_locked hpos (held_others hpos) ?_)
  · refine .of_none ?_ (forall_update (P := fun _ stack => SessionIo.tokens stack = 0) hrest hnone)
      fun _ => Nat.succ_pos _
    rw [hflag, hout]
    rfl
  · refine (h.placed.locked t hpos).trans ?_
    rw [Function.update_self, hstack, inHand_cons, unposted_cons, unposted_of_tokens _ hrest]
    simp [Frame.moved, Frame.hand]

/-- `ProcessSend` drops the senders of the completed send. -/
theorem Core.clear {numOfBytes : ℕ} (h : Core s)
    (hstack : s.stack t = .processSend numOfBytes .clear :: rest) :
    Core ({ s with senders := [] }.setStack t (.processSend numOfBytes .checkBytes :: rest)) := by
  have hlocal := h.locals t
  rw [hstack] at hlocal
  obtain ⟨hflag, hout, hrest, hnone, -⟩ := h.token_top hstack rfl
  refine h.of_step rfl rfl rfl rfl (hlocal.replace rfl trivial) (by simp [hstack, Frame.depth]) ?_
    ⟨forall_update (P := fun u stack => 0 < s.held u → s.accepted = s.wsaSends.flatten ++
      unposted [] stack ++ s.senderQueue ++ inHand stack) ?_ fun u hu hpos => ?_, h.placed.free⟩
  · rw [hflag, hout]
    refine .of_one (t := t) ?_ (fun u hu => ?_) fun hne => absurd rfl hne
    · simp [Frame.token, hrest]
    · rw [Function.update_of_ne hu, hnone u hu]
  · intro hpos
    refine (h.placed.locked t hpos).trans ?_
    rw [hstack, inHand_cons, inHand_cons, unposted_cons, unposted_cons,
      unposted_of_tokens _ hrest, unposted_of_tokens _ hrest]
    rfl
  · rw [h.placed.locked u hpos, unposted_of_tokens _ (hnone u hu),
      unposted_of_tokens _ (hnone u hu)]

/-- `ProcessSend` finds the queue empty. -/
theorem Core.retire {numOfBytes : ℕ} (h : Core s)
    (hstack : s.stack t = .processSend numOfBytes .test :: rest) :
    Core ({ s with sendRegistered := false }.setStack t
      (.processSend numOfBytes .unlock :: rest)) := by
  have hlocal := h.locals t
  rw [hstack] at hlocal
  obtain ⟨-, hout, hrest, hnone, hsenders⟩ := h.token_top hstack rfl
  refine h.of_step rfl rfl rfl rfl (hlocal.replace rfl trivial) (by simp [hstack, Frame.depth]) ?_
    (h.placed.update (by simp [hstack, Frame.moved]) (by simp [hstack, inHand_cons, Frame.hand]))
  refine .of_none hout.le (forall_update (P := fun _ stack => SessionIo.tokens stack = 0) ?_ hnone)
    fun hne => absurd (hsenders rfl rfl) hne
  rw [tokens_cons, hrest]
  rfl

/-- A thread takes up the completion of a send. -/
theorem Core.complete (h : Core s) (numOfBytes : ℕ) (hstack : s.stack t = [])
    (outstanding : s.sendsOutstanding ≠ 0) :
    Core ({ s with sendsOutstanding := s.sendsOutstanding - 1 }.setStack t
      [.processSend numOfBytes .clear]) := by
  have hle : s.sendsOutstanding ≤ 1 := h.tokens.flight.trans (Bool.toNat_le _)
  have hflag : s.sendRegistered = true := by
    by_contra hne
    have := h.tokens.flight
    rw [Bool.eq_false_of_not_eq_true hne, Bool.toNat_false] at this
    omega
  have hnone : ∀ u, SessionIo.tokens (s.stack u) = 0 := by
    intro u
    have := h.tokens.sole u
    rw [hflag, Bool.toNat_true] at this
    omega
  refine h.of_step rfl rfl rfl rfl (.of_sound trivial ⟨nofun, nofun⟩ nofun trivial)
    (by simp [hstack, Frame.depth]) ?_
    (h.placed.update (by simp [hstack, Frame.moved]) (by simp [hstack, inHand_cons, Frame.hand]))
  change Tokens _ s.sendRegistered (s.sendsOutstanding - 1) _
  rw [hflag, show s.sendsOutstanding - 1 = 0 by omega]
  refine .of_one (t := t) ?_ (fun u hu => ?_) fun _ => ?_
  · simp [Frame.token]
  · rw [Function.update_of_ne hu, hnone u]
  · exact ⟨.processSend numOfBytes .clear, by simp, .inl rfl⟩

/-- A failed `WSASend` is reported with a code that disconnects. -/
def FatalSend (s : State T α) (a : T × Op α) : Prop :=
  ∀ code ok rest, a.2 = .next (.error code) ok → s.stack a.1 = .registerSend .wsaSend :: rest →
    isFatal code = true

/-- One step of the innermost activation. -/
theorem Core.next {result : WsaResult} {ok : Bool} {r : State T α × List (Frame α)} (h : Core s)
    (hstack : s.stack t = f :: rest)
    (fatal : f = .registerSend .wsaSend → ∀ code, result = .error code → isFatal code = true)
    (hstep : stepFrame s t result ok f = some r) (live : r.1.Live) :
    Core (r.1.setStack t (r.2 ++ rest)) := by
  have hlocal := h.locals t
  rw [hstack] at hlocal
  cases f with
  | processConnect pc =>
    cases pc with
    | onConnected =>
      obtain rfl := Option.some.inj hstep
      exact h.advance hstack [.registerRecv .isConnected, .processConnect .leave]
        ⟨rfl, le_refl _, rfl, rfl, rfl⟩ (hlocal.call rfl rfl nofun nofun trivial)
    | leave =>
      obtain rfl := Option.some.inj hstep
      exact h.advance hstack [] ⟨rfl, le_refl _, rfl, rfl, rfl⟩ (hlocal.ret (.inl nofun))
  | processRecv pc =>
    cases pc with
    | checkBytes numOfBytes =>
      simp only [stepFrame] at hstep
      split_ifs at hstep
      · obtain rfl := Option.some.inj hstep
        exact h.advance hstack [.disconnect .exchange, .processRecv .leave]
          ⟨rfl, le_refl _, rfl, rfl, rfl⟩ (hlocal.call rfl rfl nofun nofun rfl)
      · obtain rfl := Option.some.inj hstep
        exact h.advance hstack [.processRecv .loop] ⟨rfl, le_refl _, rfl, rfl, rfl⟩
          (hlocal.replace rfl trivial)
    | loop =>
      simp only [stepFrame] at hstep
      split_ifs at hstep
      · obtain rfl := Option.some.inj hstep
        exact h.advance hstack [.registerRecv .isConnected, .processRecv .leave]
          ⟨rfl, le_refl _, rfl, rfl, rfl⟩ (hlocal.call rfl rfl nofun nofun trivial)
      · obtain rfl := Option.some.inj hstep
        exact h.advance hstack [.disconnect .exchange, .processRecv .leave]
          ⟨rfl, le_refl _, rfl, rfl, rfl⟩ (hlocal.call rfl rfl nofun nofun rfl)
    | leave =>
      obtain rfl := Option.some.inj hstep
      exact h.advance hstack [] ⟨rfl, le_refl _, rfl, rfl, rfl⟩ (hlocal.ret (.inl nofun))
  | processSend numOfBytes pc =>
    cases pc with
    | clear =>
      obtain rfl := Option.some.inj hstep
      exact h.clear hstack
    | checkBytes =>
      simp only [stepFrame] at hstep
      split_ifs at hstep
      · obtain rfl := Option.some.inj hstep
        exact h.advance hstack [.disconnect .exchange, .processSend numOfBytes .leave]
          ⟨rfl, Nat.zero_le _, rfl, rfl, rfl⟩ (hlocal.call rfl rfl nofun nofun rfl)
      · obtain rfl := Option.some.inj hstep
        exact h.advance hstack [.processSend numOfBytes .onSend]
          ⟨rfl, le_refl _, rfl, rfl, rfl⟩ (hlocal.replace rfl trivial)
    | onSend =>
      obtain rfl := Option.some.inj hstep
      exact h.advance hstack [.processSend numOfBytes .lock]
        ⟨rfl, le_refl _, rfl, rfl, rfl⟩ (hlocal.replace rfl trivial)
    | lock =>
      obtain ⟨s₁, hs₁, rfl⟩ := Option.map_eq_some_iff.1 hstep
      have := h.acquire hs₁ hstack (g := .processSend numOfBytes .test)
        (hlocal.replace rfl trivial) rfl rfl rfl rfl rfl [] rfl
      rw [List.append_nil] at this
      exact this
    | test =>
      simp only [stepFrame] at hstep
      split_ifs at hstep
      · obtain rfl := Option.some.inj hstep
        exact h.retire hstack
      · obtain rfl := Option.some.inj hstep
        exact h.advance hstack
          [.registerSend .isConnected, .processSend numOfBytes .unlock]
          ⟨rfl, le_refl _, rfl, rfl, rfl⟩
          (hlocal.call rfl rfl nofun nofun ⟨nofun, nofun, .inl rfl⟩)
    | unlock =>
      obtain rfl := Option.some.inj hstep
      exact h.release hstack [] (hlocal.ret (.inl nofun)) rfl (Nat.zero_le _) rfl rfl rfl
    | leave =>
      obtain rfl := Option.some.inj hstep
      exact h.advance hstack [] ⟨rfl, le_refl _, rfl, rfl, rfl⟩ (hlocal.ret (.inl nofun))
  | registerRecv pc =>
    cases pc with
    | isConnected =>
      simp only [stepFrame] at hstep
      split_ifs at hstep
      · obtain rfl := Option.some.inj hstep
        exact h.advance hstack [.registerRecv .wsaRecv] ⟨rfl, le_refl _, rfl, rfl, rfl⟩
          (hlocal.replace rfl trivial)
      · obtain rfl := Option.some.inj hstep
        exact h.advance hstack [] ⟨rfl, le_refl _, rfl, rfl, rfl⟩
          (hlocal.ret (.inl nofun))
    | wsaRecv =>
      have hok := h.advance hstack [] ⟨rfl, le_refl _, rfl, rfl, rfl⟩
          (hlocal.ret (.inl nofun))
      cases result with
      | success =>
        obtain rfl := Option.some.inj hstep
        exact ⟨hok.connected, hok.locals, hok.held, hok.tokens, hok.placed⟩
      | pending =>
        obtain rfl := Option.some.inj hstep
        exact ⟨hok.connected, hok.locals, hok.held, hok.tokens, hok.placed⟩
      | error code =>
        obtain rfl := Option.some.inj hstep
        unfold handleError
        split_ifs
        · exact h.advance hstack [.disconnect .exchange, .registerRecv .leave]
            ⟨rfl, le_refl _, rfl, rfl, rfl⟩ (hlocal.call rfl rfl nofun nofun rfl)
        · exact h.advance hstack [.registerRecv .leave] ⟨rfl, le_refl _, rfl, rfl, rfl⟩
            (hlocal.replace rfl trivial)
    | leave =>
      obtain rfl := Option.some.inj hstep
      exact h.advance hstack [] ⟨rfl, le_refl _, rfl, rfl, rfl⟩ (hlocal.ret (.inl nofun))
  | registerSend pc =>
    have hopened : pc ≠ .isConnected → s.opened = true :=
      (hlocal.posted pc (by simp)).resolve_left
    cases pc with
    | isConnected =>
      simp only [stepFrame] at hstep
      split_ifs at hstep with hconnected
      · obtain rfl := Option.some.inj hstep
        exact h.advance hstack [.registerSend .lock] ⟨rfl, le_refl _, rfl, rfl, rfl⟩
          (hlocal.replace rfl ⟨nofun, nofun, .inr (h.connected ▸ hconnected)⟩)
      · obtain rfl := Option.some.inj hstep
        exact h.advance hstack [] ⟨rfl, Nat.zero_le _, rfl, rfl, rfl⟩
          (hlocal.ret (.inl nofun))
    | lock =>
      obtain ⟨s₁, hs₁, rfl⟩ := Option.map_eq_some_iff.1 hstep
      have := h.acquire hs₁ hstack (g := .registerSend .move)
        (hlocal.replace rfl ⟨nofun, nofun, .inr (hopened nofun)⟩) rfl rfl rfl rfl rfl [] rfl
      rw [List.append_nil] at this
      exact this
    | move =>
      obtain rfl := Option.some.inj hstep
      exact h.move hstack
    | unlock =>
      obtain rfl := Option.some.inj hstep
      exact h.release hstack [.registerSend .wsaSend]
        (hlocal.replace rfl ⟨nofun, nofun, .inr (hopened nofun)⟩) rfl (le_refl _) rfl rfl rfl
    | wsaSend =>
      cases result with
      | success =>
        obtain rfl := Option.some.inj hstep
        exact h.post hstack
      | pending =>
        obtain rfl := Option.some.inj hstep
        exact h.post hstack
      | error code =>
        obtain rfl := Option.some.inj hstep
        rw [handleError, if_pos (fatal rfl code rfl)]
        exact h.advance hstack [.disconnect .exchange, .registerSend .clear]
          ⟨rfl, le_refl _, rfl, rfl, rfl⟩
          (hlocal.call rfl rfl nofun (fun _ _ => hopened nofun) rfl)
    | clear => exact absurd rfl (hlocal.top _ _ rfl).1
    | store => exact absurd rfl (hlocal.top _ _ rfl).2
  | send sender pc =>
    cases pc with
    | lock =>
      obtain ⟨s₁, hs₁, rfl⟩ := Option.map_eq_some_iff.1 hstep
      exact h.acquire hs₁ hstack (g := .send sender .push) (hlocal.replace rfl trivial) rfl rfl rfl
        rfl rfl [sender] rfl
    | push =>
      obtain rfl := Option.some.inj hstep
      exact h.push hstack
    | exchange =>
      simp only [stepFrame] at hstep
      split_ifs at hstep with hregistered
      · obtain rfl := Option.some.inj hstep
        exact h.advance hstack [.send sender .unlock] ⟨rfl, le_refl _, rfl, rfl, rfl⟩
          (hlocal.replace rfl trivial)
      · obtain rfl := Option.some.inj hstep
        exact h.claim hstack (Bool.eq_false_of_not_eq_true hregistered)
    | unlock =>
      obtain rfl := Option.some.inj hstep
      exact h.release hstack [] (hlocal.ret (.inl nofun)) rfl (Nat.zero_le _) rfl rfl rfl
  | disconnect pc =>
    cases pc with
    | exchange =>
      simp only [stepFrame] at hstep
      split_ifs at hstep with hconnected
      · obtain rfl := Option.some.inj hstep
        exact absurd (live (h.connected ▸ hconnected)) nofun
      · obtain rfl := Option.some.inj hstep
        exact h.advance hstack [] ⟨rfl, le_refl _, rfl, rfl, rfl⟩
          (hlocal.ret (.inr (h.connected ▸ Bool.eq_false_of_not_eq_true hconnected)))
    | onDisconnected => exact absurd rfl hlocal.stacked.1

/-- `Send` and `Disconnect` are called on top of an activation that runs an override. -/
theorem called_of_mayCall {stack : List (Frame α)} (h : mayCall stack = true) :
    Called .send stack ∧ Called .disconnect stack := by
  cases stack with
  | nil => exact ⟨⟨nofun, nofun⟩, nofun, nofun⟩
  | cons f rest =>
    have hf : mayCall [f] = true := by
      rcases f with pc | pc | ⟨n, pc⟩ | pc | pc | ⟨x, pc⟩ | pc <;> cases pc <;> exact h
    refine ⟨hf, ?_⟩
    rcases f with pc | pc | ⟨n, pc⟩ | pc | pc | ⟨x, pc⟩ | pc <;> cases pc <;>
      first | rfl | exact hf

/-- A call of `Send` or `Disconnect` begins. -/
theorem Core.call (h : Core s) (called : Called f.kind (s.stack t)) (sound : f.Sound s.opened)
    (neutral : f.depth = 0 ∧ f.token = 0 ∧ f.keeps = false ∧ f.moved = false ∧ f.hand = none) :
    Core (s.setStack t (f :: s.stack t)) := by
  obtain ⟨h1, h2, h3, h4, h5⟩ := neutral
  refine h.setStack (.of_sound (h.locals t).stacked called (h.locals t).posted sound) ?_ ?_ ?_ ?_ ?_
  · simp [h1]
  · simp [h2]
  · simp [h3]
  · simp [h4]
  · simp [inHand_cons, h5]

/-- A thread without activations takes up a completion. -/
theorem Core.enter (h : Core s) (empty : s.stack t = [])
    (called : Called f.kind ([] : List (Frame α))) (sound : f.Sound s.opened)
    (neutral : f.depth = 0 ∧ f.token = 0 ∧ f.keeps = false ∧ f.moved = false ∧ f.hand = none) :
    Core (s.setStack t [f]) := by
  have hcall := h.call (t := t) (f := f) (by rwa [empty]) sound neutral
  rwa [empty] at hcall

theorem Core.step {a : T × Op α} (h : Core s) (fatal : FatalSend s a) (live : s'.Live)
    (hstep : SessionIo.step s a = some s') : Core s' := by
  obtain ⟨t, op⟩ := a
  cases step_cases hstep with
  | processConnect empty opened =>
    have hnew : Core (s.setStack t [.processConnect .onConnected]) :=
      h.enter empty ⟨nofun, nofun⟩ trivial ⟨rfl, rfl, rfl, rfl, rfl⟩
    exact ⟨rfl, fun u => (hnew.locals u).mono fun _ => rfl, hnew.held, hnew.tokens, hnew.placed⟩
  | @processRecv numOfBytes empty outstanding =>
    have hnew := h.enter empty (f := .processRecv (.checkBytes numOfBytes)) ⟨nofun, nofun⟩ trivial
      ⟨rfl, rfl, rfl, rfl, rfl⟩
    exact ⟨hnew.connected, hnew.locals, hnew.held, hnew.tokens, hnew.placed⟩
  | processSend empty outstanding => exact h.complete _ empty outstanding
  | send may => exact h.call (called_of_mayCall may).1 trivial ⟨rfl, rfl, rfl, rfl, rfl⟩
  | disconnect may => exact h.call (called_of_mayCall may).2 rfl ⟨rfl, rfl, rfl, rfl, rfl⟩
  | next stack step =>
    refine h.next stack ?_ step live
    rintro rfl code rfl
    exact fatal code _ _ rfl stack

end Steps

end SessionIo

end DhNet
