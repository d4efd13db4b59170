import DhNet.Lib.Counting
import DhNet.Lib.System

/-!
# `ObjectPool`

`MakeShared` takes memory from the queue of the pool, or gets new memory with `new Type`, which runs
a constructor, and then runs the constructor again in `Pop`.  The deleter of the last reference runs
the destructor and puts the memory back into the queue.

The calls in progress are those of any number of threads; a call made inside a constructor or a
destructor of another one is a call of its own.  The sections under the lock of the pool are one
step each, and so are the runs of a constructor or a destructor.  A constructor may throw, in `new
Type` or in `Pop`, which then calls `Push`.

* `Inv.owned`: a piece of memory is in the queue, behind one handle, or used by one call.
* `constructed_add_caught`: how many more constructors than destructors have run.
* `objects_balanced_iff`: the two are in balance only as long as the pool is empty.
-/

namespace DhNet

namespace ObjectPool

/-- The point a call has reached: `getMemory` and `allocate` are `GetMemory`, `construct` is the
placement new in `Pop`, and `destroy` and `push` are `Push`. -/
inductive CallPc where
  | idle
  | getMemory
  | allocate
  | construct (memory : ℕ)
  | destroy (memory : ℕ)
  | push (memory : ℕ)
  deriving DecidableEq, Repr

/-- The pool, the calls in progress and the handles that are alive.  Of each piece of memory
`objects` says how many constructors more than destructors were run on it.  `constructed` and
`destroyed` count the constructors that returned and the destructors, `caught` the exceptions caught
in `Pop`, and `doubled` says that a constructor was run where an object was not destroyed. -/
structure State (T : Type*) where
  queue : List ℕ
  poolSize : ℕ
  usedSize : ℤ
  handles : List ℕ
  objects : ℕ → ℤ
  constructed : ℕ
  destroyed : ℕ
  caught : ℕ
  doubled : Bool
  call : T → CallPc

/-- What happens: a call of `MakeShared` begins, the last reference to an object goes away, or a
call goes on, in which a constructor may throw. -/
inductive Op where
  | makeShared
  | release (memory : ℕ)
  | next (throws : Bool)
  deriving DecidableEq, Repr

section Model

variable {T : Type*} [DecidableEq T]

def State.setCall (s : State T) (t : T) (pc : CallPc) : State T :=
  { s with call := Function.update s.call t pc }

theorem call_of_ne {s s' : State T} {t : T} {pc : CallPc}
    (hcall : s'.call = Function.update s.call t pc) {k : T} (h : k ≠ t) :
    s'.call k = s.call k := by
  rw [hcall]
  exact Function.update_of_ne h ..

/-- The section of `GetMemory` under the lock, up to `new Type`. -/
def getMemory (s : State T) (t : T) : State T :=
  match s.queue with
  | [] => s.setCall t .allocate
  | memory :: rest =>
      { s with queue := rest, usedSize := s.usedSize + 1 }.setCall t (.construct memory)

/-- The rest of `GetMemory` when `new Type` has returned. -/
def grow (s : State T) (t : T) : State T :=
  { s with
    poolSize := s.poolSize + 1
    usedSize := s.usedSize + 1
    objects := Function.update s.objects s.poolSize 1
    constructed := s.constructed + 1 }.setCall t (.construct s.poolSize)

/-- `new Type` and the rest of `GetMemory`. -/
def allocate (s : State T) (t : T) (throws : Bool) : State T :=
  if throws then s.setCall t .idle else grow s t

/-- The placement new of `Pop`. -/
def construct (s : State T) (t : T) (memory : ℕ) (throws : Bool) : State T :=
  if throws then
    { s with
      doubled := s.doubled || s.objects memory ≠ 0
      caught := s.caught + 1 }.setCall t (.destroy memory)
  else
    { s with
      doubled := s.doubled || s.objects memory ≠ 0
      objects := Function.update s.objects memory (s.objects memory + 1)
      constructed := s.constructed + 1
      handles := memory :: s.handles }.setCall t .idle

/-- The destructor run of `Push`. -/
def destroy (s : State T) (t : T) (memory : ℕ) : State T :=
  { s with
    objects := Function.update s.objects memory (s.objects memory - 1)
    destroyed := s.destroyed + 1 }.setCall t (.push memory)

/-- The section of `Push` under the lock. -/
def push (s : State T) (t : T) (memory : ℕ) : State T :=
  { s with queue := s.queue ++ [memory], usedSize := s.usedSize - 1 }.setCall t .idle

/-- One step of a call. -/
def next (s : State T) (t : T) (throws : Bool) : CallPc → Option (State T)
  | .idle => none
  | .getMemory => some (getMemory s t)
  | .allocate => some (allocate s t throws)
  | .construct memory => some (construct s t memory throws)
  | .destroy memory => some (destroy s t memory)
  | .push memory => some (push s t memory)

/-- One step. -/
def step (s : State T) (a : T × Op) : Option (State T) :=
  match a.2 with
  | .makeShared => if s.call a.1 = .idle then some (s.setCall a.1 .getMemory) else none
  | .release memory =>
      if s.call a.1 = .idle ∧ memory ∈ s.handles then
        some ({ s with handles := s.handles.erase memory }.setCall a.1 (.destroy memory))
      else none
  | .next throws => next s a.1 throws (s.call a.1)

/-- An unused pool. -/
def State.initial : State T := ⟨[], 0, 0, [], fun _ => 0, 0, 0, 0, false, fun _ => .idle⟩

/-- A pool in use. -/
def system (T : Type*) [DecidableEq T] : Transition.System (State T) (T × Op) :=
  ⟨(· = .initial), step⟩

/-- No operation of the pool is in progress. -/
def State.Quiescent (s : State T) : Prop := ∀ t, s.call t = .idle

/-- As many constructors more than destructors have run as there are handles, and no constructor was
run where an object was not destroyed. -/
def State.Balanced (s : State T) : Prop :=
  (s.constructed : ℤ) - s.destroyed = s.handles.length ∧ s.doubled = false

end Model

/-! ## Memory in use -/

/-- A call uses a piece of memory. -/
def CallPc.uses (memory : ℕ) : CallPc → ℕ
  | .idle | .getMemory | .allocate => 0
  | .construct m | .destroy m | .push m => if m = memory then 1 else 0

/-- A call is about to run a destructor. -/
def CallPc.destroys : CallPc → ℕ
  | .destroy _ => 1
  | _ => 0

section Uses

variable (m memory : ℕ)

@[simp] theorem CallPc.uses_idle : CallPc.idle.uses memory = 0 := rfl

@[simp] theorem CallPc.uses_getMemory : CallPc.getMemory.uses memory = 0 := rfl

@[simp] theorem CallPc.uses_allocate : CallPc.allocate.uses memory = 0 := rfl

@[simp] theorem CallPc.uses_construct :
    (CallPc.construct m).uses memory = if m = memory then 1 else 0 := rfl

@[simp] theorem CallPc.uses_destroy :
    (CallPc.destroy m).uses memory = if m = memory then 1 else 0 := rfl

@[simp] theorem CallPc.uses_push :
    (CallPc.push m).uses memory = if m = memory then 1 else 0 := rfl

@[simp] theorem CallPc.destroys_idle : CallPc.idle.destroys = 0 := rfl

@[simp] theorem CallPc.destroys_construct : (CallPc.construct m).destroys = 0 := rfl

@[simp] theorem CallPc.destroys_destroy : (CallPc.destroy m).destroys = 1 := rfl

@[simp] theorem CallPc.destroys_push : (CallPc.push m).destroys = 0 := rfl

end Uses

section Invariant

variable {T : Type*} [Fintype T] {s s' : State T} {t : T}

/-- How often a piece of memory is in the queue, behind a handle, or used by a call. -/
def State.owners (s : State T) (memory : ℕ) : ℕ :=
  s.queue.count memory + s.handles.count memory + ∑ t, (s.call t).uses memory

/-- A piece of memory of the pool has one owner; the constructors that returned and the exceptions
caught are as many as the destructors, those to come, the handles and the pieces of memory; each
piece of memory was constructed twice or is about to be; and nothing was done in an empty pool. -/
structure Inv (s : State T) : Prop where
  owned : ∀ m, s.owners m = if m < s.poolSize then 1 else 0
  law : s.constructed + s.caught =
    s.destroyed + s.handles.length + s.poolSize + ∑ t, (s.call t).destroys
  doubled : ∀ m, m < s.poolSize →
    s.doubled = true ∨ ∃ t, s.call t = .construct m ∧ s.objects m ≠ 0
  unused : s.poolSize = 0 → s.caught = 0 ∧ s.doubled = false

theorem Inv.lt_of_uses (inv : Inv s) {m : ℕ} (h : 0 < (s.call t).uses m) : m < s.poolSize := by
  have hle : (s.call t).uses m ≤ ∑ k, (s.call k).uses m :=
    Finset.single_le_sum (f := fun k => (s.call k).uses m) (fun _ _ => Nat.zero_le _)
      (Finset.mem_univ t)
  have howned := inv.owned m
  rw [State.owners] at howned
  by_contra hlt
  rw [if_neg hlt] at howned
  omega

/-- A step of one call after which all memory is still constructed twice. -/
theorem Inv.doubled_of (inv : Inv s) (hcall : ∀ k, k ≠ t → s'.call k = s.call k)
    (hdoubled : s.doubled = true → s'.doubled = true)
    (hobjects : ∀ k m, k ≠ t → s.call k = .construct m → s'.objects m = s.objects m)
    (hself : ∀ m, s.call t = .construct m → s.objects m ≠ 0 → s'.doubled = true) {m : ℕ}
    (hm : m < s.poolSize) :
    s'.doubled = true ∨ ∃ k, s'.call k = .construct m ∧ s'.objects m ≠ 0 := by
  rcases inv.doubled m hm with h | ⟨k, hk, hobject⟩
  · exact .inl (hdoubled h)
  · rcases eq_or_ne k t with rfl | hne
    · exact .inl (hself m hk hobject)
    · exact .inr ⟨k, (hcall k hne).trans hk, (hobjects k m hne hk) ▸ hobject⟩

variable [DecidableEq T] {pc : CallPc}

/-- Two calls do not use the same memory. -/
theorem Inv.memory_ne (inv : Inv s) {m memory : ℕ} (ht : 0 < (s.call t).uses memory) {k : T}
    (hk : s.call k = .construct m) (hne : k ≠ t) : m ≠ memory := by
  rintro rfl
  have howned := inv.owned m
  rw [State.owners] at howned
  refine hne (Counting.eq_of_sum_le_one (fun k => (s.call k).uses m) ?_ ?_ ht)
  · split_ifs at howned <;> omega
  · simp [hk]

theorem owners_add (hcall : s'.call = Function.update s.call t pc) (m : ℕ) :
    s'.owners m + (s.queue.count m + s.handles.count m + (s.call t).uses m) =
      s.owners m + (s'.queue.count m + s'.handles.count m + pc.uses m) := by
  have hsum := Counting.sum_update_add s.call (·.uses m) t pc
  rw [State.owners, State.owners, hcall]
  omega

theorem sum_destroys_add (hcall : s'.call = Function.update s.call t pc) :
    ∑ k, (s'.call k).destroys + (s.call t).destroys = ∑ k, (s.call k).destroys + pc.destroys := by
  rw [hcall]
  exact Counting.sum_update_add s.call (·.destroys) t pc

/-- A step of one call that runs no constructor and no destructor and makes no memory. -/
theorem Inv.of_step (inv : Inv s) (hcall : s'.call = Function.update s.call t pc)
    (hpoolSize : s'.poolSize = s.poolSize) (hobjects : s'.objects = s.objects)
    (hcaught : s'.caught = s.caught) (hdoubled : s'.doubled = s.doubled)
    (hcounts : s'.constructed = s.constructed ∧ s'.destroyed = s.destroyed)
    (hidle : ∀ m, s.call t ≠ .construct m)
    (howners : ∀ m, s'.queue.count m + s'.handles.count m + pc.uses m =
      s.queue.count m + s.handles.count m + (s.call t).uses m)
    (hlaw : s'.handles.length + pc.destroys = s.handles.length + (s.call t).destroys) : Inv s' where
  owned m := by
    have hadd := owners_add hcall m
    rw [howners m] at hadd
    rw [Nat.add_right_cancel hadd, hpoolSize]
    exact inv.owned m
  law := by
    have hadd := sum_destroys_add hcall
    have := inv.law
    rw [hcaught, hcounts.1, hcounts.2, hpoolSize]
    omega
  doubled m hm := inv.doubled_of (fun k hk => call_of_ne hcall hk) (hdoubled ▸ id)
    (fun _ _ _ _ => by rw [hobjects]) (fun m h => absurd h (hidle m)) (hpoolSize ▸ hm)
  unused h := by
    rw [hcaught, hdoubled]
    exact inv.unused (hpoolSize ▸ h)

/-! ## The steps -/

theorem Inv.makeShared (inv : Inv s) (hpc : s.call t = .idle) : Inv (s.setCall t .getMemory) :=
  inv.of_step (t := t) rfl rfl rfl rfl rfl ⟨rfl, rfl⟩ (by simp [hpc]) (by simp [hpc, State.setCall])
    (by rw [hpc]; rfl)

theorem Inv.release (inv : Inv s) {memory : ℕ} (hpc : s.call t = .idle)
    (hmem : memory ∈ s.handles) :
    Inv ({ s with handles := s.handles.erase memory }.setCall t (.destroy memory)) := by
  refine inv.of_step (t := t) rfl rfl rfl rfl rfl ⟨rfl, rfl⟩ (by simp [hpc]) (fun m => ?_) ?_
  · have hpos := List.count_pos_iff.2 hmem
    rw [hpc, CallPc.uses_idle, CallPc.uses_destroy]
    simp only [State.setCall, List.count_erase, beq_iff_eq]
    split_ifs with heq
    · subst heq
      omega
    · omega
  · have hlength := List.length_erase_of_mem hmem
    have hpos := List.length_pos_of_mem hmem
    simp only [hpc, CallPc.destroys, State.setCall]
    omega

theorem Inv.getMemory (inv : Inv s) (hpc : s.call t = .getMemory) : Inv (getMemory s t) := by
  unfold ObjectPool.getMemory
  cases hqueue : s.queue with
  | nil =>
    exact inv.of_step (t := t) rfl rfl rfl rfl rfl ⟨rfl, rfl⟩ (by simp [hpc])
      (by simp [hpc, hqueue, State.setCall]) (by rw [hpc]; rfl)
  | cons memory rest =>
    refine inv.of_step (t := t) rfl rfl rfl rfl rfl ⟨rfl, rfl⟩ (by simp [hpc]) (fun m => ?_)
      (by rw [hpc]; rfl)
    simp only [hpc, CallPc.uses_getMemory, CallPc.uses_construct, State.setCall, hqueue,
      List.count_cons, beq_iff_eq]
    omega

theorem Inv.push (inv : Inv s) {memory : ℕ} (hpc : s.call t = .push memory) :
    Inv (push s t memory) := by
  refine inv.of_step (t := t) rfl rfl rfl rfl rfl ⟨rfl, rfl⟩ (by simp [hpc]) (fun m => ?_)
    (by rw [hpc]; rfl)
  simp only [hpc, CallPc.uses_push, CallPc.uses_idle, ObjectPool.push, State.setCall,
    List.count_append, List.count_singleton, beq_iff_eq]
  omega

theorem Inv.destroy (inv : Inv s) {memory : ℕ} (hpc : s.call t = .destroy memory) :
    Inv (destroy s t memory) := by
  have hcall : (ObjectPool.destroy s t memory).call = Function.update s.call t (.push memory) := rfl
  have huses : 0 < (s.call t).uses memory := by simp [hpc]
  refine ⟨fun m => ?_, ?_, fun m hm => ?_, inv.unused⟩
  · have hadd := owners_add hcall m
    rw [hpc, CallPc.uses_destroy, CallPc.uses_push] at hadd
    exact (Nat.add_right_cancel hadd).trans (inv.owned m)
  · have hadd := sum_destroys_add hcall
    have := inv.law
    rw [hpc, CallPc.destroys_destroy, CallPc.destroys_push] at hadd
    dsimp only [ObjectPool.destroy, State.setCall] at hadd ⊢
    omega
  · refine inv.doubled_of (fun k hk => call_of_ne hcall hk) id (fun k m hne hk => ?_)
      (fun m h => by rw [hpc] at h; cases h) hm
    exact Function.update_of_ne (inv.memory_ne huses hk hne) ..

theorem Inv.grow (inv : Inv s) (hpc : s.call t = .allocate) : Inv (grow s t) := by
  have hcall : (ObjectPool.grow s t).call = Function.update s.call t (.construct s.poolSize) := rfl
  have hobjects : (ObjectPool.grow s t).objects = Function.update s.objects s.poolSize 1 := rfl
  have hpoolSize : (ObjectPool.grow s t).poolSize = s.poolSize + 1 := rfl
  refine ⟨fun m => ?_, ?_, fun m hm => ?_, nofun⟩
  · have hadd := owners_add hcall m
    rw [inv.owned m, hpc, CallPc.uses_allocate, CallPc.uses_construct] at hadd
    rw [hpoolSize]
    dsimp only [ObjectPool.grow, State.setCall] at hadd ⊢
    rcases Nat.lt_trichotomy m s.poolSize with hlt | rfl | hgt
    · rw [if_pos hlt, if_neg hlt.ne'] at hadd
      rw [if_pos (hlt.trans (Nat.lt_succ_self _))]
      omega
    · rw [if_neg (lt_irrefl _), if_pos rfl] at hadd
      rw [if_pos (Nat.lt_succ_self _)]
      omega
    · rw [if_neg hgt.not_gt, if_neg hgt.ne] at hadd
      rw [if_neg (by omega)]
      omega
  · have hadd := sum_destroys_add hcall
    have := inv.law
    rw [hpc, CallPc.destroys_construct] at hadd
    dsimp only [ObjectPool.grow, State.setCall] at hadd ⊢
    rw [Nat.add_right_cancel hadd]
    omega
  · rcases Nat.lt_succ_iff_lt_or_eq.1 (hpoolSize ▸ hm) with hlt | rfl
    · refine inv.doubled_of (fun k hk => call_of_ne hcall hk) id (fun k m hne hk => ?_)
        (fun m h => by rw [hpc] at h; cases h) hlt
      rw [hobjects]
      exact Function.update_of_ne (inv.lt_of_uses (t := k) (by simp [hk])).ne ..
    · refine .inr ⟨t, by rw [hcall, Function.update_self], ?_⟩
      rw [hobjects, Function.update_self]
      decide

theorem Inv.allocate (inv : Inv s) (hpc : s.call t = .allocate) (throws : Bool) :
    Inv (allocate s t throws) := by
  unfold ObjectPool.allocate
  split_ifs
  · exact inv.of_step (t := t) rfl rfl rfl rfl rfl ⟨rfl, rfl⟩ (by simp [hpc])
      (by simp [hpc, State.setCall]) (by rw [hpc]; rfl)
  · exact inv.grow hpc

theorem Inv.construct (inv : Inv s) {memory : ℕ} (hpc : s.call t = .construct memory)
    (throws : Bool) : Inv (construct s t memory throws) := by
  have huses : 0 < (s.call t).uses memory := by simp [hpc]
  have hused : ∀ n, n = s.poolSize → n = 0 → False := by
    have := inv.lt_of_uses huses
    omega
  -- the memory that holds an object is constructed a second time now
  have hself : ∀ m, s.call t = .construct m → s.objects m ≠ 0 →
      (s.doubled || decide (s.objects memory ≠ 0)) = true := by
    intro m hm hobject
    obtain rfl : memory = m := CallPc.construct.inj (hpc.symm.trans hm)
    simp [hobject]
  have hdoubled : s.doubled = true → (s.doubled || decide (s.objects memory ≠ 0)) = true := by
    intro h
    rw [h, Bool.true_or]
  cases throws with
  | true =>
    have hcall : (ObjectPool.construct s t memory true).call =
      Function.update s.call t (.destroy memory) := rfl
    refine ⟨fun m => ?_, ?_, fun m hm => ?_, fun h => (hused _ rfl h).elim⟩
    · have hadd := owners_add hcall m
      rw [hpc, CallPc.uses_construct, CallPc.uses_destroy] at hadd
      exact (Nat.add_right_cancel hadd).trans (inv.owned m)
    · have hadd := sum_destroys_add hcall
      have hlaw := inv.law
      rw [hpc, CallPc.destroys_construct, CallPc.destroys_destroy] at hadd
      simp only [ObjectPool.construct, if_true, State.setCall] at hadd ⊢
      omega
    · exact inv.doubled_of (fun k hk => call_of_ne hcall hk) hdoubled (fun _ _ _ _ => rfl) hself hm
  | false =>
    have hcall : (ObjectPool.construct s t memory false).call =
        Function.update s.call t .idle := rfl
    have hobjects : (ObjectPool.construct s t memory false).objects =
      Function.update s.objects memory (s.objects memory + 1) := rfl
    refine ⟨fun m => ?_, ?_, fun m hm => ?_, fun h => (hused _ rfl h).elim⟩
    · have hadd := owners_add hcall m
      have hcount : (ObjectPool.construct s t memory false).handles.count m =
          s.handles.count m + if memory = m then 1 else 0 := by
        simp only [ObjectPool.construct, Bool.false_eq_true, if_false, State.setCall,
          List.count_cons, beq_iff_eq]
      have hqueue : (ObjectPool.construct s t memory false).queue = s.queue := rfl
      rw [hpc, CallPc.uses_construct, CallPc.uses_idle, hcount, hqueue] at hadd
      have hsame : (ObjectPool.construct s t memory false).owners m = s.owners m := by omega
      exact hsame.trans (inv.owned m)
    · have hadd := sum_destroys_add hcall
      have hlaw := inv.law
      rw [hpc, CallPc.destroys_construct, CallPc.destroys_idle] at hadd
      simp only [ObjectPool.construct, Bool.false_eq_true, if_false, State.setCall,
        List.length_cons] at hadd ⊢
      omega
    · refine inv.doubled_of (fun k hk => call_of_ne hcall hk) hdoubled (fun k m hne hk => ?_)
        hself hm
      rw [hobjects]
      exact Function.update_of_ne (inv.memory_ne huses hk hne) ..

theorem Inv.step (inv : Inv s) {a : T × Op} (h : step s a = some s') : Inv s' := by
  obtain ⟨t, op⟩ := a
  cases op with
  | makeShared =>
    obtain ⟨hpc, ⟨⟩⟩ := Option.ite_none_right_eq_some.1 h
    exact inv.makeShared hpc
  | release memory =>
    obtain ⟨⟨hpc, hmem⟩, ⟨⟩⟩ := Option.ite_none_right_eq_some.1 h
    exact inv.release hpc hmem
  | next throws =>
    change next s t throws (s.call t) = some s' at h
    cases hpc : s.call t with
    | idle =>
      rw [hpc] at h
      cases h
    | getMemory =>
      rw [hpc] at h
      exact Option.some.inj h ▸ inv.getMemory hpc
    | allocate =>
      rw [hpc] at h
      exact Option.some.inj h ▸ inv.allocate hpc throws
    | construct memory =>
      rw [hpc] at h
      exact Option.some.inj h ▸ inv.construct hpc throws
    | destroy memory =>
      rw [hpc] at h
      exact Option.some.inj h ▸ inv.destroy hpc
    | push memory =>
      rw [hpc] at h
      exact Option.some.inj h ▸ inv.push hpc

theorem inv_of_reachable (h : (system T).Reachable s) : Inv s := by
  refine h.invariant (P := Inv) ?_ fun _ _ _ inv ht => inv.step ht
  rintro _ rfl
  refine ⟨fun m => ?_, ?_, nofun, fun _ => ⟨rfl, rfl⟩⟩
  · simp [State.owners, State.initial]
  · simp [State.initial]

/-- When no operation is in progress, the constructors that have returned outnumber the destructors
by the handles and the pieces of memory that were made, less the exceptions caught. -/
theorem constructed_add_caught (h : (system T).Reachable s) (hquiet : s.Quiescent) :
    s.constructed + s.caught = s.destroyed + s.handles.length + s.poolSize := by
  have hsum : ∑ t, (s.call t).destroys = 0 := by
    refine Finset.sum_eq_zero fun t _ => ?_
    rw [hquiet t, CallPc.destroys_idle]
  rw [(inv_of_reachable h).law, hsum, Nat.add_zero]

/-- When no operation is in progress, constructors and destructors are in balance and no constructor
was run over an object exactly if the pool has made no memory. -/
theorem objects_balanced_iff (h : (system T).Reachable s) (hquiet : s.Quiescent) :
    s.Balanced ↔ s.poolSize = 0 := by
  have inv := inv_of_reachable h
  constructor
  · rintro ⟨-, hdoubled⟩
    by_contra hsize
    rcases inv.doubled 0 (Nat.pos_of_ne_zero hsize) with htwice | ⟨t, ht, -⟩
    · rw [hdoubled] at htwice
      cases htwice
    · rw [hquiet t] at ht
      cases ht
  · intro hsize
    obtain ⟨hcaught, hdoubled⟩ := inv.unused hsize
    refine ⟨?_, hdoubled⟩
    have hlaw := constructed_add_caught h hquiet
    omega

/-- A call whose `new Type` throws leaves the pool in balance. -/
theorem objects_balanced_iff_throws : ∃ s : State (Fin 1),
    (system (Fin 1)).Reachable s ∧ s.Quiescent ∧ s.Balanced := by
  obtain ⟨s, hrun, hquiet, hsize⟩ : ∃ s : State (Fin 1), (system (Fin 1)).run .initial
      [(0, .makeShared), (0, .next false), (0, .next true)] = some s ∧ s.Quiescent ∧
        s.poolSize = 0 :=
    Transition.System.exists_final (by decide) ⟨fun t => by fin_cases t; rfl, rfl⟩
  have hreach := Transition.System.reachable_of_run (.init rfl) hrun
  exact ⟨s, hreach, hquiet, (objects_balanced_iff hreach hquiet).2 hsize⟩

/-- One object is made and released: two constructors were run, the second one over the first
object, and one destructor. -/
theorem object_constructed_twice : ∃ s : State (Fin 1),
    (system (Fin 1)).Reachable s ∧ s.Quiescent ∧ s.constructed = 2 ∧ s.destroyed = 1 ∧
      s.handles = [] ∧ s.doubled = true := by
  obtain ⟨s, hrun, hrest⟩ : ∃ s : State (Fin 1), (system (Fin 1)).run .initial
      [(0, .makeShared), (0, .next false), (0, .next false), (0, .next false), (0, .release 0),
        (0, .next false), (0, .next false)] = some s ∧ s.Quiescent ∧ s.constructed = 2 ∧
      s.destroyed = 1 ∧ s.handles = [] ∧ s.doubled = true :=
    Transition.System.exists_final (by decide)
      ⟨fun t => by fin_cases t; rfl, rfl, rfl, rfl, rfl⟩
  exact ⟨s, Transition.System.reachable_of_run (.init rfl) hrun, hrest⟩

end Invariant

end ObjectPool

end DhNet
