import DhNet.Util.JobQueueProof

/-!
# Draining the job queues

From every reachable state the threads can bring all queues to rest without a new `DoAsync`, and
then every job entered has run.  The pushers go first.  Without a pusher between its two steps, an
executor that is about to take a batch finds jobs (`Inv.work`), and every step lowers a weight that
has a summand for each activation, each entry of the global queue and each job in `m_jobs`.
-/

open Finset

namespace DhNet

namespace JobQueue

variable {Q J T : Type*}

/-! ## What an executor finds -/

/-- The thread is between the two steps of a `Push` to `q`. -/
def Thread.Pushes (q : Q) (th : Thread Q J) : Prop :=
  ∃ job prevCount rest, th.stack = .push q job (.enqueue prevCount) :: rest

/-- A call of `Push` on a stack is the innermost activation or has started an `Execute`. -/
theorem Thread.Shape.push_mem {th : Thread Q J} (h : th.Shape) {q : Q} {job : J} {pc : PushPc}
    (hmem : .push q job pc ∈ th.stack) (hpc : pc ≠ .executing) :
    ∃ rest, th.stack = .push q job pc :: rest := by
  unfold Thread.Shape at h
  split at h
  · simp_all
  · simp_all
  · simp_all
  · rename_i q' pc' base heq
    rw [heq, List.mem_cons, List.mem_singleton] at hmem
    rcases hmem with hmem | rfl
    · cases hmem
    · cases pc <;> simp_all [Frame.Calls]
  · rename_i q₁ job₁ pc₁ q₂ job₂ jobs₂ n base heq
    rw [heq, List.mem_cons, List.mem_cons, List.mem_singleton] at hmem
    rcases hmem with hmem | hmem | rfl
    · cases hmem
      exact ⟨_, heq⟩
    · cases hmem
    · cases pc <;> simp_all [Frame.Calls]
  · exact h.elim

theorem ExecutePc.holds_of_batch {pc : ExecutePc J} (h : 0 < pc.batch) : pc.holds = true := by
  cases pc <;> first | rfl | cases h

/-- A sum over activations that contribute nothing. -/
theorem sum_map_eq_zero (f : Frame Q J → ℕ) (stack : List (Frame Q J))
    (h : ∀ frame ∈ stack, f frame = 0) : (stack.map f).sum = 0 := by
  rw [List.sum_eq_zero]
  intro n hn
  obtain ⟨frame, hf, rfl⟩ := List.mem_map.1 hn
  exact h frame hf

section Work

variable [DecidableEq Q] [Fintype T] {s : State Q J T} {t : T} {q : Q}

/-- A queue with a positive counter of which nobody has a batch has a job in `m_jobs`, or somebody
is about to enter one. -/
theorem Inv.work_of_no_batch (inv : Inv s) (hpos : 0 < s.jobCount q)
    (hbatch : ∀ t pc, .execute q pc ∈ (s.thread t).stack → pc.batch = 0) :
    s.jobs q ≠ [] ∨ ∃ t, (s.thread t).Pushes q := by
  by_contra hnone
  rw [not_or, not_not, not_exists] at hnone
  obtain ⟨hjobs, hpushes⟩ := hnone
  have hflight : s.inFlight q = 0 := by
    refine Finset.sum_eq_zero fun t _ => sum_map_eq_zero _ _ fun frame hf => ?_
    by_contra hne
    cases frame with
    | push q' job pc =>
      simp only [Frame.inFlight, ite_eq_right_iff, Classical.not_imp] at hne
      obtain ⟨rfl, hcounted⟩ := hne
      cases pc with
      | enqueue prevCount =>
        obtain ⟨rest, hstack⟩ := (inv.shape t).push_mem hf (by simp)
        exact hpushes t ⟨job, prevCount, rest, hstack⟩
      | _ => exact hcounted rfl
    | execute q' pc =>
      simp only [Frame.inFlight, ite_eq_right_iff, Classical.not_imp] at hne
      obtain ⟨rfl, hne⟩ := hne
      exact hne (hbatch t pc hf)
    | globalQueueWork => exact hne rfl
  have hcount := (inv.queue q).count
  rw [hjobs, hflight] at hcount
  simp only [List.length_nil, Nat.cast_zero, add_zero] at hcount
  omega

/-- A queue that waits in the global queue has work. -/
theorem Inv.waits (inv : Inv s) (hmem : q ∈ s.globalQueue) :
    s.jobs q ≠ [] ∨ ∃ t, (s.thread t).Pushes q := by
  have hq := inv.queue q
  obtain ⟨i, hi⟩ := List.mem_iff_getElem?.1 hmem
  have hentry : s.HasToken q (.entry i) := hi
  refine inv.work_of_no_batch ?_ fun t pc hpc => ?_
  · have hpos := (exists_hasToken_iff s q).1 ⟨_, hentry⟩
    rw [hq.token] at hpos
    omega
  · by_contra hne
    obtain ⟨d, hd⟩ := List.mem_iff_getElem?.1 hpc
    exact hq.not_activation_of_entry hentry
      ⟨_, hd, rfl, ExecutePc.holds_of_batch (Nat.pos_of_ne_zero hne)⟩

variable [DecidableEq T]

/-- An executor that holds the token without a batch has work. -/
theorem Inv.work (inv : Inv s) {pc : ExecutePc J} (hmem : .execute q pc ∈ (s.thread t).stack)
    (hholds : pc.holds = true) (hbatch : pc.batch = 0) :
    s.jobs q ≠ [] ∨ ∃ t', (s.thread t').Pushes q := by
  have hq := inv.queue q
  obtain ⟨d, hd⟩ := List.mem_iff_getElem?.1 hmem
  refine inv.work_of_no_batch ?_ fun t' pc' hpc' => ?_
  · refine hq.jobCount_pos (tokens_pos_of_mem hmem ?_)
    simp [Frame.tokens, hholds]
  · by_contra hne
    -- two executors with the token are the same one, and this one has no batch
    obtain ⟨d', hd'⟩ := List.mem_iff_getElem?.1 hpc'
    obtain ⟨rfl, rfl⟩ := hq.activation_unique ⟨_, hd, rfl, hholds⟩
      ⟨_, hd', rfl, ExecutePc.holds_of_batch (Nat.pos_of_ne_zero hne)⟩
    cases hd.symm.trans hd'
    exact hne hbatch

end Work

/-! ## The weight of a state -/

/-- The weight of a call of `Push`. -/
def PushPc.weight : PushPc → ℕ
  | .fetchAdd => 15
  | .enqueue _ => 14
  | .handOver _ => 7
  | .executing => 1

/-- The weight of a call of `Execute`. -/
def ExecutePc.weight : ExecutePc J → ℕ
  | .enter => 3
  | .popAll => 2
  | .run jobs _ => 5 + 2 * jobs.length
  | .running _ jobs _ => 6 + 2 * jobs.length
  | .fetchSub _ => 4
  | .checkTime => 3
  | .leave => 1
  | .rePush => 7

/-- The weight of an activation. -/
def Frame.weight : Frame Q J → ℕ
  | .push _ _ pc => pc.weight
  | .execute _ pc => pc.weight
  | .globalQueueWork => 1

/-- The weight of the activations of a thread. -/
def Thread.weight (th : Thread Q J) : ℕ := (th.stack.map Frame.weight).sum

/-- The jobs in `m_jobs` of some queues. -/
def State.load (s : State Q J T) (queues : Finset Q) : ℕ := ∑ q ∈ queues, (s.jobs q).length

/-- The other queues have no jobs. -/
def State.Covers (s : State Q J T) (queues : Finset Q) : Prop := ∀ q, q ∉ queues → s.jobs q = []

/-- The weight of a state whose jobs are in some queues. -/
def State.weight [Fintype T] (s : State Q J T) (queues : Finset Q) : ℕ :=
  6 * s.globalQueue.length + ∑ t, (s.thread t).weight + 6 * s.load queues

/-- The second state weighs less. -/
def Lighter [Fintype T] (s s' : State Q J T) (queues : Finset Q) : Prop :=
  ∃ queues', s'.Covers queues' ∧ s'.weight queues' < s.weight queues

theorem State.Covers.update [DecidableEq Q] {s s' : State Q J T} {queues : Finset Q}
    (h : s.Covers queues) (q : Q) (jobs : List J)
    (hjobs : s'.jobs = Function.update s.jobs q jobs) :
    s'.Covers (insert q queues) ∧
      s'.load (insert q queues) + (s.jobs q).length = s.load queues + jobs.length := by
  constructor
  · intro q' hq'
    rw [Finset.mem_insert, not_or] at hq'
    rw [hjobs, Function.update_of_ne hq'.1]
    exact h q' hq'.2
  · have hload : ∑ q' ∈ insert q queues, (s.jobs q').length = s.load queues := by
      refine Finset.sum_insert_of_eq_zero_if_notMem fun hq => ?_
      rw [h q hq, List.length_nil]
    rw [← hload, State.load, hjobs]
    exact Counting.sum_update_add_of_mem (Finset.mem_insert_self q queues) s.jobs List.length jobs

section Lighter

variable [Fintype T] [DecidableEq T] {s s' : State Q J T} {t : T} {q : Q} {job : J}
  {current current' : Option Q} {old rest : List (Frame Q J)} {queues : Finset Q}

/-- A thread replaces its innermost activations by lighter ones. -/
theorem lighter_of_replace (hth : s.thread t = ⟨current, old ++ rest⟩) (new : List (Frame Q J))
    (h : s'.thread = Function.update s.thread t ⟨current', new ++ rest⟩) {queues' : Finset Q}
    (hcover : s'.Covers queues')
    (hlt : 6 * s'.globalQueue.length + (new.map Frame.weight).sum + 6 * s'.load queues' <
      6 * s.globalQueue.length + (old.map Frame.weight).sum + 6 * s.load queues) :
    Lighter s s' queues := by
  refine ⟨queues', hcover, ?_⟩
  have hsum := Counting.sum_update_add s.thread Thread.weight t ⟨current', new ++ rest⟩
  rw [← h, hth] at hsum
  simp only [Thread.weight, List.map_append, List.sum_append] at hsum
  unfold State.weight
  simp only [Thread.weight]
  omega

/-- The same when `m_jobs` of all queues stay as they are. -/
theorem lighter_of_same (hcover : s.Covers queues) (hth : s.thread t = ⟨current, old ++ rest⟩)
    (new : List (Frame Q J)) (h : s'.thread = Function.update s.thread t ⟨current', new ++ rest⟩)
    (hjobs : s'.jobs = s.jobs)
    (hlt : 6 * s'.globalQueue.length + (new.map Frame.weight).sum <
      6 * s.globalQueue.length + (old.map Frame.weight).sum) : Lighter s s' queues := by
  have hload : s'.load queues = s.load queues := by rw [State.load, hjobs, State.load]
  have hcover' : s'.Covers queues := by
    intro q hq
    rw [hjobs]
    exact hcover q hq
  exact lighter_of_replace hth new h hcover' (by omega)

/-- The same when the global queue stays as it is, too. -/
theorem lighter_of_frames (hcover : s.Covers queues) (hth : s.thread t = ⟨current, old ++ rest⟩)
    (new : List (Frame Q J)) (h : s'.thread = Function.update s.thread t ⟨current', new ++ rest⟩)
    (hjobs : s'.jobs = s.jobs) (hglobal : s'.globalQueue = s.globalQueue)
    (hlt : (new.map Frame.weight).sum < (old.map Frame.weight).sum) : Lighter s s' queues :=
  lighter_of_same hcover hth new h hjobs (by rw [hglobal]; omega)

theorem lighter_globalQueueWork (hcover : s.Covers queues)
    (hth : s.thread t = ⟨current, .globalQueueWork :: rest⟩) :
    Lighter s (stepGlobalQueueWork s t false rest) queues := by
  have hold : s.thread t = ⟨current, [.globalQueueWork] ++ rest⟩ := hth
  unfold stepGlobalQueueWork
  cases hglobal : s.globalQueue with
  | nil => exact lighter_of_frames hcover hold [] rfl rfl rfl Nat.zero_lt_one
  | cons q' queues' =>
    refine lighter_of_same hcover hold [.execute q' .enter, .globalQueueWork] rfl rfl ?_
    simp [State.setStack, LockQueue.pop, hglobal, Frame.weight, ExecutePc.weight]
    omega

variable [DecidableEq Q]

theorem lighter_push (hcover : s.Covers queues) {pc : PushPc}
    (hth : s.thread t = ⟨current, .push q job pc :: rest⟩) :
    Lighter s (stepPush s t q job rest pc) queues := by
  have hold : s.thread t = ⟨current, [.push q job pc] ++ rest⟩ := hth
  cases pc with
  | fetchAdd => exact lighter_of_frames hcover hold [_] rfl rfl rfl (Nat.lt_succ_self 14)
  | enqueue prevCount =>
    obtain ⟨hcover', hload⟩ := hcover.update q (s.jobs q ++ [job])
      (rfl : (stepPush s t q job rest (.enqueue prevCount)).jobs = _)
    refine lighter_of_replace hold [.push q job (.handOver prevCount)] rfl hcover' ?_
    have hglobal : (stepPush s t q job rest (.enqueue prevCount)).globalQueue = s.globalQueue := rfl
    rw [List.length_append, List.length_singleton] at hload
    rw [hglobal]
    simp only [List.map_singleton, List.sum_singleton, Frame.weight, PushPc.weight]
    omega
  | handOver prevCount =>
    simp only [stepPush]
    split_ifs
    · split
      · refine lighter_of_same hcover hold [] rfl rfl ?_
        simp [State.setStack, State.pushGlobal, LockQueue.push, Frame.weight, PushPc.weight]
        omega
      · exact lighter_of_frames hcover hold [_, _] rfl rfl rfl (by decide : 4 < 7)
    · exact lighter_of_frames hcover hold [] rfl rfl rfl (Nat.succ_pos 6)
  | executing => exact lighter_of_frames hcover hold [] rfl rfl rfl Nat.zero_lt_one

/-- An executor that takes a batch. -/
theorem lighter_popAll (hcover : s.Covers queues)
    (hth : s.thread t = ⟨current, .execute q .popAll :: rest⟩) (hwork : s.jobs q ≠ []) :
    Lighter s (stepExecute s t false q rest .popAll) queues := by
  have hold : s.thread t = ⟨current, [.execute q .popAll] ++ rest⟩ := hth
  have hjobs : (stepExecute s t false q rest .popAll).jobs = Function.update s.jobs q [] := by
    simp [stepExecute, State.setStack]
  have hglobal : (stepExecute s t false q rest .popAll).globalQueue = s.globalQueue := rfl
  obtain ⟨hcover', hload⟩ := hcover.update q [] hjobs
  have hthread : (stepExecute s t false q rest .popAll).thread = Function.update s.thread t
      ⟨(s.thread t).currentJobQueue, .execute q (.run (s.jobs q) (s.jobs q).length) :: rest⟩ := by
    simp only [stepExecute, State.setStack, LockQueue.popAll_eq]
  refine lighter_of_replace hold [.execute q (.run (s.jobs q) (s.jobs q).length)] hthread hcover' ?_
  have hpos := List.length_pos_iff.2 hwork
  rw [List.length_nil] at hload
  rw [hglobal]
  simp only [List.map_singleton, List.sum_singleton, Frame.weight, ExecutePc.weight]
  omega

/-- A step of `Execute` whose time is not over, where an executor that takes a batch finds jobs. -/
theorem lighter_execute (hcover : s.Covers queues) {pc : ExecutePc J}
    (hth : s.thread t = ⟨current, .execute q pc :: rest⟩) (hwork : pc = .popAll → s.jobs q ≠ []) :
    Lighter s (stepExecute s t false q rest pc) queues := by
  have hold : s.thread t = ⟨current, [.execute q pc] ++ rest⟩ := hth
  cases pc with
  | enter => exact lighter_of_frames hcover hold [_] rfl rfl rfl (Nat.lt_succ_self 2)
  | popAll => exact lighter_popAll hcover hth (hwork rfl)
  | run jobs jobCount =>
    cases jobs with
    | nil => exact lighter_of_frames hcover hold [_] rfl rfl rfl (Nat.lt_succ_self 4)
    | cons job jobs =>
      refine lighter_of_frames hcover hold [.execute q (.running job jobs jobCount)] rfl rfl rfl ?_
      simp only [List.map_singleton, List.sum_singleton, Frame.weight, ExecutePc.weight,
        List.length_cons]
      omega
  | running job jobs jobCount =>
    refine lighter_of_frames hcover hold [.execute q (.run jobs jobCount)] rfl rfl rfl ?_
    simp only [List.map_singleton, List.sum_singleton, Frame.weight, ExecutePc.weight]
    omega
  | fetchSub jobCount =>
    refine lighter_of_frames hcover hold
      [.execute q (if s.jobCount q = jobCount then .leave else .checkTime)] rfl rfl rfl ?_
    split_ifs
    · exact (by decide : 1 < 4)
    · exact (by decide : 3 < 4)
  | checkTime => exact lighter_of_frames hcover hold [_] rfl rfl rfl (Nat.lt_succ_self 2)
  | leave => exact lighter_of_frames hcover hold [] rfl rfl rfl Nat.zero_lt_one
  | rePush =>
    refine lighter_of_same hcover hold [] rfl rfl ?_
    simp [stepExecute, State.setStack, State.pushGlobal, LockQueue.push, Frame.weight,
      ExecutePc.weight]
    omega

end Lighter

/-! ## The drain -/

/-- No thread is inside the modelled functions and the global queue is empty. -/
def State.Drained (s : State Q J T) : Prop :=
  s.globalQueue = [] ∧ ∀ t, (s.thread t).stack = []

/-- The operation is not a new call of `DoAsync`. -/
def Op.goesOn : Op Q J → Bool
  | .doAsync _ _ => false
  | _ => true

section Steps

variable [DecidableEq Q] [DecidableEq T] {s s' : State Q J T}

/-- A step without a new call of `DoAsync`. -/
def GoesOn (s s' : State Q J T) : Prop :=
  ∃ (t : T) (op : Op Q J), op.goesOn = true ∧ step s (t, op) = some s'

theorem GoesOn.next (t : T) (h : step s (t, .next false) = some s') : GoesOn s s' :=
  ⟨t, .next false, rfl, h⟩

/-- What has been entered stays entered, and a step changes `m_jobs` of one queue at most. -/
theorem step_shared {a : T × Op Q J} (h : step s a = some s') :
    (∀ q, s.pushed q <+: s'.pushed q) ∧
      (s'.jobs = s.jobs ∨ ∃ q jobs, s'.jobs = Function.update s.jobs q jobs) := by
  obtain ⟨t, op⟩ := a
  simp only [step] at h
  split at h
  · obtain ⟨-, ⟨⟩⟩ := Option.ite_none_right_eq_some.1 h
    exact ⟨fun q => List.prefix_rfl, .inl rfl⟩
  · cases h
    exact ⟨fun q => List.prefix_rfl, .inl rfl⟩
  · cases h
  · cases h
  · rename_i q' job pc rest hth
    cases h
    cases pc with
    | enqueue prevCount =>
      refine ⟨fun q => ?_, .inr ⟨q', _, rfl⟩⟩
      simp only [stepPush, State.setStack]
      by_cases hq : q = q'
      · subst hq
        rw [Function.update_self]
        exact List.prefix_append _ _
      · rw [Function.update_of_ne hq]
    | handOver prevCount =>
      simp only [stepPush]
      split_ifs
      · split <;> exact ⟨fun q => List.prefix_rfl, .inl rfl⟩
      · exact ⟨fun q => List.prefix_rfl, .inl rfl⟩
    | _ => exact ⟨fun q => List.prefix_rfl, .inl rfl⟩
  · rename_i timeUp q' pc rest hth
    cases h
    cases pc with
    | popAll => exact ⟨fun q => List.prefix_rfl, .inr ⟨q', _, rfl⟩⟩
    | run jobs jobCount => cases jobs <;> exact ⟨fun q => List.prefix_rfl, .inl rfl⟩
    | checkTime => cases timeUp <;> exact ⟨fun q => List.prefix_rfl, .inl rfl⟩
    | _ => exact ⟨fun q => List.prefix_rfl, .inl rfl⟩
  · cases h
    unfold stepGlobalQueueWork
    split_ifs
    · exact ⟨fun q => List.prefix_rfl, .inl rfl⟩
    · split <;> exact ⟨fun q => List.prefix_rfl, .inl rfl⟩

theorem pushed_prefix_of_goesOn (hrun : Relation.ReflTransGen GoesOn s s') (q : Q) :
    s.pushed q <+: s'.pushed q := by
  induction hrun with
  | refl => exact List.prefix_rfl
  | tail _ hstep ih =>
    obtain ⟨t, op, -, hstep⟩ := hstep
    exact ih.trans ((step_shared hstep).1 q)

/-- In a reachable state finitely many queues have jobs. -/
theorem exists_covers (reach : (system Q J T).Reachable s) : ∃ queues, s.Covers queues := by
  refine reach.invariant (P := fun s => ∃ queues, s.Covers queues) ?_ ?_
  · rintro s rfl
    exact ⟨∅, fun q _ => rfl⟩
  · rintro s a s' ⟨queues, hcover⟩ hstep
    rcases (step_shared hstep).2 with hjobs | ⟨q, jobs, hjobs⟩
    · exact ⟨queues, fun q hq => by rw [hjobs]; exact hcover q hq⟩
    · exact ⟨insert q queues, (hcover.update q jobs hjobs).1⟩

/-- Without threads nothing happens. -/
theorem drained_of_isEmpty [IsEmpty T] (reach : (system Q J T).Reachable s) : s.Drained := by
  refine reach.invariant (P := State.Drained) ?_ fun _ a => isEmptyElim a.1
  rintro s rfl
  exact ⟨rfl, fun t => rfl⟩

end Steps

section Drain

variable [DecidableEq Q] [Fintype T] [DecidableEq T] {s : State Q J T} {queues : Finset Q}

/-- Where no pusher is between its two steps, a thread inside the modelled functions makes the state
lighter. -/
theorem lighter_next (inv : Inv s) (hcover : s.Covers queues) {t : T}
    (hstack : (s.thread t).stack ≠ []) (hpushes : ∀ q t', ¬ (s.thread t').Pushes q) :
    ∃ s', GoesOn s s' ∧ Lighter s s' queues := by
  rcases hth : s.thread t with ⟨current, stack⟩
  rw [hth] at hstack
  cases stack with
  | nil => exact absurd rfl hstack
  | cons frame rest =>
    cases frame with
    | push q job pc =>
      exact ⟨_, .next t (by simp only [step, hth]), lighter_push hcover hth⟩
    | execute q pc =>
      refine ⟨_, .next t (by simp only [step, hth]), lighter_execute hcover hth ?_⟩
      rintro rfl
      have hmem : .execute q .popAll ∈ (s.thread t).stack := by simp [hth]
      refine (inv.work hmem rfl rfl).resolve_right ?_
      rintro ⟨t', ht'⟩
      exact hpushes q t' ht'
    | globalQueueWork =>
      exact ⟨_, .next t (by simp only [step, hth]), lighter_globalQueueWork hcover hth⟩

/-- A thread that is outside takes a queue out of the global queue. -/
theorem lighter_doGlobalQueueWork (hcover : s.Covers queues) {t : T}
    (hstack : (s.thread t).stack = []) {q : Q} {rest : List Q}
    (hglobal : s.globalQueue = q :: rest) :
    ∃ s', Relation.ReflTransGen GoesOn s s' ∧ Lighter s s' queues := by
  have hth : s.thread t = ⟨(s.thread t).currentJobQueue, [] ++ []⟩ := by
    rw [List.append_nil, ← hstack]
  have hcall : GoesOn s (s.setStack t [.globalQueueWork]) :=
    ⟨t, .doGlobalQueueWork, rfl, by simp only [step, hstack]⟩
  have hnext : GoesOn (s.setStack t [.globalQueueWork])
      (stepGlobalQueueWork (s.setStack t [.globalQueueWork]) t false []) :=
    .next t (by simp [step, State.setStack])
  refine ⟨_, (Relation.ReflTransGen.single hcall).tail hnext, ?_⟩
  have hthread : (stepGlobalQueueWork (s.setStack t [.globalQueueWork]) t false []).thread =
      Function.update s.thread t
        ⟨(s.thread t).currentJobQueue, [.execute q .enter, .globalQueueWork]⟩ := by
    simp [stepGlobalQueueWork, State.setStack, LockQueue.pop, hglobal]
  refine lighter_of_same hcover hth [.execute q .enter, .globalQueueWork] hthread ?_ ?_
  all_goals simp [stepGlobalQueueWork, State.setStack, LockQueue.pop, hglobal, Frame.weight,
    ExecutePc.weight]
  omega

/-- While the queues are not at rest, some steps make the state lighter. -/
theorem Inv.progress [Nonempty T] (inv : Inv s) (hcover : s.Covers queues)
    (hdrained : ¬ s.Drained) :
    ∃ s', Relation.ReflTransGen GoesOn s s' ∧ Lighter s s' queues := by
  by_cases hpushes : ∃ q t, (s.thread t).Pushes q
  · -- a pusher between its two steps goes first
    obtain ⟨q, t, job, prevCount, rest, hstack⟩ := hpushes
    have hth : s.thread t =
        ⟨(s.thread t).currentJobQueue, .push q job (.enqueue prevCount) :: rest⟩ := by
      rw [← hstack]
    exact ⟨_, .single (.next t (by simp only [JobQueue.step, hstack])), lighter_push hcover hth⟩
  · have hnone : ∀ q t, ¬ (s.thread t).Pushes q := fun q t h => hpushes ⟨q, t, h⟩
    by_cases hstack : ∃ t, (s.thread t).stack ≠ []
    · obtain ⟨t, ht⟩ := hstack
      obtain ⟨s', hstep, hlighter⟩ := lighter_next inv hcover ht hnone
      exact ⟨s', .single hstep, hlighter⟩
    · have houtside : ∀ t, (s.thread t).stack = [] := by
        intro t
        by_contra ht
        exact hstack ⟨t, ht⟩
      cases hglobal : s.globalQueue with
      | nil => exact absurd ⟨hglobal, houtside⟩ hdrained
      | cons q rest =>
        obtain ⟨t⟩ := ‹Nonempty T›
        exact lighter_doGlobalQueueWork hcover (houtside t) hglobal

theorem Inv.goesOn {s' : State Q J T} (inv : Inv s) (hrun : Relation.ReflTransGen GoesOn s s') :
    Inv s' := by
  induction hrun with
  | refl => exact inv
  | tail _ hstep ih =>
    obtain ⟨t, op, -, hstep⟩ := hstep
    exact ih.step hstep

/-- The queues can be brought to rest: by induction on the weight. -/
theorem Inv.exists_drained [Nonempty T] (inv : Inv s) (hcover : s.Covers queues) :
    ∃ s', Relation.ReflTransGen GoesOn s s' ∧ s'.Drained := by
  induction hweight : s.weight queues using Nat.strong_induction_on generalizing s queues with
  | _ n ih =>
    by_cases hdrained : s.Drained
    · exact ⟨s, .refl, hdrained⟩
    · obtain ⟨s', hrun, queues', hcover', hlt⟩ := inv.progress hcover hdrained
      obtain ⟨s'', hrun', hdrained'⟩ := ih _ (hweight ▸ hlt) (inv.goesOn hrun) hcover' rfl
      exact ⟨s'', hrun.trans hrun', hdrained'⟩

/-- From every reachable state the threads can go on, without a new call of `DoAsync`, until every
job entered has run. -/
theorem exists_all_ran (reach : (system Q J T).Reachable s) :
    ∃ s', Relation.ReflTransGen GoesOn s s' ∧ s'.Drained ∧
      ∀ q, s.pushed q <+: s'.ran q ∧ s'.jobCount q = 0 := by
  have inv := inv_of_reachable reach
  obtain ⟨s', hrun, hdrained⟩ : ∃ s', Relation.ReflTransGen GoesOn s s' ∧ s'.Drained := by
    rcases isEmpty_or_nonempty T with hempty | hnonempty
    · exact ⟨s, .refl, drained_of_isEmpty reach⟩
    · obtain ⟨queues, hcover⟩ := exists_covers reach
      exact inv.exists_drained hcover
  refine ⟨s', hrun, hdrained, fun q => ?_⟩
  obtain ⟨hcount, -, hran⟩ := ((inv.goesOn hrun).queue q).drained hdrained.1 hdrained.2
  rw [hran]
  exact ⟨pushed_prefix_of_goesOn hrun q, hcount⟩

end Drain

end JobQueue

end DhNet
