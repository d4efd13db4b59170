import DhNet.Util.JobQueueProof
import DhNet.Util.ThreadManager

/-!
# What `PushGlobalQueue` does with its job

The comment of `PushGlobalQueue` promises that a worker thread runs the job.  What happens depends
on the caller.  Outside of a job, `DoAsync` runs the job on the spot, on the calling thread.  Inside
a job, `DoAsync` enters the temporary queue into `GGlobalQueue`, and `PushGlobalQueue` enters it
again.

* `Stage`: the states of a call until its job starts or its queue is handed over.  Until then nobody
  else knows the temporary queue.
* `Progress`: from then on the histories record what the promise forbids.
* `pushGlobalQueue_broken`: no call that has returned kept the promise.
-/

namespace DhNet

namespace JobQueue

variable {Q J T : Type*}

/-! ## What concerns a queue -/

/-- The activation is about the queue. -/
def Frame.Mentions (q : Q) : Frame Q J → Prop
  | .push q' _ _ => q' = q
  | .execute q' _ => q' = q
  | .globalQueueWork => False

/-- The queue is not in the global queue, and no other thread has an activation about it. -/
structure State.Alone (s : State Q J T) (q : Q) (t : T) : Prop where
  global : q ∉ s.globalQueue
  others : ∀ t', t' ≠ t → ∀ frame ∈ (s.thread t').stack, ¬ frame.Mentions q

/-- The queue has the same jobs as before. -/
structure SameQueue (s s' : State Q J T) (q : Q) : Prop where
  jobs : s'.jobs q = s.jobs q
  jobCount : s'.jobCount q = s.jobCount q
  ran : s'.ran q = s.ran q

/-! ## A queue that one pusher knows -/

/-- The call of `DoAsync` on a new queue on top of the activations `base`, until its job starts or
the queue is handed over, with the counter and the jobs of the queue. -/
inductive Stage (q : Q) (job : J) (base : List (Frame Q J)) (insideJob : Bool) :
    Thread Q J → ℤ → List J → Prop
  | fetchAdd (current : Option Q) (h : current.isSome = insideJob) :
      Stage q job base insideJob ⟨current, .push q job .fetchAdd :: base⟩ 0 []
  | enqueue (current : Option Q) (h : current.isSome = insideJob) :
      Stage q job base insideJob ⟨current, .push q job (.enqueue 0) :: base⟩ 1 []
  | handOver (current : Option Q) (h : current.isSome = insideJob) :
      Stage q job base insideJob ⟨current, .push q job (.handOver 0) :: base⟩ 1 [job]
  | enter (h : insideJob = false) : Stage q job base insideJob
      ⟨none, .execute q .enter :: .push q job .executing :: base⟩ 1 [job]
  | popAll (h : insideJob = false) : Stage q job base insideJob
      ⟨some q, .execute q .popAll :: .push q job .executing :: base⟩ 1 [job]
  | run (h : insideJob = false) : Stage q job base insideJob
      ⟨some q, .execute q (.run [job] 1) :: .push q job .executing :: base⟩ 1 []

/-- Outside of an `Execute`, `DoAsync` is called with an empty call stack. -/
theorem Thread.Shape.stack_eq_nil {th : Thread Q J} (h : th.Shape)
    (hmay : mayCallDoAsync th.stack) (hcurrent : th.currentJobQueue = none) : th.stack = [] := by
  unfold mayCallDoAsync at hmay
  split at hmay
  · assumption
  · next q job jobs jobCount rest hstack =>
    obtain ⟨current, stack⟩ := th
    obtain rfl : stack = .execute q (.running job jobs jobCount) :: rest := hstack
    obtain ⟨he, -⟩ := Thread.shape_execute_iff.1 h
    obtain rfl : current = none := hcurrent
    cases he
  · cases hmay

section Stages

variable {q : Q} {job : J} {base : List (Frame Q J)} {insideJob : Bool} {th : Thread Q J}
  {jobCount : ℤ} {jobs : List J}

/-- The call has not returned. -/
theorem Stage.height (h : Stage q job base insideJob th jobCount jobs) :
    base.length < th.stack.length := by
  cases h <;> simp

theorem Stage.not_mayCallDoAsync (h : Stage q job base insideJob th jobCount jobs) :
    ¬ mayCallDoAsync th.stack := by
  cases h <;> simp [mayCallDoAsync]

end Stages

/-! ## The steps of a thread -/

variable [DecidableEq Q] [DecidableEq T] {s s' : State Q J T} {t : T} {q : Q}

/-- The innermost activation goes on. -/
theorem next_cases {timeUp : Bool} (h : step s (t, .next timeUp) = some s') :
    (∃ q job pc rest, (s.thread t).stack = .push q job pc :: rest ∧
      s' = stepPush s t q job rest pc) ∨
    (∃ q pc rest, (s.thread t).stack = .execute q pc :: rest ∧
      s' = stepExecute s t timeUp q rest pc) ∨
    ∃ rest, (s.thread t).stack = .globalQueueWork :: rest ∧
      s' = stepGlobalQueueWork s t timeUp rest := by
  simp only [step] at h
  cases hstack : (s.thread t).stack with
  | nil =>
    rw [hstack] at h
    cases h
  | cons frame rest =>
    rw [hstack] at h
    cases frame with
    | push q job pc => exact .inl ⟨q, job, pc, rest, rfl, (Option.some.inj h).symm⟩
    | execute q pc => exact .inr (.inl ⟨q, pc, rest, rfl, (Option.some.inj h).symm⟩)
    | globalQueueWork => exact .inr (.inr ⟨rest, rfl, (Option.some.inj h).symm⟩)

/-- A step of a thread that has nothing to do with a queue. -/
theorem next_spares {timeUp : Bool} (h : step s (t, .next timeUp) = some s')
    (hstack : ∀ frame ∈ (s.thread t).stack, ¬ frame.Mentions q) (hglobal : q ∉ s.globalQueue) :
    SameQueue s s' q ∧ q ∉ s'.globalQueue ∧
      ∀ frame ∈ (s'.thread t).stack, ¬ frame.Mentions q := by
  have hset : ∀ (s₀ : State Q J T) (current : Option Q) (stack : List (Frame Q J)),
      SameQueue s s₀ q → q ∉ s₀.globalQueue → (∀ frame ∈ stack, ¬ frame.Mentions q) →
      SameQueue s (s₀.setThread t current stack) q ∧
        q ∉ (s₀.setThread t current stack).globalQueue ∧
        ∀ frame ∈ ((s₀.setThread t current stack).thread t).stack, ¬ frame.Mentions q := by
    intro s₀ current stack hsame hnot hframes
    refine ⟨⟨hsame.jobs, hsame.jobCount, hsame.ran⟩, hnot, ?_⟩
    simpa [State.setThread] using hframes
  have hother : ∀ {q' : Q}, ¬ q' = q → q ≠ q' := fun h e => h e.symm
  obtain ⟨q', job, pc, rest, heq, rfl⟩ | ⟨q', pc, rest, heq, rfl⟩ | ⟨rest, heq, rfl⟩ :=
    next_cases h
  · rw [heq] at hstack
    obtain ⟨hne, hrest⟩ := List.forall_mem_cons.1 hstack
    have hq := hother hne
    have hpush : ∀ pc', ∀ frame ∈ .push q' job pc' :: rest, ¬ Frame.Mentions q frame :=
      fun pc' => List.forall_mem_cons.2 ⟨hne, hrest⟩
    cases pc with
    | fetchAdd =>
      exact hset _ _ _ ⟨rfl, Function.update_of_ne hq .., rfl⟩ hglobal (hpush _)
    | enqueue prevCount =>
      exact hset _ _ _ ⟨Function.update_of_ne hq .., rfl, rfl⟩ hglobal (hpush _)
    | handOver prevCount =>
      simp only [stepPush]
      split_ifs
      · split
        · refine hset (s.pushGlobal q') _ _ ⟨rfl, rfl, rfl⟩ ?_ hrest
          exact fun hmem => (List.mem_append.1 hmem).elim hglobal
            fun hmem => hq (List.mem_singleton.1 hmem)
        · refine hset s _ _ ⟨rfl, rfl, rfl⟩ hglobal ?_
          exact List.forall_mem_cons.2 ⟨hne, hpush _⟩
      · exact hset s _ _ ⟨rfl, rfl, rfl⟩ hglobal hrest
    | executing => exact hset s _ _ ⟨rfl, rfl, rfl⟩ hglobal hrest
  · rw [heq] at hstack
    obtain ⟨hne, hrest⟩ := List.forall_mem_cons.1 hstack
    have hq := hother hne
    have hexecute : ∀ pc', ∀ frame ∈ .execute q' pc' :: rest, ¬ Frame.Mentions (J := J) q frame :=
      fun pc' => List.forall_mem_cons.2 ⟨hne, hrest⟩
    cases pc with
    | enter => exact hset s _ _ ⟨rfl, rfl, rfl⟩ hglobal (hexecute _)
    | popAll => exact hset _ _ _ ⟨Function.update_of_ne hq .., rfl, rfl⟩ hglobal (hexecute _)
    | run jobs jobCount =>
      cases jobs with
      | nil => exact hset s _ _ ⟨rfl, rfl, rfl⟩ hglobal (hexecute _)
      | cons job jobs =>
        exact hset _ _ _ ⟨rfl, rfl, Function.update_of_ne hq ..⟩ hglobal (hexecute _)
    | running job jobs jobCount => exact hset s _ _ ⟨rfl, rfl, rfl⟩ hglobal (hexecute _)
    | fetchSub jobCount =>
      exact hset _ _ _ ⟨rfl, Function.update_of_ne hq .., rfl⟩ hglobal (hexecute _)
    | checkTime =>
      simp only [stepExecute]
      split_ifs
      · exact hset s _ _ ⟨rfl, rfl, rfl⟩ hglobal (hexecute _)
      · exact hset s _ _ ⟨rfl, rfl, rfl⟩ hglobal (hexecute _)
    | leave => exact hset s _ _ ⟨rfl, rfl, rfl⟩ hglobal hrest
    | rePush =>
      refine hset (s.pushGlobal q') _ _ ⟨rfl, rfl, rfl⟩ ?_ hrest
      exact fun hmem => (List.mem_append.1 hmem).elim hglobal
        fun hmem => hq (List.mem_singleton.1 hmem)
  · rw [heq] at hstack
    obtain ⟨-, hrest⟩ := List.forall_mem_cons.1 hstack
    simp only [stepGlobalQueueWork]
    split_ifs
    · exact hset s _ _ ⟨rfl, rfl, rfl⟩ hglobal hrest
    · split
      · exact hset s _ _ ⟨rfl, rfl, rfl⟩ hglobal hrest
      · next q' queues hpop =>
        cases hqueue : s.globalQueue with
        | nil =>
          rw [hqueue] at hpop
          cases hpop
        | cons q₁ rest₁ =>
          rw [hqueue] at hpop hglobal
          obtain ⟨rfl, rfl⟩ : q₁ = q' ∧ rest₁ = queues := by simpa [LockQueue.pop] using hpop
          obtain ⟨hne, hnot⟩ := not_or.1 (mt List.mem_cons.2 hglobal)
          refine hset _ _ _ ⟨rfl, rfl, rfl⟩ hnot ?_
          exact List.forall_mem_cons.2 ⟨fun e => hne e.symm, List.forall_mem_cons.2 ⟨id, hrest⟩⟩

/-- A step replaces the call stack of its thread by one of the possible shapes. -/
theorem next_shape {timeUp : Bool} (h : step s (t, .next timeUp) = some s')
    (shape : (s.thread t).Shape) :
    ∃ th : Thread Q J, s'.thread = Function.update s.thread t th ∧ th.Shape := by
  rcases hth : s.thread t with ⟨current, stack⟩
  rw [hth] at shape
  obtain ⟨q, job, pc, rest, heq, rfl⟩ | ⟨q, pc, rest, heq, rfl⟩ | ⟨rest, heq, rfl⟩ :=
    next_cases h
  · obtain rfl : stack = .push q job pc :: rest := by rw [← heq, hth]
    cases pc with
    | fetchAdd => exact ⟨_, rfl, by simpa [hth] using shape.push_change (by simp)⟩
    | enqueue prevCount => exact ⟨_, rfl, by simpa [hth] using shape.push_change (by simp)⟩
    | handOver prevCount =>
      simp only [stepPush, hth]
      split_ifs
      · cases current with
        | some q' => exact ⟨_, rfl, by simpa [State.pushGlobal, hth] using shape.push_return⟩
        | none =>
          refine ⟨_, rfl, ?_⟩
          unfold Thread.Shape at shape
          split at shape <;> simp_all [Thread.Shape, ExecutePc.current, Frame.Calls]
      · exact ⟨_, rfl, by simpa [hth] using shape.push_return⟩
    | executing => exact ⟨_, rfl, by simpa [hth] using shape.push_return⟩
  · obtain rfl : stack = .execute q pc :: rest := by rw [← heq, hth]
    obtain ⟨hcurrent, base, rfl, hbase⟩ := Thread.shape_execute_iff.1 shape
    have hexecute : ∀ pc' : ExecutePc J, Thread.Shape ⟨pc'.current q, [.execute q pc', base]⟩ :=
      fun pc' => Thread.shape_execute_iff.2 ⟨rfl, base, rfl, hbase⟩
    have hkeep : ∀ pc' : ExecutePc J, pc'.current q = pc.current q →
        Thread.Shape ⟨(s.thread t).currentJobQueue, [.execute q pc', base]⟩ := by
      intro pc' hpc
      rw [hth, hcurrent, ← hpc]
      exact hexecute pc'
    have hreturn : Thread.Shape ⟨none, [base]⟩ := by
      cases base <;> simp_all [Frame.Calls, Thread.Shape]
    cases pc with
    | enter => exact ⟨_, rfl, hexecute .popAll⟩
    | popAll => exact ⟨_, rfl, hkeep (.run _ _) rfl⟩
    | run jobs jobCount =>
      cases jobs with
      | nil => exact ⟨_, rfl, hkeep (.fetchSub _) rfl⟩
      | cons job jobs => exact ⟨_, rfl, hkeep (.running _ _ _) rfl⟩
    | running job jobs jobCount => exact ⟨_, rfl, hkeep (.run _ _) rfl⟩
    | fetchSub jobCount =>
      refine ⟨_, rfl, ?_⟩
      split_ifs
      · exact hkeep .leave rfl
      · exact hkeep .checkTime rfl
    | checkTime =>
      simp only [stepExecute]
      split_ifs
      · exact ⟨_, rfl, hexecute .rePush⟩
      · exact ⟨_, rfl, hkeep .popAll rfl⟩
    | leave => exact ⟨_, rfl, hreturn⟩
    | rePush =>
      refine ⟨_, rfl, ?_⟩
      simp only [State.pushGlobal, hth, hcurrent]
      exact hreturn
  · obtain rfl : stack = .globalQueueWork :: rest := by rw [← heq, hth]
    obtain ⟨rfl, rfl⟩ : rest = [] ∧ current = none := by
      unfold Thread.Shape at shape
      split at shape <;> simp_all
    simp only [stepGlobalQueueWork]
    split_ifs
    · exact ⟨_, rfl, by simp [hth, Thread.Shape]⟩
    · split
      · exact ⟨_, rfl, by simp [hth, Thread.Shape]⟩
      · exact ⟨_, rfl, by simp [hth, Thread.Shape, ExecutePc.current, Frame.Calls]⟩

/-- The call goes on, or it hands the queue over, or it starts the job. -/
theorem Stage.next {timeUp : Bool} {job : J} {base : List (Frame Q J)} {insideJob : Bool}
    (stage : Stage q job base insideJob (s.thread t) (s.jobCount q) (s.jobs q))
    (h : step s (t, .next timeUp) = some s') :
    (Stage q job base insideJob (s'.thread t) (s'.jobCount q) (s'.jobs q) ∧
      s'.globalQueue = s.globalQueue) ∨
    (insideJob = true ∧ ThreadManager.entering (s.thread t) = some q) ∨
    insideJob = false ∧ ThreadManager.starting (s.thread t) = some q ∧
      (s.thread t).stack = .execute q (.run [job] 1) :: .push q job .executing :: base := by
  generalize hth : s.thread t = th at stage
  generalize hcount : s.jobCount q = jobCount at stage
  generalize hjobs : s.jobs q = jobs at stage
  cases stage with
  | fetchAdd current hcurrent =>
    obtain rfl : stepPush s t q job base .fetchAdd = s' := by simpa [step, hth] using h
    left
    refine ⟨?_, rfl⟩
    simpa [stepPush, State.setStack, hth, hcount, hjobs] using Stage.enqueue current hcurrent
  | enqueue current hcurrent =>
    obtain rfl : stepPush s t q job base (.enqueue 0) = s' := by simpa [step, hth] using h
    left
    refine ⟨?_, rfl⟩
    simpa [stepPush, State.setStack, LockQueue.push, hth, hcount, hjobs]
      using Stage.handOver current hcurrent
  | handOver current hcurrent =>
    obtain rfl : stepPush s t q job base (.handOver 0) = s' := by simpa [step, hth] using h
    cases current with
    | some q' =>
      right; left
      exact ⟨hcurrent.symm, by simp [ThreadManager.entering]⟩
    | none =>
      left
      refine ⟨?_, by simp [stepPush, State.setStack, hth]⟩
      simpa [stepPush, State.setStack, hth, hcount, hjobs] using Stage.enter hcurrent.symm
  | enter houtside =>
    obtain rfl : stepExecute s t timeUp q (.push q job .executing :: base) .enter = s' := by
      simpa [step, hth] using h
    left
    refine ⟨?_, rfl⟩
    simpa [stepExecute, State.setThread, hcount, hjobs] using Stage.popAll houtside
  | popAll houtside =>
    obtain rfl : stepExecute s t timeUp q (.push q job .executing :: base) .popAll = s' := by
      simpa [step, hth] using h
    left
    refine ⟨?_, rfl⟩
    simpa [stepExecute, State.setStack, hth, hcount, hjobs] using Stage.run houtside
  | run houtside =>
    right; right
    exact ⟨houtside, by simp [ThreadManager.starting], rfl⟩

end JobQueue

namespace ThreadManager

variable {Q J T : Type*} {s s' : State Q J T} {t : T} {i : ℕ} {c : Call T}

/-! ## The calls in progress -/

/-- Nobody is in a call, and nobody has a job to run. -/
structure State.Drained (s : State Q J T) : Prop where
  stack : ∀ t, (s.queues.thread t).stack = []
  active : ∀ t, s.active t = []
  global : s.queues.globalQueue = []

/-- No call has this number. -/
structure Unused (s : State Q J T) (i : ℕ) : Prop where
  calls : s.calls i = none
  global : .temporary i ∉ s.queues.globalQueue
  frames : ∀ t, ∀ frame ∈ (s.queues.thread t).stack, ¬ frame.Mentions (.temporary i)
  jobCount : s.queues.jobCount (.temporary i) = 0
  jobs : s.queues.jobs (.temporary i) = []

/-- The job of the call has not started, and its queue is not handed over. -/
structure Before (s : State Q J T) (i : ℕ) (c : Call T) : Prop where
  returned : c.returned = false
  alone : s.queues.Alone (.temporary i) c.caller
  stage : ∃ job base rest, s.active c.caller = (i, base.length) :: rest ∧
    (c.insideJob = false → base = []) ∧
    JobQueue.Stage (.temporary i) job base c.insideJob (s.queues.thread c.caller)
      (s.queues.jobCount (.temporary i)) (s.queues.jobs (.temporary i))

/-- A step of another thread that leaves the queue of the call alone. -/
theorem Before.of_same (h : Before s i c)
    (hthread : s'.queues.thread c.caller = s.queues.thread c.caller)
    (hactive : s'.active c.caller = s.active c.caller)
    (hsame : JobQueue.SameQueue s.queues s'.queues (.temporary i))
    (halone : s'.queues.Alone (.temporary i) c.caller) : Before s' i c := by
  refine ⟨h.returned, halone, ?_⟩
  rw [hthread, hactive, hsame.jobCount, hsame.jobs]
  exact h.stage

section Progress

variable [DecidableEq Q]

/-- The promise of `PushGlobalQueue`, for a call that has returned. -/
structure HandedOver (s : State Q J T) (i : ℕ) (c : Call T) : Prop where
  atMostOnce : (s.runs.filter (·.call = i)).length ≤ 1
  run : s.Drained → ∃ r ∈ s.runs, r.call = i
  worker : ∀ r ∈ s.runs, r.call = i → r.insideGlobalQueueWork
  caller : ∀ r ∈ s.runs, r.call = i → r.thread = c.caller → r.returned
  entry : s.entered.count (.temporary i) = 1

/-- The caller has run the job before the call returned, or `DoAsync` has handed the queue over, and
`PushGlobalQueue` once more if it has returned. -/
structure After (s : State Q J T) (i : ℕ) (c : Call T) : Prop where
  inline : c.insideJob = false → ⟨i, c.caller, false, false⟩ ∈ s.runs
  entered : c.insideJob = true → 1 + c.returned.toNat ≤ s.entered.count (.temporary i)

/-- What is known of a call. -/
def Progress (s : State Q J T) (i : ℕ) (c : Call T) : Prop := Before s i c ∨ After s i c

/-- The invariant of the threads and their calls. -/
structure Inv (s : State Q J T) : Prop where
  shape : ∀ t, (s.queues.thread t).Shape
  unused : ∀ i, s.count ≤ i → Unused s i
  active : ∀ t call, call ∈ s.active t → ∃ c, s.calls call.1 = some c ∧ c.caller = t
  progress : ∀ i c, s.calls i = some c → Progress s i c

theorem After.mono (h : After s i c) (hruns : s.runs ⊆ s'.runs)
    (hentered : s.entered.count (.temporary i) ≤ s'.entered.count (.temporary i)) :
    After s' i c :=
  ⟨fun houtside => hruns (h.inline houtside), fun hinside => (h.entered hinside).trans hentered⟩

theorem inv_initial : Inv (State.initial : State Q J T) := by
  refine ⟨fun t => rfl, fun i _ => ?_, fun t call hcall => ?_, fun i c hc => ?_⟩
  · exact ⟨rfl, List.not_mem_nil, fun t frame hframe => (List.not_mem_nil hframe).elim, rfl, rfl⟩
  · cases hcall
  · cases hc

end Progress

variable [DecidableEq T]

/-! ## New activations -/

/-- A thread between two jobs, or in a running job, enters a function. -/
theorem Before.call {frame : JobQueue.Frame (Queue Q) J} (h : Before s i c)
    (hqueues : s'.queues = s.queues.setStack t (frame :: (s.queues.thread t).stack))
    (hmay : JobQueue.mayCallDoAsync (s.queues.thread t).stack)
    (hframe : ¬ frame.Mentions (.temporary i))
    (hactive : ∀ t', t' ≠ t → s'.active t' = s.active t') : Before s' i c := by
  have hne : c.caller ≠ t := by
    rintro rfl
    obtain ⟨job, base, rest, -, -, hstage⟩ := h.stage
    exact hstage.not_mayCallDoAsync hmay
  have hthread : ∀ t', t' ≠ t → s'.queues.thread t' = s.queues.thread t' := by
    intro t' ht
    rw [hqueues]
    exact Function.update_of_ne ht ..
  refine h.of_same (hthread _ hne) (hactive _ hne) ?_ ⟨?_, ?_⟩
  · rw [hqueues]
    exact ⟨rfl, rfl, rfl⟩
  · rw [hqueues]
    exact h.alone.global
  · intro t' ht'
    by_cases e : t' = t
    · subst e
      simp only [hqueues, JobQueue.State.setStack, Function.update_self]
      exact List.forall_mem_cons.2 ⟨hframe, h.alone.others t' ht'⟩
    · rw [hthread t' e]
      exact h.alone.others t' ht'

theorem Unused.call {frame : JobQueue.Frame (Queue Q) J} (h : Unused s i)
    (hqueues : s'.queues = s.queues.setStack t (frame :: (s.queues.thread t).stack))
    (hframe : ¬ frame.Mentions (.temporary i)) (hcalls : s'.calls i = s.calls i) :
    Unused s' i := by
  refine ⟨hcalls.trans h.calls, ?_, ?_, ?_, ?_⟩
  · rw [hqueues]
    exact h.global
  · intro t'
    rw [hqueues]
    by_cases e : t' = t
    · subst e
      simp only [JobQueue.State.setStack, Function.update_self]
      exact List.forall_mem_cons.2 ⟨hframe, h.frames t'⟩
    · simp only [JobQueue.State.setStack, Function.update_of_ne e]
      exact h.frames t'
  · rw [hqueues]
    exact h.jobCount
  · rw [hqueues]
    exact h.jobs

variable [DecidableEq Q]

/-- A function that concerns no temporary queue is entered. -/
theorem Inv.call {frame : JobQueue.Frame (Queue Q) J} (inv : Inv s)
    (hmay : JobQueue.mayCallDoAsync (s.queues.thread t).stack)
    (hframe : ∀ i, ¬ frame.Mentions (.temporary i))
    (hshape : JobQueue.Thread.Shape
      { s.queues.thread t with stack := frame :: (s.queues.thread t).stack }) :
    Inv { s with queues := s.queues.setStack t (frame :: (s.queues.thread t).stack) } := by
  refine ⟨JobQueue.shape_update rfl inv.shape hshape, ?_, inv.active, ?_⟩
  · exact fun i hi => (inv.unused i hi).call rfl (hframe i) rfl
  · intro i c hc
    rcases inv.progress i c hc with hbefore | hafter
    · exact .inl (hbefore.call rfl hmay (hframe i) fun _ _ => rfl)
    · exact .inr (hafter.mono (List.Subset.refl _) le_rfl)

/-- `PushGlobalQueue` is called. -/
theorem Inv.begin {job : J} {queues : JobQueue.State (Queue Q) J T} (inv : Inv s)
    (hqueues : JobQueue.step s.queues (t, .doAsync (.temporary s.count) job) = some queues) :
    Inv { s with
      queues := queues
      count := s.count + 1
      calls := Function.update s.calls s.count
        (some ⟨t, (s.queues.thread t).currentJobQueue.isSome, false⟩)
      active := Function.update s.active t ((s.count, s.height t) :: s.active t) } := by
  obtain ⟨hmay, rfl⟩ : JobQueue.mayCallDoAsync (s.queues.thread t).stack ∧
      s.queues.setStack t (.push (.temporary s.count) job .fetchAdd :: (s.queues.thread t).stack) =
        queues := by
    simpa [JobQueue.step] using hqueues
  have hunused := inv.unused s.count le_rfl
  have hmentions : ∀ i, i ≠ s.count →
      ¬ JobQueue.Frame.Mentions (Queue.temporary (Q := Q) i)
        (.push (.temporary s.count) job .fetchAdd) :=
    fun i hi e => hi (Queue.temporary.inj e).symm
  refine ⟨JobQueue.shape_update rfl inv.shape ((inv.shape t).doAsync hmay), ?_, ?_, ?_⟩
  · intro i hi
    have hne : i ≠ s.count := Nat.ne_of_gt hi
    exact (inv.unused i (Nat.le_of_succ_le hi)).call rfl (hmentions i hne)
      (Function.update_of_ne hne ..)
  · intro t' call hcall
    have hold : ∀ call ∈ s.active t', ∃ c, Function.update s.calls s.count
        (some ⟨t, (s.queues.thread t).currentJobQueue.isSome, false⟩) call.1 = some c ∧
          c.caller = t' := by
      intro call hcall
      obtain ⟨c, hc, hcaller⟩ := inv.active t' call hcall
      have hne : call.1 ≠ s.count := by
        intro e
        rw [e, hunused.calls] at hc
        cases hc
      exact ⟨c, (Function.update_of_ne hne ..).trans hc, hcaller⟩
    by_cases ht : t' = t
    · subst ht
      simp only [Function.update_self, List.mem_cons] at hcall
      rcases hcall with rfl | hcall
      · exact ⟨_, Function.update_self .., rfl⟩
      · exact hold call hcall
    · simp only [Function.update_of_ne ht] at hcall
      exact hold call hcall
  · intro i c hc
    by_cases hi : i = s.count
    · subst hi
      obtain rfl : (⟨t, (s.queues.thread t).currentJobQueue.isSome, false⟩ : Call T) = c := by
        simpa using hc
      refine .inl ⟨rfl, ⟨hunused.global, fun t' ht' => ?_⟩, job, (s.queues.thread t).stack,
        s.active t, ?_, ?_, ?_⟩
      · simp only [JobQueue.State.setStack, Function.update_of_ne ht']
        exact hunused.frames t'
      · simp [State.height]
      · exact fun houtside => (inv.shape t).stack_eq_nil hmay (by simpa using houtside)
      · simp only [JobQueue.State.setStack, Function.update_self, hunused.jobCount, hunused.jobs]
        exact .fetchAdd _ rfl
    · simp only [Function.update_of_ne hi] at hc
      rcases inv.progress i c hc with hbefore | hafter
      · exact .inl (hbefore.call rfl hmay (hmentions i hi)
          fun t' ht' => Function.update_of_ne ht' ..)
      · exact .inr (hafter.mono (List.Subset.refl _) le_rfl)

/-! ## The last statement of `PushGlobalQueue` -/

theorem Inv.finish {height : ℕ} {rest : List (ℕ × ℕ)} (inv : Inv s)
    (hactive : s.active t = (i, height) :: rest) (hheight : s.height t = height) :
    Inv (s.finish t i rest) := by
  obtain ⟨c, hc, rfl⟩ := inv.active t (i, height) (by simp [hactive])
  have hglobal : ∀ j, j ≠ i → .temporary j ∉ s.queues.globalQueue →
      .temporary j ∉ (s.finish c.caller i rest).queues.globalQueue := by
    intro j hj hnot hmem
    rcases List.mem_append.1 hmem with hmem | hmem
    · exact hnot hmem
    · exact hj (Queue.temporary.inj (List.mem_singleton.1 hmem))
  have hcalls : ∀ j, j ≠ i → (s.finish c.caller i rest).calls j = s.calls j :=
    fun j hj => Function.update_of_ne hj ..
  refine ⟨inv.shape, ?_, ?_, ?_⟩
  · intro j hj
    have hunused := inv.unused j hj
    have hne : j ≠ i := by
      rintro rfl
      rw [hunused.calls] at hc
      cases hc
    exact ⟨(hcalls j hne).trans hunused.calls, hglobal j hne hunused.global, hunused.frames,
      hunused.jobCount, hunused.jobs⟩
  · intro t' call hcall
    have hmem : call ∈ s.active t' := by
      by_cases ht : t' = c.caller
      · subst ht
        simp only [State.finish, Function.update_self] at hcall
        rw [hactive]
        exact List.mem_cons_of_mem _ hcall
      · simpa [State.finish, ht] using hcall
    obtain ⟨c', hc', rfl⟩ := inv.active t' call hmem
    by_cases hi : call.1 = i
    · rw [hi] at hc' ⊢
      exact ⟨{ c' with returned := true }, by simp [State.finish, hc'], rfl⟩
    · exact ⟨c', (hcalls _ hi).trans hc', rfl⟩
  · intro j c' hc'
    by_cases hj : j = i
    · subst hj
      obtain rfl : { c with returned := true } = c' := by simpa [State.finish, hc] using hc'
      rcases inv.progress j c hc with hbefore | hafter
      · -- The call stack is still higher than it was at the call.
        obtain ⟨job, base, rest', hactive', -, hstage⟩ := hbefore.stage
        have hlt := hstage.height
        rw [hactive] at hactive'
        obtain ⟨⟨-, rfl⟩, -⟩ : (j = j ∧ height = base.length) ∧ rest = rest' := by
          simpa using hactive'
        simp only [State.height] at hheight
        omega
      · refine .inr ⟨hafter.inline, fun hinside => ?_⟩
        have hentered := hafter.entered hinside
        simp only [State.finish, List.count_append, List.count_singleton_self, Bool.toNat_true]
        omega
    · rw [hcalls j hj] at hc'
      rcases inv.progress j c' hc' with hbefore | hafter
      · obtain ⟨job, base, rest', hactive', -⟩ := hbefore.stage
        have hne : c'.caller ≠ c.caller := by
          intro e
          rw [e, hactive] at hactive'
          exact hj (congrArg Prod.fst (List.cons.inj hactive').1).symm
        exact .inl (hbefore.of_same rfl (Function.update_of_ne hne ..) ⟨rfl, rfl, rfl⟩
          ⟨hglobal j hj hbefore.alone.global, hbefore.alone.others⟩)
      · refine .inr (hafter.mono (List.Subset.refl _) ?_)
        simp only [State.finish, List.count_append]
        omega

/-! ## A step of the job queues -/

theorem Unused.next {timeUp : Bool} {queues : JobQueue.State (Queue Q) J T} (h : Unused s i)
    (hshape : (s.queues.thread t).Shape)
    (hqueues : JobQueue.step s.queues (t, .next timeUp) = some queues) :
    (∀ t', ∀ frame ∈ (queues.thread t').stack, ¬ frame.Mentions (.temporary i)) ∧
      .temporary i ∉ queues.globalQueue ∧ JobQueue.SameQueue s.queues queues (.temporary i) := by
  obtain ⟨hsame, hglobal, hframes⟩ := JobQueue.next_spares hqueues (h.frames t) h.global
  obtain ⟨th, hthread, -⟩ := JobQueue.next_shape hqueues hshape
  refine ⟨fun t' => ?_, hglobal, hsame⟩
  by_cases ht : t' = t
  · subst ht
    exact hframes
  · rw [hthread, Function.update_of_ne ht]
    exact h.frames t'

theorem Inv.next {timeUp : Bool} {queues : JobQueue.State (Queue Q) J T} (inv : Inv s)
    (hqueues : JobQueue.step s.queues (t, .next timeUp) = some queues) :
    Inv { s with
      queues := queues
      entered := s.entered ++ (entering (s.queues.thread t)).toList
      runs := s.runs ++ (s.run t).toList } := by
  obtain ⟨th, hthread, hshape⟩ := JobQueue.next_shape hqueues (inv.shape t)
  refine ⟨JobQueue.shape_update hthread inv.shape hshape, ?_, inv.active, ?_⟩
  · intro i hi
    have hunused := inv.unused i hi
    obtain ⟨hframes, hglobal, hsame⟩ := hunused.next (inv.shape t) hqueues
    exact ⟨hunused.calls, hglobal, hframes, hsame.jobCount.trans hunused.jobCount,
      hsame.jobs.trans hunused.jobs⟩
  · intro i c hc
    rcases inv.progress i c hc with hbefore | hafter
    · by_cases ht : c.caller = t
      · subst ht
        obtain ⟨job, base, rest, hactive, hbase, hstage⟩ := hbefore.stage
        have hothers : ∀ t', t' ≠ c.caller →
            ∀ frame ∈ (queues.thread t').stack, ¬ frame.Mentions (.temporary i) := by
          intro t' ht'
          rw [hthread, Function.update_of_ne ht']
          exact hbefore.alone.others t' ht'
        rcases hstage.next hqueues with ⟨hstage', hglobal⟩ | ⟨hinside, henter⟩ |
          ⟨houtside, hstart, hstack⟩
        · refine .inl ⟨hbefore.returned, ⟨?_, hothers⟩, job, base, rest, hactive, hbase, hstage'⟩
          rw [hglobal]
          exact hbefore.alone.global
        · refine .inr ⟨fun houtside => by simp [hinside] at houtside, fun _ => ?_⟩
          simp [henter, hbefore.returned]
        · refine .inr ⟨fun _ => ?_, fun hinside => by simp [houtside] at hinside⟩
          have hreturned : s.returned i = false := by
            rw [State.returned, show s.calls i = some c from hc]
            exact hbefore.returned
          have hrun : s.run c.caller = some ⟨i, c.caller, false, false⟩ := by
            simp [State.run, hstart, hstack, hbase houtside, isGlobalQueueWork, hreturned]
          simp [hrun]
      · have hne : ∀ t', t' ≠ t → queues.thread t' = s.queues.thread t' := by
          intro t' ht'
          rw [hthread, Function.update_of_ne ht']
        obtain ⟨hsame, hglobal, hframes⟩ :=
          JobQueue.next_spares hqueues (hbefore.alone.others t (Ne.symm ht)) hbefore.alone.global
        refine .inl (hbefore.of_same (hne _ ht) rfl hsame ⟨hglobal, fun t' ht' => ?_⟩)
        by_cases e : t' = t
        · subst e
          exact hframes
        · rw [hne t' e]
          exact hbefore.alone.others t' ht'
    · refine .inr (hafter.mono (List.subset_append_left _ _) ?_)
      simp only [List.count_append]
      omega

/-! ## Whole runs -/

theorem Inv.step {a : T × Op Q J} (inv : Inv s) (h : step s a = some s') : Inv s' := by
  obtain ⟨t, op⟩ := a
  simp only [ThreadManager.step] at h
  cases hend : s.atEnd t with
  | some call =>
    obtain ⟨i, rest⟩ := call
    rw [hend] at h
    obtain ⟨height, hactive, hheight⟩ : ∃ height, s.active t = (i, height) :: rest ∧
        s.height t = height := by
      unfold State.atEnd at hend
      split at hend
      · next j height rest' hactive =>
        simp only [Option.ite_none_right_eq_some, Option.some.injEq, Prod.mk.injEq] at hend
        obtain ⟨hheight, rfl, rfl⟩ := hend
        exact ⟨height, hactive, hheight⟩
      · cases hend
    cases op with
    | next timeUp =>
      obtain rfl := Option.some.inj h
      exact inv.finish hactive hheight
    | pushGlobalQueue job => cases h
    | doAsync q job => cases h
    | doGlobalQueueWork => cases h
  | none =>
    rw [hend] at h
    cases op with
    | next timeUp =>
      obtain ⟨queues, hqueues, rfl⟩ := Option.map_eq_some_iff.1 h
      exact inv.next hqueues
    | pushGlobalQueue job =>
      obtain ⟨queues, hqueues, rfl⟩ := Option.map_eq_some_iff.1 h
      exact inv.begin hqueues
    | doAsync q job =>
      obtain ⟨queues, hqueues, rfl⟩ := Option.map_eq_some_iff.1 h
      obtain ⟨hmay, rfl⟩ : JobQueue.mayCallDoAsync (s.queues.thread t).stack ∧
          s.queues.setStack t (.push (.object q) job .fetchAdd :: (s.queues.thread t).stack) =
            queues := by
        simpa [JobQueue.step] using hqueues
      exact inv.call hmay (fun i e => by cases e) ((inv.shape t).doAsync hmay)
    | doGlobalQueueWork =>
      obtain ⟨queues, hqueues, rfl⟩ := Option.map_eq_some_iff.1 h
      obtain ⟨hstack, rfl⟩ : (s.queues.thread t).stack = [] ∧
          s.queues.setStack t (.globalQueueWork :: (s.queues.thread t).stack) = queues := by
        cases hstack : (s.queues.thread t).stack with
        | nil => simpa [JobQueue.step, hstack] using hqueues
        | cons frame rest => simp [JobQueue.step, hstack] at hqueues
      refine inv.call (by rw [hstack]; rfl) (fun i e => e) ?_
      have hshape := inv.shape t
      simp only [JobQueue.Thread.Shape, hstack] at hshape ⊢
      exact hshape

theorem inv_of_reachable (h : (system Q J T).Reachable s) : Inv s := by
  refine Transition.System.Reachable.invariant ?_ ?_ h
  · rintro _ rfl
    exact inv_initial
  · exact fun s a s' inv h => inv.step h

/-- No call of `PushGlobalQueue` that has returned kept the promise: called outside of a job it ran
the job itself, called inside a job it entered the temporary queue twice. -/
theorem pushGlobalQueue_broken (h : (system Q J T).Reachable s) (hc : s.calls i = some c)
    (hreturned : c.returned = true) :
    ¬ HandedOver s i c ∧
      (c.insideJob = false → ⟨i, c.caller, false, false⟩ ∈ s.runs) ∧
      (c.insideJob = true → 2 ≤ s.entered.count (.temporary i)) := by
  have hafter : After s i c := by
    refine ((inv_of_reachable h).progress i c hc).resolve_left fun hbefore => ?_
    rw [hbefore.returned] at hreturned
    cases hreturned
  have hentered : c.insideJob = true → 2 ≤ s.entered.count (.temporary i) := by
    intro hinside
    simpa [hreturned] using hafter.entered hinside
  refine ⟨fun hkept => ?_, hafter.inline, hentered⟩
  cases hinside : c.insideJob with
  | false => cases hkept.worker _ (hafter.inline hinside) rfl
  | true =>
    have htwice := hentered hinside
    rw [hkept.entry] at htwice
    omega

/-- A job calls `PushGlobalQueue`, and the temporary queue is in the global queue twice. -/
theorem pushGlobalQueue_broken_inside_job :
    ∃ s c, (system Unit Unit Unit).Reachable s ∧ s.calls 0 = some c ∧ c.insideJob = true ∧
      c.returned = true ∧ s.queues.globalQueue = [.temporary 0, .temporary 0] ∧
      ¬ HandedOver s 0 c := by
  have hrun : (system Unit Unit Unit).run .initial
      (List.flatten [[((), .doAsync () ())], List.replicate 6 ((), .next false),
        [((), .pushGlobalQueue ())], List.replicate 4 ((), .next false)]) = some _ := rfl
  have hreach := Transition.System.reachable_of_run (.init rfl) hrun
  exact ⟨_, _, hreach, rfl, rfl, rfl, rfl, (pushGlobalQueue_broken hreach rfl rfl).1⟩

/-- A thread outside of every job calls `PushGlobalQueue` and runs the job before the call returns,
and not inside `DoGlobalQueueWork`. -/
theorem pushGlobalQueue_runs_inline :
    ∃ s c, (system Unit Unit Unit).Reachable s ∧ s.calls 0 = some c ∧ c.returned = true ∧
      s.runs = [⟨0, c.caller, false, false⟩] ∧ ¬ HandedOver s 0 c := by
  have hrun : (system Unit Unit Unit).run .initial
      (((), .pushGlobalQueue ()) :: List.replicate 12 ((), .next false)) = some _ := rfl
  refine ⟨_, _, Transition.System.reachable_of_run (.init rfl) hrun, rfl, rfl, rfl, ?_⟩
  exact fun hkept => nomatch hkept.worker _ (List.mem_singleton.2 rfl) rfl

end ThreadManager

end DhNet
