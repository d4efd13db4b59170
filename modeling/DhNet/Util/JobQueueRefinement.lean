import DhNet.Lib.SerialQueue
import DhNet.Util.JobQueueProof

/-!
# Job queues refine serial executors

The job queues, whatever their threads do, behave as first-in first-out queues that run one job at
a time: entering a job into `m_jobs` submits it, and the steps of `Execute` around a job start and
finish it.  All other steps are invisible.
-/

namespace DhNet

namespace JobQueue

variable {Q J T : Type*} [DecidableEq Q]

/-- The job of `q` that an activation is running. -/
def Frame.runs (q : Q) : Frame Q J → Option J
  | .execute q' (.running job _ _) => if q' = q then some job else none
  | _ => none

/-- `Execute` of a queue runs no job of another one. -/
theorem Frame.runs_execute_of_ne {q q' : Q} (hne : q' ≠ q) (pc : ExecutePc J) :
    (Frame.execute q pc).runs q' = none := by
  cases pc <;> simp [Frame.runs, Ne.symm hne]

/-- Some thread is running the job of `q`. -/
def State.Running (s : State Q J T) (q : Q) (job : J) : Prop :=
  ∃ t, ∃ frame ∈ (s.thread t).stack, frame.runs q = some job

/-- The serial executor seen through the threads. -/
def Abstracts (s : State Q J T) (a : SerialQueue.State Q J) : Prop :=
  ∀ q, s.pushed q = s.ran q ++ a.waiting q ∧ ∀ job, a.running q = some job ↔ s.Running q job

variable [DecidableEq T] {s s' : State Q J T} {a : SerialQueue.State Q J} {t : T} {q : Q}
  {current current' : Option Q} {rest : List (Frame Q J)}

/-- A step between activations that run no job of `q` changes nothing about what runs of `q`. -/
theorem running_same (old new : List (Frame Q J)) (hth : s.thread t = ⟨current, old ++ rest⟩)
    (hs : s'.thread = Function.update s.thread t ⟨current', new ++ rest⟩)
    (none : ∀ f ∈ old ++ new, f.runs q = none) (job : J) :
    s'.Running q job ↔ s.Running q job := by
  have hold : ¬ ∃ f ∈ old, f.runs q = some job := by
    rintro ⟨f, hf, hr⟩
    simp [none f (by simp [hf])] at hr
  have hnew : ¬ ∃ f ∈ new, f.runs q = some job := by
    rintro ⟨f, hf, hr⟩
    simp [none f (by simp [hf])] at hr
  unfold State.Running
  rw [exists_frame_update hs,
    exists_frame_update (s := s) (Function.update_eq_self t s.thread).symm]
  simp only [hth, List.mem_append, or_and_right, exists_or, hold, hnew, false_or]

/-- A step that enters, starts and finishes no job is invisible. -/
theorem Abstracts.stutter (h : Abstracts s a) (old new : List (Frame Q J))
    (hth : s.thread t = ⟨current, old ++ rest⟩)
    (hs : s'.thread = Function.update s.thread t ⟨current', new ++ rest⟩)
    (pushed : s'.pushed = s.pushed) (ran : s'.ran = s.ran)
    (none : ∀ f ∈ old ++ new, ∀ q, f.runs q = none) : Abstracts s' a := by
  intro q
  refine ⟨by rw [pushed, ran]; exact (h q).1, fun job => ((h q).2 job).trans ?_⟩
  exact (running_same old new hth hs (fun f hf => none f hf q) job).symm

/-! ## Entering a job -/

theorem Abstracts.enqueue (h : Abstracts s a) {job : J} {prevCount : ℤ}
    (hth : s.thread t = ⟨current, .push q job (.enqueue prevCount) :: rest⟩) :
    Abstracts (stepPush s t q job rest (.enqueue prevCount))
      { a with waiting := Function.update a.waiting q (a.waiting q ++ [job]) } := by
  have hstutter : Abstracts (s.setStack t (.push q job (.handOver prevCount) :: rest)) a :=
    h.stutter [_] [_] hth rfl rfl rfl (by simp [Frame.runs])
  intro q'
  refine ⟨?_, (hstutter q').2⟩
  by_cases e : q' = q
  · subst e
    simp [stepPush, State.setStack, (h q').1]
  · simpa [stepPush, State.setStack, e] using (h q').1

theorem Abstracts.step_push (h : Abstracts s a) {job : J} {pc : PushPc}
    (hth : s.thread t = ⟨current, .push q job pc :: rest⟩) :
    ∃ bs a', (SerialQueue.system Q J).run a bs = some a' ∧
      Abstracts (stepPush s t q job rest pc) a' := by
  cases pc with
  | enqueue prevCount => exact ⟨[.submit q job], _, rfl, h.enqueue hth⟩
  | fetchAdd =>
    exact ⟨[], a, rfl, h.stutter [_] [_] hth rfl rfl rfl (by simp [Frame.runs])⟩
  | executing =>
    exact ⟨[], a, rfl, h.stutter [_] [] hth rfl rfl rfl (by simp [Frame.runs])⟩
  | handOver prevCount =>
    refine ⟨[], a, rfl, ?_⟩
    simp only [stepPush]
    split_ifs
    · split
      · exact h.stutter [_] [] hth rfl rfl rfl (by simp [Frame.runs])
      · exact h.stutter [_] [_, _] hth rfl rfl rfl (by simp [Frame.runs])
    · exact h.stutter [_] [] hth rfl rfl rfl (by simp [Frame.runs])

/-! ## Running a job -/

theorem Abstracts.step_globalQueueWork (h : Abstracts s a) (timeUp : Bool)
    (hth : s.thread t = ⟨current, .globalQueueWork :: rest⟩) :
    Abstracts (stepGlobalQueueWork s t timeUp rest) a := by
  unfold stepGlobalQueueWork
  split_ifs
  · exact h.stutter [_] [] hth rfl rfl rfl (by simp [Frame.runs])
  · split
    · exact h.stutter [_] [] hth rfl rfl rfl (by simp [Frame.runs])
    · exact h.stutter [_] [_, _] hth rfl rfl rfl (by simp [Frame.runs])

section Execute

variable [Fintype T] {pc pc' : ExecutePc J}

theorem Frame.tokens_pos_of_runs {f : Frame Q J} {job : J} (h : f.runs q = some job) :
    0 < f.tokens q := by
  unfold Frame.runs at h
  split at h
  · simp only [Option.ite_none_right_eq_some] at h
    simp [Frame.tokens, h.1, ExecutePc.holds]
  · simp at h

/-- While `t` executes `q`, only `t` can run a job of `q`. -/
theorem running_execute (inv : Inv s) (hth : s.thread t = ⟨current, .execute q pc :: rest⟩)
    (hold : pc.holds)
    (hs : s'.thread = Function.update s.thread t ⟨current', .execute q pc' :: rest⟩)
    (job : J) : s'.Running q job ↔ (Frame.execute q pc').runs q = some job := by
  have hshape := inv.shape t
  rw [hth, Thread.shape_execute_iff] at hshape
  obtain ⟨-, base, rfl, hb⟩ := hshape
  have hbase : base.runs q = none := by
    cases base <;> simp_all [Frame.Calls, Frame.runs]
  have hpos : 0 < (s.thread t).tokens q := by
    simp [Thread.tokens, hth, Frame.tokens, hold]
  have hle : ∑ t, (s.thread t).tokens q ≤ 1 :=
    le_trans (Nat.le_add_left _ _) (inv.queue q).tokens_le
  unfold State.Running
  rw [exists_frame_update hs, or_iff_left]
  · simp [hbase]
  · rintro ⟨t', ht, f, hf, hr⟩
    exact ht (Counting.eq_of_sum_le_one (fun t => (s.thread t).tokens q) hle
      (tokens_pos_of_mem hf (Frame.tokens_pos_of_runs hr)) hpos)

/-- What the executor of `q` runs, in the serial executor. -/
theorem Abstracts.running_eq (inv : Inv s) (h : Abstracts s a)
    (hth : s.thread t = ⟨current, .execute q pc :: rest⟩) (hold : pc.holds) :
    a.running q = (Frame.execute q pc).runs q := by
  refine Option.ext fun job => ((h q).2 job).trans ?_
  exact running_execute inv hth hold (hth ▸ (Function.update_eq_self t s.thread).symm) job

/-- A step of the executor of `q` that changes which job of `q` runs. -/
theorem Abstracts.of_execute (inv : Inv s) (h : Abstracts s a)
    (hth : s.thread t = ⟨current, .execute q pc :: rest⟩) (hold : pc.holds) (pc' : ExecutePc J)
    (hs : s'.thread = Function.update s.thread t ⟨current', .execute q pc' :: rest⟩)
    (pushed : s'.pushed = s.pushed) (jobs : List J)
    (ran : s'.ran = Function.update s.ran q (s.ran q ++ jobs)) (waiting : List J)
    (hwaiting : a.waiting q = jobs ++ waiting) :
    Abstracts s' ⟨Function.update a.waiting q waiting,
      Function.update a.running q ((Frame.execute q pc').runs q)⟩ := by
  intro q'
  rw [pushed, ran]
  by_cases e : q' = q
  · subst e
    refine ⟨by simp [(h q').1, hwaiting], fun job => ?_⟩
    rw [running_execute inv hth hold hs]
    simp
  · refine ⟨by simp [e, (h q').1], fun job => ?_⟩
    have hsame := running_same [_] [_] (q := q') hth hs
      (by simp [Frame.runs_execute_of_ne e]) job
    rw [hsame, ← (h q').2]
    simp [e]

theorem Abstracts.start (inv : Inv s) (h : Abstracts s a) {job : J} {jobs : List J} {n : ℕ}
    (timeUp : Bool) (hth : s.thread t = ⟨current, .execute q (.run (job :: jobs) n) :: rest⟩) :
    ∃ a', SerialQueue.step a (.start q) = some a' ∧
      Abstracts (stepExecute s t timeUp q rest (.run (job :: jobs) n)) a' := by
  have hbatch : s.Batch q (job :: jobs) :=
    ⟨t, _, by rw [hth]; exact List.mem_cons_self, by simp [Frame.rest, ExecutePc.holds,
      ExecutePc.remaining]⟩
  have hwaiting : a.waiting q = job :: (jobs ++ s.jobs q) := by
    have horder := (inv.queue q).order _ hbatch
    rw [(h q).1, List.append_assoc] at horder
    simpa using horder
  have hidle : a.running q = none := h.running_eq inv hth rfl
  have hstep : Abstracts (stepExecute s t timeUp q rest (.run (job :: jobs) n)) _ :=
    h.of_execute inv hth rfl (.running job jobs n) (by rfl) (by rfl) [job] (by rfl) _ hwaiting
  refine ⟨_, ?_, hstep⟩
  simp [SerialQueue.step, hwaiting, hidle, Frame.runs]

theorem Abstracts.finish (inv : Inv s) (h : Abstracts s a) {job : J} {jobs : List J} {n : ℕ}
    (timeUp : Bool) (hth : s.thread t = ⟨current, .execute q (.running job jobs n) :: rest⟩) :
    ∃ a', SerialQueue.step a (.finish q) = some a' ∧
      Abstracts (stepExecute s t timeUp q rest (.running job jobs n)) a' := by
  have hrunning : a.running q = some job := by
    rw [h.running_eq inv hth rfl]
    simp [Frame.runs]
  have hstep : Abstracts (stepExecute s t timeUp q rest (.running job jobs n)) _ :=
    h.of_execute inv hth rfl (.run jobs n) (by rfl) (by rfl) []
      (by simp [stepExecute, State.setStack]) _ rfl
  refine ⟨_, ?_, hstep⟩
  simp [SerialQueue.step, hrunning, Frame.runs]

theorem Abstracts.step_execute (inv : Inv s) (h : Abstracts s a) (timeUp : Bool)
    (hth : s.thread t = ⟨current, .execute q pc :: rest⟩) :
    ∃ bs a', (SerialQueue.system Q J).run a bs = some a' ∧
      Abstracts (stepExecute s t timeUp q rest pc) a' := by
  cases pc with
  | run jobs n =>
    cases jobs with
    | nil =>
      exact ⟨[], a, rfl, h.stutter [_] [_] hth rfl rfl rfl (by simp [Frame.runs])⟩
    | cons job jobs =>
      obtain ⟨a', ha, h'⟩ := h.start inv timeUp hth
      exact ⟨[.start q], a', by simp [Transition.System.run, SerialQueue.system, ha], h'⟩
  | running job jobs n =>
    obtain ⟨a', ha, h'⟩ := h.finish inv timeUp hth
    exact ⟨[.finish q], a', by simp [Transition.System.run, SerialQueue.system, ha], h'⟩
  | enter | popAll =>
    exact ⟨[], a, rfl, h.stutter [_] [_] hth rfl rfl rfl (by simp [Frame.runs])⟩
  | fetchSub n =>
    refine ⟨[], a, rfl, h.stutter [_] [_] hth rfl rfl rfl fun f hf q => ?_⟩
    split_ifs at hf
    · simp only [List.cons_append, List.nil_append, List.mem_cons, List.not_mem_nil, or_false] at hf
      rcases hf with rfl | rfl <;> rfl
    · simp only [List.cons_append, List.nil_append, List.mem_cons, List.not_mem_nil, or_false] at hf
      rcases hf with rfl | rfl <;> rfl
  | checkTime =>
    refine ⟨[], a, rfl, ?_⟩
    cases timeUp <;>
      exact h.stutter [_] [_] hth rfl rfl rfl (by simp [Frame.runs])
  | leave | rePush =>
    exact ⟨[], a, rfl, h.stutter [_] [] hth rfl rfl rfl (by simp [Frame.runs])⟩

/-! ## All steps -/

theorem Abstracts.step {op : T × Op Q J} (inv : Inv s) (h : Abstracts s a)
    (hstep : JobQueue.step s op = some s') :
    ∃ bs a', (SerialQueue.system Q J).run a bs = some a' ∧ Abstracts s' a' := by
  obtain ⟨t, op⟩ := op
  rcases hth : s.thread t with ⟨current, stack⟩
  simp only [JobQueue.step, hth] at hstep
  cases op with
  | doAsync q job =>
    simp only [Option.ite_none_right_eq_some, Option.some.injEq] at hstep
    obtain ⟨-, rfl⟩ := hstep
    exact ⟨[], a, rfl, h.stutter [] [_] hth rfl rfl rfl (by simp [Frame.runs])⟩
  | doGlobalQueueWork =>
    cases stack with
    | nil =>
      simp only [Option.some.injEq] at hstep
      subst hstep
      exact ⟨[], a, rfl, h.stutter [] [_] hth rfl rfl rfl (by simp [Frame.runs])⟩
    | cons frame rest => simp at hstep
  | next timeUp =>
    cases stack with
    | nil => simp at hstep
    | cons frame rest =>
      cases frame with
      | push q job pc =>
        simp only [Option.some.injEq] at hstep
        exact hstep ▸ h.step_push hth
      | execute q pc =>
        simp only [Option.some.injEq] at hstep
        exact hstep ▸ h.step_execute inv timeUp hth
      | globalQueueWork =>
        simp only [Option.some.injEq] at hstep
        exact ⟨[], a, rfl, hstep ▸ h.step_globalQueueWork timeUp hth⟩

/-- The job queues with all their threads behave as serial executors. -/
theorem refines_serialQueue :
    Transition.System.Simulation (system Q J T) (SerialQueue.system Q J) Abstracts where
  init s hs := by
    refine ⟨_, rfl, fun q => ?_⟩
    rw [show s = State.initial from hs]
    simp [State.initial, State.Running]
  step s op s' a hs _ h hstep := h.step (inv_of_reachable hs) hstep

end Execute

end JobQueue

end DhNet
