import DhNet.Lib.Execution
import DhNet.Util.JobQueueDrain

/-!
# Every job runs

In an infinite execution whose threads go on, whose jobs return and whose workers look into the
global queue again and again (`Fair`), every job entered into a queue starts.  While a queue has
jobs that have not started, somebody holds its token: a pusher that saw zero, an executor, or an
entry of the global queue.  One lemma for each of these places follows the token until the next job
of the queue starts, and the jobs before a given one are counted down by induction.
-/

namespace DhNet

namespace JobQueue

open Transition.System (Execution)

variable {Q J T : Type*}

/-! ## What a step adds -/

section Steps

variable [DecidableEq Q] [DecidableEq T] {s s' : State Q J T} {t : T}

/-- Jobs that have started stay in the history, and only a worker inside `DoGlobalQueueWork` takes
an entry out of the global queue. -/
theorem step_grows {a : T × Op Q J} (h : step s a = some s') :
    (∀ q, s.ran q <+: s'.ran q) ∧ (s.globalQueue <+: s'.globalQueue ∨
      a.2 = .next false ∧ ∃ rest, (s.thread a.1).stack = .globalQueueWork :: rest) := by
  obtain ⟨t, op⟩ := a
  have hkept : ∀ {P : Prop}, (∀ q, s.ran q <+: s.ran q) ∧ (s.globalQueue <+: s.globalQueue ∨ P) :=
    ⟨fun q => List.prefix_rfl, .inl List.prefix_rfl⟩
  simp only [step] at h
  split at h
  · obtain ⟨-, ⟨⟩⟩ := Option.ite_none_right_eq_some.1 h
    exact hkept
  · cases h
    exact hkept
  · cases h
  · cases h
  · rename_i q' job pc rest hth
    cases h
    cases pc with
    | handOver prevCount =>
      simp only [stepPush]
      split_ifs
      · split
        · exact ⟨fun q => List.prefix_rfl, .inl (List.prefix_append _ _)⟩
        · exact hkept
      · exact hkept
    | _ => exact hkept
  · rename_i timeUp q' pc rest hth
    cases h
    cases pc with
    | run jobs jobCount =>
      cases jobs with
      | nil => exact hkept
      | cons job jobs =>
        refine ⟨fun q => ?_, .inl List.prefix_rfl⟩
        simp only [stepExecute, State.setStack]
        by_cases hq : q = q'
        · subst hq
          rw [Function.update_self]
          exact List.prefix_append _ _
        · rw [Function.update_of_ne hq]
    | checkTime => cases timeUp <;> exact hkept
    | rePush => exact ⟨fun q => List.prefix_rfl, .inl (List.prefix_append _ _)⟩
    | _ => exact hkept
  · rename_i timeUp rest hth
    cases h
    unfold stepGlobalQueueWork
    cases timeUp with
    | true => exact hkept
    | false =>
      refine ⟨fun q => ?_, .inr ⟨rfl, rest, hth⟩⟩
      rw [if_neg Bool.false_ne_true]
      split <;> exact List.prefix_rfl

/-- A thread whose innermost activation is no running job goes on with it. -/
theorem exists_next_of_step {op : Op Q J} (h : step s (t, op) = some s')
    (hstack : (s.thread t).stack ≠ []) (hcall : mayCallDoAsync (s.thread t).stack = false) :
    ∃ timeUp, op = .next timeUp := by
  cases op with
  | doAsync q job => simp [step, hcall] at h
  | doGlobalQueueWork =>
    cases hs : (s.thread t).stack with
    | nil => exact absurd hs hstack
    | cons frame rest => simp [step, hs] at h
  | next timeUp => exact ⟨timeUp, rfl⟩

end Steps

/-! ## The next job of a queue -/

/-- An executor is the innermost activation, or its job is inside a call of `DoAsync`. -/
theorem Thread.Shape.execute_mem {th : Thread Q J} (h : th.Shape) {q : Q} {pc : ExecutePc J}
    (hmem : .execute q pc ∈ th.stack) :
    (∃ rest, th.stack = .execute q pc :: rest) ∨
      ∃ job jobs jobCount rest, .execute q (.running job jobs jobCount) :: rest <:+ th.stack := by
  unfold Thread.Shape at h
  split at h
  · simp_all
  · simp_all
  · simp_all
  · rename_i q' pc' base heq
    rw [heq, List.mem_cons, List.mem_singleton] at hmem
    rcases hmem with hmem | rfl
    · cases hmem
      exact .inl ⟨_, heq⟩
    · exact h.2.elim
  · rename_i q₁ job₁ pc₁ q₂ job₂ jobs₂ jobCount₂ base heq
    rw [heq, List.mem_cons, List.mem_cons, List.mem_singleton] at hmem
    rcases hmem with hmem | hmem | rfl
    · cases hmem
    · cases hmem
      exact .inr ⟨job₂, jobs₂, jobCount₂, [base], heq ▸ List.suffix_cons _ _⟩
    · exact h.2.2.elim
  · exact h.elim

/-- The job that is next in the order of `q` has been entered and has not started; `count` jobs
have. -/
def State.Owes (s : State Q J T) (q : Q) (count : ℕ) : Prop :=
  (s.ran q).length = count ∧ count < (s.pushed q).length

section Owes

variable [DecidableEq Q] [Fintype T] {s : State Q J T} {t : T} {q : Q} {count : ℕ}

/-- The jobs that have started are the first ones entered. -/
theorem QueueInv.ran_initial (inv : QueueInv s q) : s.ran q <+: s.pushed q := by
  by_cases hbatch : ∃ jobs, s.Batch q jobs
  · obtain ⟨jobs, hbatch⟩ := hbatch
    exact ⟨jobs ++ s.jobs q, by rw [inv.order jobs hbatch, List.append_assoc]⟩
  · exact ⟨s.jobs q, (inv.idle fun jobs hj => hbatch ⟨jobs, hj⟩).symm⟩

/-- An executor at the end of its batch finds the owed job in `m_jobs`. -/
theorem State.Owes.jobs_ne_nil (howes : s.Owes q count) (inv : QueueInv s q)
    {pc : ExecutePc J} (hmem : .execute q pc ∈ (s.thread t).stack) (hholds : pc.holds = true)
    (hrest : pc.remaining = []) : s.jobs q ≠ [] := by
  intro hjobs
  obtain ⟨hran, hpushed⟩ := howes
  have horder := inv.order [] ⟨t, _, hmem, by simp [Frame.rest, hholds, hrest]⟩
  rw [hjobs] at horder
  simp only [List.append_nil] at horder
  rw [horder, hran] at hpushed
  exact Nat.lt_irrefl _ hpushed

/-- A queue that owes a job has a token. -/
theorem State.Owes.exists_token (howes : s.Owes q count) (inv : Inv s) :
    ∃ token, s.HasToken q token := by
  rw [exists_hasToken_iff]
  by_contra hzero
  have hq := inv.queue q
  have hidle : s.pushed q = s.ran q ++ s.jobs q := by
    refine hq.idle fun jobs hbatch => ?_
    obtain ⟨t, frame, hf, hrest⟩ := hbatch
    have hpos := tokens_pos_of_mem hf (Frame.tokens_pos_of_rest hrest)
    have hle := Thread.tokens_le_sum s t q
    unfold State.tokens at hzero
    omega
  obtain ⟨hran, hpushed⟩ := howes
  have hcount := hq.count
  have htoken := hq.token
  rw [hidle, List.length_append] at hpushed
  omega

end Owes

/-! ## Fair executions -/

section Fair

variable [DecidableEq Q] [DecidableEq T]

/-- What the scheduler and the jobs owe to the queues. -/
structure Fair (e : (system Q J T).Execution) : Prop where
  /-- A thread inside the modelled functions makes a step again. -/
  threads : ∀ n t, ((e.state n).thread t).stack ≠ [] →
    ∃ m, n ≤ m ∧ ∃ op, e.action m = some (t, op)
  /-- A job that has started returns, after any calls of `DoAsync` that it makes. -/
  jobs : ∀ n t q job jobs jobCount rest,
    .execute q (.running job jobs jobCount) :: rest <:+ ((e.state n).thread t).stack →
    ∃ m, n ≤ m ∧ ((e.state m).thread t).stack = .execute q (.running job jobs jobCount) :: rest ∧
      ∃ timeUp, e.action m = some (t, .next timeUp)
  /-- Some worker takes an entry out of the global queue, if there is one, again and again. -/
  workers : ∀ n, ∃ m, n ≤ m ∧ ∃ t rest,
    ((e.state m).thread t).stack = .globalQueueWork :: rest ∧ e.action m = some (t, .next false)

/-- More than `count` jobs of `q` have started. -/
def State.Started (s : State Q J T) (q : Q) (count : ℕ) : Prop := count < (s.ran q).length

variable {e : (system Q J T).Execution} {n m : ℕ} {t : T} {q : Q} {count : ℕ}
  {rest : List (Frame Q J)}

theorem ran_grows (e : (system Q J T).Execution) (hle : n ≤ m) (q : Q) :
    (e.state n).ran q <+: (e.state m).ran q :=
  e.related (R := fun s s' => s.ran q <+: s'.ran q) (fun _ => List.prefix_rfl) List.IsPrefix.trans
    (fun h => (step_grows h).1 q) hle

theorem pushed_grows (e : (system Q J T).Execution) (hle : n ≤ m) (q : Q) :
    (e.state n).pushed q <+: (e.state m).pushed q :=
  e.related (R := fun s s' => s.pushed q <+: s'.pushed q) (fun _ => List.prefix_rfl)
    List.IsPrefix.trans (fun h => (step_shared h).1 q) hle

/-- Later the next job is still owed, unless it has started. -/
theorem State.Owes.later (h : (e.state n).Owes q count) (hle : n ≤ m) :
    (e.state m).Started q count ∨ (e.state m).Owes q count := by
  obtain ⟨hran, hpushed⟩ := h
  have hr := (ran_grows e hle q).length_le
  have hp := (pushed_grows e hle q).length_le
  rcases Nat.lt_or_ge count ((e.state m).ran q).length with hlt | hge
  · exact .inl hlt
  · exact .inr ⟨Nat.le_antisymm hge (hran ▸ hr), hpushed.trans_le hp⟩

/-- It is enough to follow the queue from a later time at which the job is still owed. -/
theorem State.Owes.eventually (h : (e.state n).Owes q count) (hle : n ≤ m)
    (hlater : (e.state m).Owes q count → e.Eventually m (State.Started · q count)) :
    e.Eventually n (State.Started · q count) := by
  rcases h.later hle with hstarted | howes
  · exact ⟨m, hle, hstarted⟩
  · exact (hlater howes).of_le hle

/-- A thread is as it was until it makes a step itself. -/
theorem Fair.exists_step (fair : Fair e) (hstack : ((e.state n).thread t).stack ≠ []) :
    ∃ m, n ≤ m ∧ (e.state m).thread t = (e.state n).thread t ∧
      ∃ op, e.action m = some (t, op) := by
  have hacts : ∃ m, n ≤ m ∧ ∃ a, e.action m = some a ∧ a.1 = t := by
    obtain ⟨m, hm, op, hop⟩ := fair.threads n t hstack
    exact ⟨m, hm, (t, op), hop, rfl⟩
  obtain ⟨m, hm, hsame, ⟨t', op⟩, ha, rfl⟩ :=
    e.exists_until (R := fun s s' => s'.thread t = s.thread t) (fun _ => rfl)
      (fun h h' => h'.trans h) (fun hne h => (step_frame h).1 t (Ne.symm hne)) hacts
  exact ⟨m, hm, hsame, op, ha⟩

/-- A thread whose innermost activation is no running job goes on with it. -/
theorem Fair.exists_next (fair : Fair e) {frame : Frame Q J}
    (hstack : ((e.state n).thread t).stack = frame :: rest)
    (hcall : mayCallDoAsync (frame :: rest) = false) :
    ∃ m, n ≤ m ∧ (e.state m).thread t = (e.state n).thread t ∧
      ∃ timeUp, step (e.state m) (t, .next timeUp) = some (e.state (m + 1)) := by
  obtain ⟨m, hm, hsame, op, hop⟩ := fair.exists_step (t := t) (n := n) (by simp [hstack])
  have hstep := e.step m _ hop
  obtain ⟨timeUp, rfl⟩ : ∃ timeUp, op = .next timeUp :=
    exists_next_of_step hstep (by simp [hsame, hstack]) (by rw [hsame, hstack]; exact hcall)
  exact ⟨m, hm, hsame, timeUp, hstep⟩

/-- An executor that is not running a job makes its next step, with the job still owed. -/
theorem State.Owes.execute (howes : (e.state n).Owes q count) (fair : Fair e) {pc : ExecutePc J}
    (hstack : ((e.state n).thread t).stack = .execute q pc :: rest)
    (hcall : mayCallDoAsync (.execute q pc :: rest) = false)
    (hnext : ∀ m timeUp, (e.state m).Owes q count →
      (e.state m).thread t = (e.state n).thread t →
      e.state (m + 1) = stepExecute (e.state m) t timeUp q rest pc →
      (e.state (m + 1)).Owes q count → e.Eventually (m + 1) (State.Started · q count)) :
    e.Eventually n (State.Started · q count) := by
  obtain ⟨m, hm, hsame, timeUp, hstep⟩ := fair.exists_next hstack hcall
  have hstate : e.state (m + 1) = stepExecute (e.state m) t timeUp q rest pc := by
    simp only [step, hsame, hstack, Option.some.injEq] at hstep
    exact hstep.symm
  refine howes.eventually hm fun howes' => ?_
  exact howes'.eventually (Nat.le_succ m) (hnext m timeUp howes' hsame hstate)

theorem State.Owes.of_run_cons (howes : (e.state n).Owes q count) (fair : Fair e) {job : J}
    {jobs : List J} {jobCount : ℕ}
    (hstack : ((e.state n).thread t).stack = .execute q (.run (job :: jobs) jobCount) :: rest) :
    e.Eventually n (State.Started · q count) := by
  refine howes.execute fair hstack rfl fun m timeUp howes' _ hstate _ => .now ?_
  rw [hstate, State.Started]
  simp [stepExecute, State.setStack, howes'.1]

/-- The next entry taken out of the global queue, which has only grown until then. -/
theorem Fair.exists_pop (fair : Fair e) {queue : Q} {queues : List Q}
    (hglobal : (e.state n).globalQueue = queue :: queues) :
    ∃ m t rest added, n ≤ m ∧
      ((e.state (m + 1)).thread t).stack = .execute queue .enter :: .globalQueueWork :: rest ∧
      (e.state (m + 1)).globalQueue = queues ++ added := by
  have hpop : ∃ m, n ≤ m ∧ ∃ a, e.action m = some a ∧ (a.2 = .next false ∧ ∃ rest,
      ((e.state m).thread a.1).stack = .globalQueueWork :: rest) := by
    obtain ⟨m, hm, t, rest, hstack, haction⟩ := fair.workers n
    exact ⟨m, hm, _, haction, rfl, rest, hstack⟩
  obtain ⟨m, hm, ⟨added, hadded⟩, ⟨t, op⟩, haction, hop, rest, hstack⟩ :=
    e.exists_until (R := fun s s' => s.globalQueue <+: s'.globalQueue)
      (fun _ => List.prefix_rfl) List.IsPrefix.trans
      (fun hne h => (step_grows h).2.resolve_right hne) hpop
  obtain rfl : op = .next false := hop
  have hstep : step (e.state m) (t, .next false) = some (e.state (m + 1)) := e.step m _ haction
  rw [hglobal, List.cons_append] at hadded
  simp only [step, hstack, stepGlobalQueueWork, ← hadded, LockQueue.pop, Option.some.injEq,
    if_neg Bool.false_ne_true] at hstep
  refine ⟨m, t, rest, added, hm, ?_, ?_⟩
  all_goals simp [← hstep, State.setStack]

/-- A call of `DoAsync` enters its job into `m_jobs`. -/
theorem Fair.exists_enqueue (fair : Fair e) {job : J}
    (hcall : e.action n = some (t, .doAsync q job)) :
    ∃ m prevCount, n < m ∧
      ((e.state m).thread t).stack =
        .push q job (.enqueue prevCount) :: ((e.state n).thread t).stack ∧
      (e.state (m + 1)).pushed q = (e.state m).pushed q ++ [job] := by
  have hstep : step (e.state n) (t, .doAsync q job) = some (e.state (n + 1)) := e.step n _ hcall
  simp only [step, Option.ite_none_right_eq_some, Option.some.injEq] at hstep
  have hfetch : ((e.state (n + 1)).thread t).stack =
      .push q job .fetchAdd :: ((e.state n).thread t).stack := by
    simp [← hstep.2, State.setStack]
  obtain ⟨m, hm, hsame, timeUp, hadd⟩ := fair.exists_next hfetch rfl
  simp only [step, hsame, hfetch, stepPush, Option.some.injEq] at hadd
  have henqueue : ((e.state (m + 1)).thread t).stack =
      .push q job (.enqueue ((e.state m).jobCount q)) :: ((e.state n).thread t).stack := by
    simp [← hadd, State.setStack]
  obtain ⟨m', hm', hsame', timeUp', henter⟩ := fair.exists_next henqueue rfl
  simp only [step, hsame', henqueue, stepPush, Option.some.injEq] at henter
  refine ⟨m', (e.state m).jobCount q, by omega, by rw [hsame', henqueue], ?_⟩
  simp [← henter, State.setStack]

end Fair

/-! ## Following the token -/

section Token

variable [DecidableEq Q] [DecidableEq T] [Fintype T] {e : (system Q J T).Execution} {n : ℕ} {t : T}
  {q : Q} {count : ℕ} {rest : List (Frame Q J)}

theorem State.Owes.of_popAll (howes : (e.state n).Owes q count) (fair : Fair e)
    (hstack : ((e.state n).thread t).stack = .execute q .popAll :: rest) :
    e.Eventually n (State.Started · q count) := by
  refine howes.execute fair hstack rfl fun m timeUp howes' hsame hstate howes'' => ?_
  have hmem : .execute q .popAll ∈ ((e.state m).thread t).stack := by simp [hsame, hstack]
  have inv := (inv_of_reachable (e.reachable m)).queue q
  obtain ⟨job, jobs, hcons⟩ := List.exists_cons_of_ne_nil (howes'.jobs_ne_nil inv hmem rfl rfl)
  have hrun : ((e.state (m + 1)).thread t).stack =
      .execute q (.run (job :: jobs) (job :: jobs).length) :: rest := by
    simp [hstate, stepExecute, State.setStack, hcons]
  exact howes''.of_run_cons fair hrun

theorem State.Owes.of_enter (howes : (e.state n).Owes q count) (fair : Fair e)
    (hstack : ((e.state n).thread t).stack = .execute q .enter :: rest) :
    e.Eventually n (State.Started · q count) := by
  refine howes.execute fair hstack rfl fun m timeUp _ _ hstate howes' => ?_
  have hpop : ((e.state (m + 1)).thread t).stack = .execute q .popAll :: rest := by
    simp [hstate, stepExecute, State.setThread]
  exact howes'.of_popAll fair hpop

/-- A queue that waits in the global queue: by induction on the number of entries before it. -/
theorem State.Owes.of_entry (howes : (e.state n).Owes q count) (fair : Fair e) {position : ℕ}
    (hentry : (e.state n).globalQueue[position]? = some q) :
    e.Eventually n (State.Started · q count) := by
  induction position generalizing n with
  | zero =>
    obtain ⟨queues, hglobal⟩ := List.head?_eq_some_iff.1 (List.head?_eq_getElem?.trans hentry)
    obtain ⟨m, t, rest, -, hm, hstack, -⟩ := fair.exists_pop hglobal
    exact howes.eventually (Nat.le_succ_of_le hm) fun howes' => howes'.of_enter fair hstack
  | succ position ih =>
    cases hglobal : (e.state n).globalQueue with
    | nil => simp [hglobal] at hentry
    | cons queue queues =>
      obtain ⟨m, -, -, added, hm, -, hqueues⟩ := fair.exists_pop hglobal
      refine howes.eventually (Nat.le_succ_of_le hm) fun howes' => ih howes' ?_
      rw [hglobal, List.getElem?_cons_succ] at hentry
      rw [hqueues, List.getElem?_append_left (List.getElem?_eq_some_iff.1 hentry).1]
      exact hentry

theorem State.Owes.of_rePush (howes : (e.state n).Owes q count) (fair : Fair e)
    (hstack : ((e.state n).thread t).stack = .execute q .rePush :: rest) :
    e.Eventually n (State.Started · q count) := by
  refine howes.execute fair hstack rfl fun m timeUp _ _ hstate howes' => ?_
  have hentry : (e.state (m + 1)).globalQueue[(e.state m).globalQueue.length]? = some q := by
    simp [hstate, stepExecute, State.setStack, State.pushGlobal, LockQueue.push]
  exact howes'.of_entry fair hentry

theorem State.Owes.of_checkTime (howes : (e.state n).Owes q count) (fair : Fair e)
    (hstack : ((e.state n).thread t).stack = .execute q .checkTime :: rest) :
    e.Eventually n (State.Started · q count) := by
  refine howes.execute fair hstack rfl fun m timeUp _ _ hstate howes' => ?_
  cases timeUp with
  | true =>
    have hrePush : ((e.state (m + 1)).thread t).stack = .execute q .rePush :: rest := by
      simp [hstate, stepExecute, State.setThread]
    exact howes'.of_rePush fair hrePush
  | false =>
    have hpop : ((e.state (m + 1)).thread t).stack = .execute q .popAll :: rest := by
      simp [hstate, stepExecute, State.setStack]
    exact howes'.of_popAll fair hpop

/-- The counter does not drop to zero while a job is owed. -/
theorem State.Owes.of_fetchSub (howes : (e.state n).Owes q count) (fair : Fair e) {jobCount : ℕ}
    (hstack : ((e.state n).thread t).stack = .execute q (.fetchSub jobCount) :: rest) :
    e.Eventually n (State.Started · q count) := by
  refine howes.execute fair hstack rfl fun m timeUp howes' hsame hstate howes'' => ?_
  have hmem : .execute q (.fetchSub jobCount) ∈ ((e.state m).thread t).stack := by
    simp [hsame, hstack]
  have inv := (inv_of_reachable (e.reachable m)).queue q
  have hne : (e.state m).jobCount q ≠ jobCount := by
    have hjobs := List.length_pos_iff.2 (howes'.jobs_ne_nil inv hmem rfl rfl)
    have hbatch := le_inFlight hmem q
    have hcount := inv.count
    simp only [Frame.inFlight, if_true, ExecutePc.batch] at hbatch
    omega
  have hcheck : ((e.state (m + 1)).thread t).stack = .execute q .checkTime :: rest := by
    simp [hstate, stepExecute, State.setStack, hne]
  exact howes''.of_checkTime fair hcheck

theorem State.Owes.of_run (howes : (e.state n).Owes q count) (fair : Fair e) {jobs : List J}
    {jobCount : ℕ}
    (hstack : ((e.state n).thread t).stack = .execute q (.run jobs jobCount) :: rest) :
    e.Eventually n (State.Started · q count) := by
  cases jobs with
  | nil =>
    refine howes.execute fair hstack rfl fun m timeUp _ _ hstate howes' => ?_
    have hsub : ((e.state (m + 1)).thread t).stack = .execute q (.fetchSub jobCount) :: rest := by
      simp [hstate, stepExecute, State.setStack]
    exact howes'.of_fetchSub fair hsub
  | cons job jobs => exact howes.of_run_cons fair hstack

/-- A running job returns, whatever it calls before. -/
theorem State.Owes.of_running (howes : (e.state n).Owes q count) (fair : Fair e) {job : J}
    {jobs : List J} {jobCount : ℕ}
    (hstack : .execute q (.running job jobs jobCount) :: rest <:+ ((e.state n).thread t).stack) :
    e.Eventually n (State.Started · q count) := by
  obtain ⟨m, hm, hstack', timeUp, haction⟩ := fair.jobs n t q job jobs jobCount rest hstack
  have hstep : step (e.state m) (t, .next timeUp) = some (e.state (m + 1)) := e.step m _ haction
  simp only [step, hstack', stepExecute, Option.some.injEq] at hstep
  have hrun : ((e.state (m + 1)).thread t).stack = .execute q (.run jobs jobCount) :: rest := by
    simp [← hstep, State.setStack]
  exact howes.eventually (Nat.le_succ_of_le hm) fun howes' => howes'.of_run fair hrun

theorem State.Owes.of_execute (howes : (e.state n).Owes q count) (fair : Fair e) {pc : ExecutePc J}
    (hmem : .execute q pc ∈ ((e.state n).thread t).stack) (hholds : pc.holds = true) :
    e.Eventually n (State.Started · q count) := by
  rcases ((inv_of_reachable (e.reachable n)).shape t).execute_mem hmem with ⟨rest, hstack⟩ |
    ⟨job, jobs, jobCount, rest, hsuffix⟩
  · cases pc with
    | enter => exact howes.of_enter fair hstack
    | popAll => exact howes.of_popAll fair hstack
    | run jobs jobCount => exact howes.of_run fair hstack
    | running job jobs jobCount => exact howes.of_running fair ⟨[], hstack.symm⟩
    | fetchSub jobCount => exact howes.of_fetchSub fair hstack
    | checkTime => exact howes.of_checkTime fair hstack
    | leave => cases hholds
    | rePush => exact howes.of_rePush fair hstack
  · exact howes.of_running fair hsuffix

/-- A pusher that saw zero and has entered its job hands its queue over. -/
theorem State.Owes.of_handOver (howes : (e.state n).Owes q count) (fair : Fair e) {job : J}
    (hstack : ((e.state n).thread t).stack = .push q job (.handOver 0) :: rest) :
    e.Eventually n (State.Started · q count) := by
  obtain ⟨m, hm, hsame, timeUp, hstep⟩ := fair.exists_next hstack rfl
  simp only [step, hsame, hstack, stepPush, if_true, Option.some.injEq] at hstep
  refine howes.eventually (Nat.le_succ_of_le hm) fun howes' => ?_
  split at hstep
  · have hentry : (e.state (m + 1)).globalQueue[(e.state m).globalQueue.length]? = some q := by
      simp [← hstep, State.setStack, State.pushGlobal, LockQueue.push]
    exact howes'.of_entry fair hentry
  · have henter : ((e.state (m + 1)).thread t).stack =
        .execute q .enter :: .push q job .executing :: rest := by
      simp [← hstep, State.setStack]
    exact howes'.of_enter fair henter

/-- The holder of the token starts the owed job. -/
theorem State.Owes.of_token (howes : (e.state n).Owes q count) (fair : Fair e) {token : Token T}
    (htoken : (e.state n).HasToken q token) : e.Eventually n (State.Started · q count) := by
  cases token with
  | entry position => exact howes.of_entry fair htoken
  | activation t depth =>
    obtain ⟨frame, hframe, hholds⟩ := htoken
    have hmem := List.mem_of_getElem? hframe
    cases frame with
    | globalQueueWork => exact hholds.elim
    | execute q' pc =>
      obtain ⟨rfl, hholds⟩ := hholds
      exact howes.of_execute fair hmem hholds
    | push q' job pc =>
      obtain ⟨rfl, hzero⟩ := hholds
      have hshape := (inv_of_reachable (e.reachable n)).shape t
      cases pc with
      | fetchAdd => cases hzero
      | executing => cases hzero
      | handOver prevCount =>
        obtain rfl : prevCount = 0 := of_decide_eq_true hzero
        obtain ⟨rest, hstack⟩ := hshape.push_mem hmem (by simp)
        exact howes.of_handOver fair hstack
      | enqueue prevCount =>
        obtain rfl : prevCount = 0 := of_decide_eq_true hzero
        obtain ⟨rest, hstack⟩ := hshape.push_mem hmem (by simp)
        obtain ⟨m, hm, hsame, timeUp, hstep⟩ := fair.exists_next hstack rfl
        simp only [step, hsame, hstack, stepPush, Option.some.injEq] at hstep
        have hhand : ((e.state (m + 1)).thread t).stack = .push q' job (.handOver 0) :: rest := by
          simp [← hstep, State.setStack]
        exact howes.eventually (Nat.le_succ_of_le hm) fun howes' => howes'.of_handOver fair hhand

/-- The next job of a queue starts. -/
theorem State.Owes.started (howes : (e.state n).Owes q count) (fair : Fair e) :
    e.Eventually n (State.Started · q count) := by
  obtain ⟨token, htoken⟩ := howes.exists_token (inv_of_reachable (e.reachable n))
  exact howes.of_token fair htoken

/-- Every job entered starts: by induction on its position. -/
theorem Fair.eventually_started (fair : Fair e) (q : Q) {position : ℕ}
    (h : position < ((e.state n).pushed q).length) :
    e.Eventually n (State.Started · q position) := by
  induction position with
  | zero =>
    rcases Nat.eq_zero_or_pos ((e.state n).ran q).length with hzero | hpos
    · exact State.Owes.started ⟨hzero, h⟩ fair
    · exact .now hpos
  | succ position ih =>
    obtain ⟨m, hm, hstarted⟩ := ih (Nat.lt_of_succ_lt h)
    rcases Nat.lt_or_ge (position + 1) ((e.state m).ran q).length with hlt | hge
    · exact ⟨m, hm, hlt⟩
    · have hpushed := (pushed_grows e hm q).length_le
      refine Execution.Eventually.of_le hm (State.Owes.started ⟨?_, h.trans_le hpushed⟩ fair)
      exact Nat.le_antisymm hge hstarted

/-- In a fair execution every call of `DoAsync` enters its job at some time `entered`, and at some
later time `started` the job starts, in the place it was entered at: it has started exactly at the
times from `started` on. -/
theorem doAsync_job_starts (fair : Fair e) {job : J}
    (hcall : e.action n = some (t, .doAsync q job)) :
    ∃ entered started, n < entered ∧ entered < started ∧
      (∃ prevCount, ((e.state entered).thread t).stack =
        .push q job (.enqueue prevCount) :: ((e.state n).thread t).stack) ∧
      (e.state (entered + 1)).pushed q = (e.state entered).pushed q ++ [job] ∧
      ∀ m, started ≤ m ↔
        ((e.state m).ran q)[((e.state entered).pushed q).length]? = some job := by
  obtain ⟨entered, prevCount, hentered, hstack, hpushed⟩ := fair.exists_enqueue hcall
  have hstarts : ∃ m, (e.state m).Started q ((e.state entered).pushed q).length := by
    have hlt : ((e.state entered).pushed q).length < ((e.state (entered + 1)).pushed q).length := by
      simp [hpushed]
    obtain ⟨m, -, hstarted⟩ := fair.eventually_started q hlt
    exact ⟨m, hstarted⟩
  have hinitial : ∀ m, (e.state m).ran q <+: (e.state m).pushed q := fun m =>
    ((inv_of_reachable (e.reachable m)).queue q).ran_initial
  classical
  have hlate : ∀ m, (e.state m).Started q ((e.state entered).pushed q).length → entered < m := by
    intro m hstarted
    by_contra hle
    have hran := (hinitial m).length_le
    have hgrows := (pushed_grows e (Nat.le_of_not_lt hle) q).length_le
    exact absurd hstarted (Nat.not_lt.2 (hran.trans hgrows))
  refine ⟨entered, Nat.find hstarts, hentered, hlate _ (Nat.find_spec hstarts),
    ⟨prevCount, hstack⟩, hpushed, fun m => ?_⟩
  constructor
  · intro hm
    have hstarted : (e.state m).Started q ((e.state entered).pushed q).length :=
      (Nat.find_spec hstarts).trans_le (ran_grows e hm q).length_le
    have hjob := pushed_grows e (Nat.succ_le_of_lt (hlate m hstarted)) q
    rw [Nat.succ_eq_add_one, hpushed] at hjob
    rw [List.getElem?_eq_getElem hstarted, (hinitial m).getElem hstarted, ← hjob.getElem (by simp)]
    simp
  · intro hjob
    exact Nat.find_min' hstarts (List.getElem?_eq_some_iff.1 hjob).1

end Token

/-! ## One thread on its own -/

/-- The thread calls `DoAsync` and goes on until it returns, and then calls `DoGlobalQueueWork` over
and over. -/
def soloAction (n : ℕ) : Unit × Op Unit ℕ :=
  ((), if n = 0 then .doAsync () 7 else if n < 12 ∨ n % 2 = 1 then .next false
    else .doGlobalQueueWork)

/-- The states of this execution. -/
def soloState : ℕ → State Unit ℕ Unit
  | 0 => .initial
  | n + 1 => (step (soloState n) (soloAction n)).getD (soloState n)

/-- The thread is outside at even times and inside `DoGlobalQueueWork` at odd ones. -/
def Idles (n : ℕ) (s : State Unit ℕ Unit) : Prop :=
  s.globalQueue = [] ∧ (s.thread ()).stack = if n % 2 = 0 then [] else [.globalQueueWork]

theorem Idles.step {n : ℕ} {s : State Unit ℕ Unit} (h : Idles n s) (hn : 12 ≤ n) :
    ∃ s', JobQueue.step s (soloAction n) = some s' ∧ Idles (n + 1) s' := by
  obtain ⟨hglobal, hstack⟩ := h
  rcases Nat.mod_two_eq_zero_or_one n with heven | hodd
  · have haction : soloAction n = ((), .doGlobalQueueWork) := by
      rw [soloAction, if_neg (by omega), if_neg (by omega)]
    rw [heven, if_pos rfl] at hstack
    refine ⟨s.setStack () [.globalQueueWork], by simp only [haction, JobQueue.step, hstack], ?_⟩
    exact ⟨hglobal, by rw [if_neg (by omega)]; rfl⟩
  · have haction : soloAction n = ((), .next false) := by
      rw [soloAction, if_neg (by omega), if_pos (.inr hodd)]
    rw [hodd, if_neg Nat.one_ne_zero] at hstack
    refine ⟨s.setStack () [], ?_, hglobal, by rw [if_pos (by omega)]; rfl⟩
    simp [haction, JobQueue.step, hstack, stepGlobalQueueWork, hglobal, LockQueue.pop]

theorem soloState_idles {n : ℕ} (hn : 12 ≤ n) : Idles n (soloState n) := by
  induction n, hn using Nat.le_induction with
  | base => exact ⟨rfl, rfl⟩
  | succ n hn ih =>
    obtain ⟨s', hstep, hidles⟩ := ih.step hn
    rwa [soloState, hstep, Option.getD_some]

theorem soloState_step (n : ℕ) : step (soloState n) (soloAction n) = some (soloState (n + 1)) := by
  have henabled : (step (soloState n) (soloAction n)).isSome := by
    rcases Nat.lt_or_ge n 12 with hlt | hge
    · interval_cases n <;> rfl
    · obtain ⟨s', hstep, -⟩ := (soloState_idles hge).step hge
      rw [hstep, Option.isSome_some]
  obtain ⟨s', hs'⟩ := Option.isSome_iff_exists.1 henabled
  rw [soloState, hs', Option.getD_some]

/-- The execution of the thread. -/
def solo : (system Unit ℕ Unit).Execution where
  state := soloState
  action n := some (soloAction n)
  init := rfl
  step n a ha := by
    obtain rfl := Option.some.inj ha
    exact soloState_step n
  pause n h := by cases h

theorem solo_fair : Fair solo where
  threads n t _ := ⟨n, le_refl n, (soloAction n).2, rfl⟩
  jobs n t q job jobs jobCount rest hsuffix := by
    have hmem : .execute q (.running job jobs jobCount) ∈ ((soloState n).thread t).stack :=
      hsuffix.subset List.mem_cons_self
    by_cases hseven : n = 7
    · subst hseven
      obtain ⟨above, habove⟩ := hsuffix
      rcases above with _ | ⟨_, above⟩
      · exact ⟨7, le_refl 7, habove.symm, false, rfl⟩
      · have htail : above ++ .execute q (.running job jobs jobCount) :: rest =
            [.push () 7 .executing] := (List.cons.inj habove).2
        simp [List.append_eq_singleton_iff] at htail
    rcases Nat.lt_or_ge n 12 with hlt | hge
    · -- at the other times no job runs
      interval_cases n
      all_goals first
        | exact absurd rfl hseven
        | rcases hmem with _ | ⟨_, _ | ⟨_, ⟨⟩⟩⟩
    · rw [(soloState_idles hge).2] at hmem
      split_ifs at hmem <;> simp at hmem
  workers n := by
    have hidles := (soloState_idles (n := 2 * n + 13) (by omega)).2
    rw [if_neg (by omega)] at hidles
    refine ⟨2 * n + 13, by omega, (), [], hidles, ?_⟩
    simp [solo, soloAction]

/-- The job that the thread enters runs. -/
theorem doAsync_job_starts_solo :
    ∃ entered started, 0 < entered ∧ entered < started ∧
      (∃ prevCount, ((solo.state entered).thread ()).stack = [.push () 7 (.enqueue prevCount)]) ∧
      (solo.state (entered + 1)).pushed () = (solo.state entered).pushed () ++ [7] ∧
      ∀ m, started ≤ m ↔
        ((solo.state m).ran ())[((solo.state entered).pushed ()).length]? = some 7 :=
  doAsync_job_starts solo_fair rfl

end JobQueue

end DhNet
