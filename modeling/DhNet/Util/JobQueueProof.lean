import DhNet.Util.JobQueueCounts

/-!
# Safety of the job queues

The invariant of one queue (`QueueInv`) has three parts.

* `count`: the counter is the number of jobs in `m_jobs`, plus those popped and not yet subtracted,
  plus those counted and not yet entered.
* `token`: the number of tokens (global entries, executors before their last `fetch_sub`, pushers
  that saw zero) is one when the counter is positive and zero otherwise.
* `order`, `idle`: the jobs entered so far are those started, then the rest of the batch of the
  executor that holds the token, then the jobs in `m_jobs`.

Each call stack has one of five shapes (`Thread.Shape`), with `LCurrentJobQueue` set exactly while
an `Execute` is between its first and its last statement, so that a job never starts a second one.
-/

open Finset

namespace DhNet

namespace JobQueue

variable {Q J T : Type*}

/-! ## The invariant -/

/-- The popped jobs that have not started. -/
def ExecutePc.remaining : ExecutePc J → List J
  | .run jobs _ => jobs
  | .running _ jobs _ => jobs
  | _ => []

/-- The value of `LCurrentJobQueue` inside `Execute` of the queue `q`. -/
def ExecutePc.current (q : Q) : ExecutePc J → Option Q
  | .enter => none
  | .rePush => none
  | _ => some q

section Measures

variable [DecidableEq Q]

/-- The rest of the batch of an executor of `q` that holds the token. -/
def Frame.rest (q : Q) : Frame Q J → Option (List J)
  | .execute q' pc => if q' = q ∧ pc.holds then some pc.remaining else none
  | _ => none

/-- Some executor of `q` holds the token, with the rest `jobs` of its batch. -/
def State.Batch (s : State Q J T) (q : Q) (jobs : List J) : Prop :=
  ∃ t, ∃ frame ∈ (s.thread t).stack, frame.rest q = some jobs

variable [Fintype T]

/-- The invariant of one queue. -/
structure QueueInv (s : State Q J T) (q : Q) : Prop where
  count : s.jobCount q = (s.jobs q).length + s.inFlight q
  token : s.tokens q = min (s.jobCount q).toNat 1
  order : ∀ jobs, s.Batch q jobs → s.pushed q = s.ran q ++ jobs ++ s.jobs q
  idle : (∀ jobs, ¬ s.Batch q jobs) → s.pushed q = s.ran q ++ s.jobs q

end Measures

/-- An activation below an `Execute`. -/
def Frame.Calls : Frame Q J → Prop
  | .push _ _ .executing => True
  | .globalQueueWork => True
  | _ => False

/-- The shapes of a call stack, with the value of `LCurrentJobQueue`. -/
def Thread.Shape (th : Thread Q J) : Prop :=
  match th.stack with
  | [] => th.currentJobQueue = none
  | [.globalQueueWork] => th.currentJobQueue = none
  | [.push _ _ _] => th.currentJobQueue = none
  | [.execute q pc, base] => th.currentJobQueue = pc.current q ∧ base.Calls
  | [.push _ _ pc, .execute q (.running _ _ _), base] =>
      th.currentJobQueue = some q ∧ pc ≠ .executing ∧ base.Calls
  | _ => False

/-- The invariant of the whole system. -/
structure Inv [DecidableEq Q] [Fintype T] (s : State Q J T) : Prop where
  shape : ∀ t, (s.thread t).Shape
  queue : ∀ q, QueueInv s q

/-! ## Shapes of a call stack -/

section Shapes

variable {q : Q} {job : J} {current : Option Q} {rest : List (Frame Q J)}

theorem Thread.Shape.push_change {pc pc' : PushPc}
    (h : Thread.Shape ⟨current, .push q job pc :: rest⟩) (hpc : pc' ≠ .executing) :
    Thread.Shape ⟨current, .push q job pc' :: rest⟩ := by
  unfold Thread.Shape at h ⊢
  split at h <;> simp_all

theorem Thread.Shape.push_return {pc : PushPc}
    (h : Thread.Shape ⟨current, .push q job pc :: rest⟩) : Thread.Shape ⟨current, rest⟩ := by
  unfold Thread.Shape at h
  split at h <;> simp_all [Thread.Shape, ExecutePc.current]

theorem Thread.shape_execute_iff {pc : ExecutePc J} :
    Thread.Shape ⟨current, .execute q pc :: rest⟩ ↔
      current = pc.current q ∧ ∃ base : Frame Q J, rest = [base] ∧ base.Calls := by
  unfold Thread.Shape
  constructor
  · intro h
    split at h <;> simp_all
  · rintro ⟨rfl, base, rfl, hb⟩
    exact ⟨rfl, hb⟩

theorem Thread.Shape.doAsync {stack : List (Frame Q J)} (h : Thread.Shape ⟨current, stack⟩)
    (may : mayCallDoAsync stack) : Thread.Shape ⟨current, .push q job .fetchAdd :: stack⟩ := by
  unfold mayCallDoAsync at may
  split at may
  · exact h
  · rw [Thread.shape_execute_iff] at h
    obtain ⟨rfl, base, rfl, hb⟩ := h
    exact ⟨rfl, by simp, hb⟩
  · simp at may

end Shapes

/-! ## Activations -/

section Activations

variable [DecidableEq Q] {s : State Q J T} {t : T} {q : Q}

/-- The activation concerns no queue but `q`. -/
def Frame.About (q : Q) : Frame Q J → Prop
  | .push q' _ _ => q' = q
  | .execute q' _ => q' = q
  | .globalQueueWork => True

theorem Frame.About.rest_eq_none {frame : Frame Q J} (h : frame.About q) {q' : Q} (e : q' ≠ q) :
    frame.rest q' = none := by
  cases frame with
  | push _ _ _ => rfl
  | execute q₁ pc =>
    obtain rfl : q₁ = q := h
    exact if_neg fun hq => e hq.1.symm
  | globalQueueWork => rfl

theorem no_rest {l : List (Frame Q J)} (h : ∀ frame ∈ l, frame.rest q = none) {jobs : List J} :
    ¬ ∃ frame ∈ l, frame.rest q = some jobs := by
  rintro ⟨frame, hf, hr⟩
  rw [h frame hf] at hr
  cases hr

theorem Frame.Calls.rest_eq_none {base : Frame Q J} (h : base.Calls) (q : Q) :
    base.rest q = none := by
  cases base <;> simp_all [Frame.Calls, Frame.rest]

theorem Frame.tokens_pos_of_rest {frame : Frame Q J} {q : Q} {jobs : List J}
    (h : frame.rest q = some jobs) : 0 < frame.tokens q := by
  cases frame with
  | push _ _ _ => simp [Frame.rest] at h
  | globalQueueWork => simp [Frame.rest] at h
  | execute q' pc =>
    simp only [Frame.rest, Option.ite_none_right_eq_some] at h
    simp [Frame.tokens, h.1.1, h.1.2]

variable [Fintype T]

theorem QueueInv.tokens_le (inv : QueueInv s q) : s.tokens q ≤ 1 := by
  rw [inv.token]
  exact min_le_right _ _

theorem QueueInv.jobCount_pos (inv : QueueInv s q) (hold : 0 < (s.thread t).tokens q) :
    0 < s.jobCount q := by
  have hle := Thread.tokens_le_sum s t q
  have htoken := inv.token
  unfold State.tokens at htoken
  omega

/-- No thread has a batch of a queue that stands in the global queue. -/
theorem QueueInv.no_rest_of_entries_pos {q : Q} (inv : QueueInv s q)
    (hold : 0 < entries q s.globalQueue) {t' : T} {frame : Frame Q J}
    (hf : frame ∈ (s.thread t').stack) : frame.rest q = none := by
  by_contra hr
  obtain ⟨jobs, hr⟩ := Option.ne_none_iff_exists'.1 hr
  have hpos := tokens_pos_of_mem hf (Frame.tokens_pos_of_rest hr)
  have hle := Thread.tokens_le_sum s t' q
  have := inv.tokens_le
  unfold State.tokens at this
  omega

/-- The counter and the token of a queue follow from what the step does to them. -/
theorem QueueInv.of_moves {s' : State Q J T} (inv : QueueInv s q) (moves : Moves s s' q)
    (order : (∀ jobs, s'.Batch q jobs → s'.pushed q = s'.ran q ++ jobs ++ s'.jobs q) ∧
      ((∀ jobs, ¬ s'.Batch q jobs) → s'.pushed q = s'.ran q ++ s'.jobs q)) : QueueInv s' q := by
  obtain ⟨hcount, htoken⟩ := moves.keeps 0 (by simpa using inv.count) inv.token
  exact ⟨by simpa using hcount, htoken, order.1, order.2⟩

theorem inv_initial : Inv (State.initial : State Q J T) := by
  refine ⟨fun t => rfl, fun q => ⟨?_, ?_, ?_, ?_⟩⟩
  · simp [State.initial, State.inFlight, Thread.inFlight]
  · simp [State.initial, State.tokens, Thread.tokens, entries]
  · simp [State.initial, State.Batch]
  · simp [State.initial]

end Activations

/-! ## Replacing one thread -/

section Update

variable [DecidableEq T] {s s' : State Q J T} {t : T} {th : Thread Q J}

theorem shape_update (h : s'.thread = Function.update s.thread t th)
    (shape : ∀ t, (s.thread t).Shape) (ht : th.Shape) (t' : T) : (s'.thread t').Shape := by
  rw [h]
  by_cases e : t' = t
  · subst e
    rwa [Function.update_self]
  · rw [Function.update_of_ne e]
    exact shape t'

theorem exists_frame_update (h : s'.thread = Function.update s.thread t th) (p : Frame Q J → Prop) :
    (∃ t', ∃ frame ∈ (s'.thread t').stack, p frame) ↔ (∃ frame ∈ th.stack, p frame) ∨
      ∃ t', t' ≠ t ∧ ∃ frame ∈ (s.thread t').stack, p frame := by
  rw [h]
  constructor
  · rintro ⟨t', frame, hf, hr⟩
    by_cases ht : t' = t
    · subst ht
      rw [Function.update_self] at hf
      exact .inl ⟨frame, hf, hr⟩
    · rw [Function.update_of_ne ht] at hf
      exact .inr ⟨t', ht, frame, hf, hr⟩
  · rintro (⟨frame, hf, hr⟩ | ⟨t', ht, frame, hf, hr⟩)
    · exact ⟨t, frame, by rwa [Function.update_self], hr⟩
    · exact ⟨t', frame, by rwa [Function.update_of_ne ht], hr⟩

variable [DecidableEq Q]

theorem batch_update (h : s'.thread = Function.update s.thread t th) (q : Q) (jobs : List J) :
    s'.Batch q jobs ↔ (∃ frame ∈ th.stack, frame.rest q = some jobs) ∨
      ∃ t', t' ≠ t ∧ ∃ frame ∈ (s.thread t').stack, frame.rest q = some jobs :=
  exists_frame_update h fun frame => frame.rest q = some jobs

/-- The order of the jobs after a step of the only thread that may have a batch of `q`, which
leaves it with the batch `b`. -/
theorem order_of_only {q : Q} (h : s'.thread = Function.update s.thread t th)
    (only : ∀ t', t' ≠ t → ∀ frame ∈ (s.thread t').stack, frame.rest q = none)
    (b : Option (List J))
    (rest : ∀ jobs, (∃ frame ∈ th.stack, frame.rest q = some jobs) ↔ b = some jobs)
    (order : s'.pushed q = s'.ran q ++ b.getD [] ++ s'.jobs q) :
    (∀ jobs, s'.Batch q jobs → s'.pushed q = s'.ran q ++ jobs ++ s'.jobs q) ∧
      ((∀ jobs, ¬ s'.Batch q jobs) → s'.pushed q = s'.ran q ++ s'.jobs q) := by
  have hbatch : ∀ jobs, s'.Batch q jobs ↔ b = some jobs := by
    intro jobs
    rw [batch_update h, rest, or_iff_left]
    rintro ⟨t', ht, frame, hf, hr⟩
    simp [only t' ht frame hf] at hr
  constructor
  · intro jobs hj
    rw [(hbatch jobs).1 hj] at order
    exact order
  · intro hj
    cases b with
    | none => simpa using order
    | some jobs => exact absurd ((hbatch jobs).2 rfl) (hj jobs)

variable [Fintype T]

/-- The order of the jobs of a queue under a step that changes neither its jobs nor the batches of
the thread that makes the step. -/
theorem QueueInv.of_same {q : Q} (inv : QueueInv s q) (moves : Moves s s' q)
    (h : s'.thread = Function.update s.thread t th) (jobs : s'.jobs q = s.jobs q)
    (pushed : s'.pushed q = s.pushed q) (ran : s'.ran q = s.ran q)
    (rest : ∀ jobs, (∃ frame ∈ th.stack, frame.rest q = some jobs) ↔
      ∃ frame ∈ (s.thread t).stack, frame.rest q = some jobs) : QueueInv s' q := by
  have hbatch : ∀ jobs, s'.Batch q jobs ↔ s.Batch q jobs := by
    intro jobs
    rw [batch_update h, rest, ← batch_update (Function.update_eq_self t s.thread).symm]
  refine inv.of_moves moves ⟨fun r hr => ?_, fun hr => ?_⟩
  · rw [jobs, pushed, ran]
    exact inv.order r ((hbatch r).1 hr)
  · rw [jobs, pushed, ran]
    exact inv.idle fun r hs => hr r ((hbatch r).2 hs)

/-! ## The token is unique -/

/-- No thread but the holder of the token of `q` has a batch of `q`. -/
theorem QueueInv.no_rest_of_tokens_pos {q : Q} (inv : QueueInv s q)
    (hold : 0 < (s.thread t).tokens q) {t' : T} (ht : t' ≠ t) {frame : Frame Q J}
    (hf : frame ∈ (s.thread t').stack) : frame.rest q = none := by
  by_contra hr
  obtain ⟨jobs, hr⟩ := Option.ne_none_iff_exists'.1 hr
  have hle : ∑ t, (s.thread t).tokens q ≤ 1 := le_trans (Nat.le_add_left _ _) inv.tokens_le
  exact ht (Counting.eq_of_sum_le_one (fun t => (s.thread t).tokens q) hle
    (tokens_pos_of_mem hf (Frame.tokens_pos_of_rest hr)) hold)

/-! ## The rule for one step -/

variable {q : Q} {current current' : Option Q} {frame : Frame Q J}
  {new rest : List (Frame Q J)}

/-- A thread that replaces an activation about `q` by others about `q` keeps the invariant of every
other queue, so only the order of the jobs of `q` and the shape of the new stack remain to be
shown. -/
theorem Inv.of_step (inv : Inv s) (moves : ∀ q', Moves s s' q')
    (hth : s.thread t = ⟨current, frame :: rest⟩)
    (h : s'.thread = Function.update s.thread t ⟨current', new ++ rest⟩)
    (about : ∀ f ∈ frame :: new, f.About q)
    (same : ∀ q', q' ≠ q → s'.jobs q' = s.jobs q' ∧ s'.pushed q' = s.pushed q' ∧
      s'.ran q' = s.ran q')
    (shape : Thread.Shape ⟨current', new ++ rest⟩)
    (order : (∀ jobs, s'.Batch q jobs → s'.pushed q = s'.ran q ++ jobs ++ s'.jobs q) ∧
      ((∀ jobs, ¬ s'.Batch q jobs) → s'.pushed q = s'.ran q ++ s'.jobs q)) : Inv s' := by
  refine ⟨shape_update h inv.shape shape, fun q' => ?_⟩
  by_cases e : q' = q
  · rw [e]
    exact (inv.queue q).of_moves (moves q) order
  · obtain ⟨jobs, pushed, ran⟩ := same q' e
    refine (inv.queue q').of_same (moves q') h jobs pushed ran fun r => ?_
    simp only [hth, List.mem_append, or_and_right, exists_or, List.exists_mem_cons_iff,
      (about frame (by simp)).rest_eq_none e, reduceCtorEq, false_or]
    rw [or_iff_right (no_rest fun f hf => (about f (by simp [hf])).rest_eq_none e)]

/-- The order of the jobs when the activations replaced have no batch of `q`. -/
theorem order_of_none (inv : QueueInv s q) (hth : s.thread t = ⟨current, frame :: rest⟩)
    (h : s'.thread = Function.update s.thread t ⟨current', new ++ rest⟩)
    (none : ∀ f ∈ frame :: new, f.rest q = none) (added : List J)
    (jobs : s'.jobs q = s.jobs q ++ added) (pushed : s'.pushed q = s.pushed q ++ added)
    (ran : s'.ran q = s.ran q) :
    (∀ jobs, s'.Batch q jobs → s'.pushed q = s'.ran q ++ jobs ++ s'.jobs q) ∧
      ((∀ jobs, ¬ s'.Batch q jobs) → s'.pushed q = s'.ran q ++ s'.jobs q) := by
  have hbatch : ∀ r, s'.Batch q r ↔ s.Batch q r := by
    intro r
    rw [batch_update h, batch_update (s := s) (Function.update_eq_self t s.thread).symm]
    simp only [hth, List.mem_append, or_and_right, exists_or, List.exists_mem_cons_iff,
      none frame (by simp), reduceCtorEq, false_or]
    rw [or_iff_right (no_rest fun f hf => none f (by simp [hf]))]
  rw [jobs, pushed, ran]
  constructor
  · intro r hr
    rw [inv.order r ((hbatch r).1 hr)]
    simp
  · intro hr
    rw [inv.idle fun r hs => hr r ((hbatch r).2 hs)]
    simp

end Update

/-! ## What a step leaves alone -/

section Others

variable [DecidableEq Q] [DecidableEq T] {s : State Q J T} {t : T}

/-- A step of one thread leaves the others alone, and only the start of a job adds to the jobs that
have run, to those of its own queue. -/
theorem step_frame {s' : State Q J T} {op : Op Q J} (h : JobQueue.step s (t, op) = some s') :
    (∀ t', t' ≠ t → s'.thread t' = s.thread t') ∧
      (s'.ran = s.ran ∨ ∃ q job jobs n rest,
        (s.thread t).stack = .execute q (.run (job :: jobs) n) :: rest ∧
        ∀ q', q' ≠ q → s'.ran q' = s.ran q') := by
  have hstack : ∀ (s : State Q J T) stack t', t' ≠ t →
      (s.setStack t stack).thread t' = s.thread t' :=
    fun s stack t' ht => Function.update_of_ne ht _ _
  have hthread : ∀ (s : State Q J T) current stack t', t' ≠ t →
      (s.setThread t current stack).thread t' = s.thread t' :=
    fun s current stack t' ht => Function.update_of_ne ht _ _
  simp only [JobQueue.step] at h
  split at h
  · obtain rfl := (Option.ite_none_right_eq_some.1 h).2 |> Option.some.inj
    exact ⟨hstack _ _, .inl rfl⟩
  · obtain rfl := Option.some.inj h
    exact ⟨hstack _ _, .inl rfl⟩
  · cases h
  · cases h
  · obtain rfl := Option.some.inj h
    unfold stepPush
    split
    · exact ⟨hstack _ _, .inl rfl⟩
    · exact ⟨hstack _ _, .inl rfl⟩
    · split_ifs
      · split <;> exact ⟨hstack _ _, .inl rfl⟩
      · exact ⟨hstack _ _, .inl rfl⟩
    · exact ⟨hstack _ _, .inl rfl⟩
  · next pc rest hth =>
    obtain rfl := Option.some.inj h
    cases pc with
    | run jobs n =>
      cases jobs with
      | nil => exact ⟨hstack _ _, .inl rfl⟩
      | cons job jobs =>
        refine ⟨hstack _ _, .inr ⟨_, job, jobs, n, rest, hth, fun q' e => ?_⟩⟩
        exact Function.update_of_ne e _ _
    | checkTime =>
      simp only [stepExecute]
      split_ifs
      · exact ⟨hthread _ _ _, .inl rfl⟩
      · exact ⟨hstack _ _, .inl rfl⟩
    | enter => exact ⟨hthread _ _ _, .inl rfl⟩
    | leave => exact ⟨hthread _ _ _, .inl rfl⟩
    | _ => exact ⟨hstack _ _, .inl rfl⟩
  · obtain rfl := Option.some.inj h
    unfold stepGlobalQueueWork
    split_ifs
    · exact ⟨hstack _ _, .inl rfl⟩
    · split <;> exact ⟨hstack _ _, .inl rfl⟩

end Others

/-! ## Steps of `Push` -/

section Steps

variable [DecidableEq Q] [Fintype T] [DecidableEq T] {s : State Q J T} {t : T} {q : Q} {job : J}
  {current : Option Q} {rest : List (Frame Q J)}

theorem Inv.push_fetchAdd (inv : Inv s)
    (hth : s.thread t = ⟨current, .push q job .fetchAdd :: rest⟩) :
    Inv (stepPush s t q job rest .fetchAdd) := by
  have hshape := inv.shape t
  rw [hth] at hshape
  have h : (stepPush s t q job rest .fetchAdd).thread = Function.update s.thread t
      ⟨current, [Frame.push q job (.enqueue (s.jobCount q))] ++ rest⟩ := by
    simp [stepPush, State.setStack, hth]
  refine inv.of_step (q := q) (moves_push hth) hth h (by simp [Frame.About])
    (fun q' _ => ⟨rfl, rfl, rfl⟩) (hshape.push_change (by simp))
    (order_of_none (inv.queue q) hth h (by simp [Frame.rest]) [] ?_ ?_ rfl)
  all_goals simp [stepPush, State.setStack]

theorem Inv.push_enqueue {prevCount : ℤ} (inv : Inv s)
    (hth : s.thread t = ⟨current, .push q job (.enqueue prevCount) :: rest⟩) :
    Inv (stepPush s t q job rest (.enqueue prevCount)) := by
  have hshape := inv.shape t
  rw [hth] at hshape
  have h : (stepPush s t q job rest (.enqueue prevCount)).thread = Function.update s.thread t
      ⟨current, [Frame.push q job (.handOver prevCount)] ++ rest⟩ := by
    simp [stepPush, State.setStack, hth]
  refine inv.of_step (q := q) (moves_push hth) hth h (by simp [Frame.About]) ?_
    (hshape.push_change (by simp))
    (order_of_none (inv.queue q) hth h (by simp [Frame.rest]) [job] ?_ ?_ rfl)
  · intro q' e
    simp [stepPush, State.setStack, e]
  all_goals simp [stepPush, State.setStack, LockQueue.push]

/-- A call of `Push` returns. -/
theorem Inv.push_return {pc : PushPc} {s' : State Q J T} (inv : Inv s)
    (moves : ∀ q', Moves s s' q') (hth : s.thread t = ⟨current, .push q job pc :: rest⟩)
    (h : s'.thread = Function.update s.thread t ⟨current, rest⟩)
    (shared : s'.jobs = s.jobs ∧ s'.pushed = s.pushed ∧ s'.ran = s.ran) : Inv s' := by
  have hshape := inv.shape t
  rw [hth] at hshape
  obtain ⟨jobs, pushed, ran⟩ := shared
  rw [← List.nil_append rest] at h
  refine inv.of_step (q := q) moves hth h (by simp [Frame.About])
    (fun q' _ => by rw [jobs, pushed, ran]; exact ⟨rfl, rfl, rfl⟩) hshape.push_return
    (order_of_none (inv.queue q) hth h (by simp [Frame.rest]) [] ?_ ?_ ?_)
  all_goals simp [jobs, pushed, ran]

/-- The pusher that saw zero outside every `Execute` becomes the executor. -/
theorem Inv.push_execute (inv : Inv s)
    (moves : ∀ q', Moves s
      (s.setStack t (.execute q .enter :: .push q job .executing :: rest)) q')
    (hth : s.thread t = ⟨none, .push q job (.handOver 0) :: rest⟩) :
    Inv (s.setStack t (.execute q .enter :: .push q job .executing :: rest)) := by
  have hshape := inv.shape t
  rw [hth] at hshape
  obtain rfl : rest = [] := by
    unfold Thread.Shape at hshape
    split at hshape <;> simp_all
  have hq := inv.queue q
  have hold : 0 < (s.thread t).tokens q := by
    simp [Thread.tokens, hth, Frame.tokens, PushPc.sawZero]
  have h : (s.setStack t [.execute q .enter, .push q job .executing]).thread =
      Function.update s.thread t
        ⟨none, [Frame.execute q .enter, Frame.push q job .executing] ++ []⟩ := by
    simp [State.setStack, hth]
  have hidle : s.pushed q = s.ran q ++ s.jobs q := by
    refine hq.idle fun jobs hj => ?_
    obtain ⟨t', frame, hf, hr⟩ := hj
    by_cases e : t' = t
    · subst e
      simp only [hth, List.mem_singleton] at hf
      simp [hf, Frame.rest] at hr
    · simp [hq.no_rest_of_tokens_pos hold e hf] at hr
  refine inv.of_step (q := q) moves hth h (by simp [Frame.About])
    (fun q' _ => ⟨rfl, rfl, rfl⟩) ⟨rfl, trivial⟩ (order_of_only h
      (fun t' e frame hf => hq.no_rest_of_tokens_pos hold e hf) (some []) ?_ ?_)
  · simp [Frame.rest, ExecutePc.holds, ExecutePc.remaining]
  · simpa [State.setStack] using hidle

theorem Inv.step_push {pc : PushPc} (inv : Inv s)
    (hth : s.thread t = ⟨current, .push q job pc :: rest⟩) :
    Inv (stepPush s t q job rest pc) := by
  have moves := moves_push hth
  cases pc with
  | fetchAdd => exact inv.push_fetchAdd hth
  | enqueue prevCount => exact inv.push_enqueue hth
  | handOver prevCount =>
    by_cases h0 : prevCount = 0
    · subst h0
      cases current with
      | none =>
        simp only [stepPush, hth, if_true] at moves ⊢
        exact inv.push_execute moves hth
      | some q' =>
        refine inv.push_return moves hth ?_ ?_
        all_goals simp [stepPush, hth, State.setStack, State.pushGlobal]
    · refine inv.push_return moves hth ?_ ?_
      all_goals simp [stepPush, h0, hth, State.setStack]
  | executing =>
    refine inv.push_return moves hth ?_ ⟨rfl, rfl, rfl⟩
    simp [stepPush, hth, State.setStack]

/-! ## Steps of `Execute` -/

/-- A step inside `Execute` of the queue `q`: only the order of its jobs matters. -/
theorem Inv.execute_change {pc : ExecutePc J} {s' : State Q J T} (inv : Inv s)
    (moves : ∀ q', Moves s s' q') (hth : s.thread t = ⟨current, .execute q pc :: rest⟩)
    (hold : pc.holds) (pc' : ExecutePc J)
    (h : s'.thread = Function.update s.thread t ⟨pc'.current q, .execute q pc' :: rest⟩)
    (same : ∀ q', q' ≠ q → s'.jobs q' = s.jobs q' ∧ s'.pushed q' = s.pushed q' ∧
      s'.ran q' = s.ran q')
    (order : s.pushed q = s.ran q ++ pc.remaining ++ s.jobs q →
      s'.pushed q = s'.ran q ++ pc'.remaining ++ s'.jobs q) : Inv s' := by
  have hshape := inv.shape t
  rw [hth, Thread.shape_execute_iff] at hshape
  obtain ⟨-, base, rfl, hb⟩ := hshape
  have hq := inv.queue q
  have hpos : 0 < (s.thread t).tokens q := by
    simp [Thread.tokens, hth, Frame.tokens, hold]
  have hbatch : s.Batch q pc.remaining :=
    ⟨t, .execute q pc, by simp [hth], by simp [Frame.rest, hold]⟩
  have h' : s'.thread =
      Function.update s.thread t ⟨pc'.current q, [Frame.execute q pc'] ++ [base]⟩ := h
  refine inv.of_step (q := q) moves hth h' (by simp [Frame.About]) same
    (Thread.shape_execute_iff.2 ⟨rfl, base, rfl, hb⟩) (order_of_only h'
      (fun t' e frame hf => hq.no_rest_of_tokens_pos hpos e hf)
      (if pc'.holds then some pc'.remaining else none) ?_ ?_)
  · intro jobs
    rw [List.singleton_append, List.exists_mem_cons_iff,
      or_iff_left (no_rest (by simpa using hb.rest_eq_none q))]
    simp [Frame.rest]
  · rw [order (hq.order _ hbatch)]
    cases pc' <;> rfl

/-- `Execute` returns. -/
theorem Inv.execute_return {pc : ExecutePc J} {s' : State Q J T} (inv : Inv s)
    (moves : ∀ q', Moves s s' q') (hth : s.thread t = ⟨current, .execute q pc :: rest⟩)
    (hpc : pc = .leave ∨ pc = .rePush) (h : s'.thread = Function.update s.thread t ⟨none, rest⟩)
    (shared : s'.jobs = s.jobs ∧ s'.pushed = s.pushed ∧ s'.ran = s.ran) : Inv s' := by
  have hshape := inv.shape t
  rw [hth, Thread.shape_execute_iff] at hshape
  obtain ⟨-, base, rfl, hb⟩ := hshape
  have hq := inv.queue q
  obtain ⟨jobs, pushed, ran⟩ := shared
  have h' : s'.thread = Function.update s.thread t ⟨none, [] ++ [base]⟩ := h
  have hnew : Thread.Shape ⟨none, [base]⟩ := by
    unfold Frame.Calls at hb
    split at hb <;> simp_all [Thread.Shape]
  refine inv.of_step (q := q) moves hth h' (by simp [Frame.About])
    (fun q' _ => by rw [jobs, pushed, ran]; exact ⟨rfl, rfl, rfl⟩) hnew ?_
  rcases hpc with rfl | rfl
  · exact order_of_none hq hth h' (by simp [Frame.rest, ExecutePc.holds]) [] (by simp [jobs])
      (by simp [pushed]) (by simp [ran])
  · have hpos : 0 < (s.thread t).tokens q := by
      simp [Thread.tokens, hth, Frame.tokens, ExecutePc.holds]
    have hbatch : s.Batch q [] :=
      ⟨t, .execute q .rePush, by simp [hth],
        by simp [Frame.rest, ExecutePc.holds, ExecutePc.remaining]⟩
    refine order_of_only h (fun t' e frame hf => hq.no_rest_of_tokens_pos hpos e hf) none ?_ ?_
    · simp [hb.rest_eq_none q]
    · simpa [jobs, pushed, ran] using hq.order _ hbatch

theorem Inv.step_execute {pc : ExecutePc J} (inv : Inv s) (timeUp : Bool)
    (hth : s.thread t = ⟨current, .execute q pc :: rest⟩) :
    Inv (stepExecute s t timeUp q rest pc) := by
  have moves := moves_execute hth timeUp
  have hshape := inv.shape t
  rw [hth, Thread.shape_execute_iff] at hshape
  obtain ⟨hcur, -⟩ := hshape
  subst hcur
  cases pc with
  | enter =>
    exact inv.execute_change moves hth rfl .popAll rfl (fun q' _ => ⟨rfl, rfl, rfl⟩) id
  | popAll =>
    refine inv.execute_change moves hth rfl (.run (s.jobs q) (s.jobs q).length) ?_ ?_ ?_
    · simp [stepExecute, State.setStack, hth, ExecutePc.current]
    · intro q' e
      simp [stepExecute, State.setStack, e]
    · simp [stepExecute, State.setStack, ExecutePc.remaining]
  | run jobs jobCount =>
    cases jobs with
    | nil =>
      refine inv.execute_change moves hth rfl (.fetchSub jobCount) ?_
        (fun q' _ => ⟨rfl, rfl, rfl⟩) id
      simp [stepExecute, State.setStack, hth, ExecutePc.current]
    | cons job jobs =>
      refine inv.execute_change moves hth rfl (.running job jobs jobCount) ?_ ?_ ?_
      · simp [stepExecute, State.setStack, hth, ExecutePc.current]
      · intro q' e
        simp [stepExecute, State.setStack, e]
      · intro horder
        simpa [stepExecute, State.setStack, ExecutePc.remaining] using horder
  | running job jobs jobCount =>
    refine inv.execute_change moves hth rfl (.run jobs jobCount) ?_
      (fun q' _ => ⟨rfl, rfl, rfl⟩) id
    simp [stepExecute, State.setStack, hth, ExecutePc.current]
  | fetchSub jobCount =>
    refine inv.execute_change moves hth rfl
      (if s.jobCount q = jobCount then .leave else .checkTime) ?_ (fun q' _ => ⟨rfl, rfl, rfl⟩) ?_
    · split_ifs with h0 <;> simp [stepExecute, State.setStack, hth, h0, ExecutePc.current]
    · split_ifs <;> exact id
  | checkTime =>
    cases timeUp with
    | true =>
      exact inv.execute_change moves hth rfl .rePush rfl (fun q' _ => ⟨rfl, rfl, rfl⟩) id
    | false =>
      refine inv.execute_change moves hth rfl .popAll ?_ (fun q' _ => ⟨rfl, rfl, rfl⟩) id
      simp [stepExecute, State.setStack, hth, ExecutePc.current]
  | leave => exact inv.execute_return moves hth (.inl rfl) rfl ⟨rfl, rfl, rfl⟩
  | rePush =>
    refine inv.execute_return moves hth (.inr rfl) ?_ ⟨rfl, rfl, rfl⟩
    simp [stepExecute, State.setStack, State.pushGlobal, hth, ExecutePc.current]

/-! ## The other steps -/

/-- The queue taken out of the global queue is executed by the thread that took it. -/
theorem Inv.global_execute {queues : List Q} (inv : Inv s)
    (moves : ∀ q', Moves s ({ s with globalQueue := queues }.setStack t
      [.execute q .enter, .globalQueueWork]) q')
    (hth : s.thread t = ⟨none, [.globalQueueWork]⟩) (hg : s.globalQueue = q :: queues) :
    Inv ({ s with globalQueue := queues }.setStack t [.execute q .enter, .globalQueueWork]) := by
  have hq := inv.queue q
  have hpos : 0 < entries q s.globalQueue := by simp [hg, entries]
  have hidle : s.pushed q = s.ran q ++ s.jobs q := by
    refine hq.idle fun jobs hj => ?_
    obtain ⟨t', frame, hf, hr⟩ := hj
    simp [hq.no_rest_of_entries_pos hpos hf] at hr
  have h : ({ s with globalQueue := queues }.setStack t
        [.execute q .enter, .globalQueueWork]).thread =
      Function.update s.thread t ⟨none, [Frame.execute q .enter, Frame.globalQueueWork] ++ []⟩ := by
    simp [State.setStack, hth]
  refine inv.of_step (q := q) moves hth h (by simp [Frame.About])
    (fun q' _ => ⟨rfl, rfl, rfl⟩) ⟨rfl, trivial⟩ (order_of_only h
      (fun t' _ frame hf => hq.no_rest_of_entries_pos hpos hf) (some []) ?_ ?_)
  · simp [Frame.rest, ExecutePc.holds, ExecutePc.remaining]
  · simpa [State.setStack] using hidle

theorem Inv.global_return (inv : Inv s) (moves : ∀ q, Moves s (s.setStack t []) q)
    (hth : s.thread t = ⟨none, [.globalQueueWork]⟩) : Inv (s.setStack t []) := by
  refine ⟨shape_update rfl inv.shape (by simp [hth, Thread.Shape]), fun q => ?_⟩
  refine (inv.queue q).of_same (moves q) rfl rfl rfl rfl fun jobs => ?_
  simp [hth, Frame.rest]

theorem Inv.step_globalQueueWork (inv : Inv s) (timeUp : Bool)
    (hth : s.thread t = ⟨current, .globalQueueWork :: rest⟩) :
    Inv (stepGlobalQueueWork s t timeUp rest) := by
  have moves := moves_globalQueueWork hth timeUp
  have hshape := inv.shape t
  rw [hth] at hshape
  obtain ⟨rfl, rfl⟩ : current = none ∧ rest = [] := by
    unfold Thread.Shape at hshape
    split at hshape <;> simp_all
  unfold stepGlobalQueueWork at moves ⊢
  cases timeUp with
  | true => exact inv.global_return moves hth
  | false =>
    cases hg : s.globalQueue with
    | nil =>
      rw [hg] at moves
      exact inv.global_return moves hth
    | cons q queues =>
      rw [hg] at moves
      exact inv.global_execute moves hth hg

/-- A thread enters `DoAsync` or `DoGlobalQueueWork`: nothing is counted yet. -/
theorem Inv.call {frame : Frame Q J} (inv : Inv s) (hth : s.thread t = ⟨current, rest⟩)
    (shape : Thread.Shape ⟨current, frame :: rest⟩) (flight : ∀ q, frame.inFlight q = 0)
    (tokens : ∀ q, frame.tokens q = 0) (none : ∀ q, frame.rest q = none) :
    Inv (s.setStack t (frame :: rest)) := by
  refine ⟨shape_update rfl inv.shape (by rwa [hth]), fun q => ?_⟩
  refine (inv.queue q).of_same (moves_call hth (flight q) (tokens q)) rfl rfl rfl rfl fun jobs => ?_
  simp [hth, none]

theorem Inv.step {s' : State Q J T} {a : T × Op Q J} (inv : Inv s) (h : step s a = some s') :
    Inv s' := by
  obtain ⟨t, op⟩ := a
  rcases hth : s.thread t with ⟨current, stack⟩
  have hshape := inv.shape t
  rw [hth] at hshape
  simp only [JobQueue.step, hth] at h
  cases op with
  | doAsync q job =>
    simp only [Option.ite_none_right_eq_some, Option.some.injEq] at h
    obtain ⟨may, rfl⟩ := h
    refine inv.call hth (hshape.doAsync may) ?_ ?_ ?_
    all_goals simp [Frame.inFlight, Frame.tokens, Frame.rest, PushPc.counted, PushPc.sawZero]
  | doGlobalQueueWork =>
    cases stack with
    | nil =>
      simp only [Option.some.injEq] at h
      subst h
      refine inv.call hth (by simpa [Thread.Shape] using hshape) ?_ ?_ ?_
      all_goals simp [Frame.inFlight, Frame.tokens, Frame.rest]
    | cons frame rest => simp at h
  | next timeUp =>
    cases stack with
    | nil => simp at h
    | cons frame rest =>
      cases frame with
      | push q job pc =>
        simp only [Option.some.injEq] at h
        exact h ▸ inv.step_push hth
      | execute q pc =>
        simp only [Option.some.injEq] at h
        exact h ▸ inv.step_execute timeUp hth
      | globalQueueWork =>
        simp only [Option.some.injEq] at h
        exact h ▸ inv.step_globalQueueWork timeUp hth

theorem inv_of_reachable (h : (system Q J T).Reachable s) : Inv s := by
  refine h.invariant (fun s hs => ?_) (fun _ _ _ inv hs => inv.step hs)
  rw [show s = State.initial from hs]
  exact inv_initial

end Steps

/-! ## The protocol -/

/-- The places where a token can be: an activation, given by its depth in the call stack of a
thread, or a position of the global queue. -/
inductive Token (T : Type*) where
  | activation (t : T) (depth : ℕ)
  | entry (position : ℕ)

/-- A `Push` that saw zero and has not handed `q` over, or an `Execute` of `q` that has neither
brought the counter to zero nor entered `q` into the global queue again. -/
def Frame.HoldsToken (q : Q) : Frame Q J → Prop
  | .push q' _ pc => q' = q ∧ pc.sawZero
  | .execute q' pc => q' = q ∧ pc.holds
  | .globalQueueWork => False

/-- The place holds a token of `q`. -/
def State.HasToken (s : State Q J T) (q : Q) : Token T → Prop
  | .activation t depth => ∃ frame, (s.thread t).stack[depth]? = some frame ∧ frame.HoldsToken q
  | .entry position => s.globalQueue[position]? = some q

/-- The activation at this depth of the stack of `t` is running a job of `q`. -/
def State.RunsJob (s : State Q J T) (q : Q) (t : T) (depth : ℕ) : Prop :=
  ∃ job jobs jobCount, (s.thread t).stack[depth]? = some (.execute q (.running job jobs jobCount))

/-- The activation is a call of `Execute`. -/
def Frame.isExecute : Frame Q J → Bool
  | .execute _ _ => true
  | _ => false

theorem Frame.Calls.isExecute_eq {base : Frame Q J} (h : base.Calls) : base.isExecute = false := by
  cases base <;> first | rfl | exact h.elim

theorem Thread.Shape.countP_isExecute_le {th : Thread Q J} (h : th.Shape) :
    th.stack.countP Frame.isExecute ≤ 1 := by
  unfold Thread.Shape at h
  split at h
  · simp_all
  · simp_all [Frame.isExecute]
  · simp_all [Frame.isExecute]
  · rename_i heq
    rw [heq, List.countP_cons, List.countP_cons, h.2.isExecute_eq]
    simp [Frame.isExecute]
  · rename_i heq
    rw [heq, List.countP_cons, List.countP_cons, List.countP_cons, h.2.2.isExecute_eq]
    simp [Frame.isExecute]
  · exact h.elim

theorem Frame.holdsToken_iff [DecidableEq Q] {q : Q} {frame : Frame Q J} :
    frame.HoldsToken q ↔ 0 < frame.tokens q := by
  cases frame with
  | push q' job pc =>
    by_cases h : q' = q <;> cases hp : pc.sawZero <;> simp [Frame.HoldsToken, Frame.tokens, h, hp]
  | execute q' pc =>
    by_cases h : q' = q <;> cases hp : pc.holds <;> simp [Frame.HoldsToken, Frame.tokens, h, hp]
  | globalQueueWork => simp [Frame.HoldsToken, Frame.tokens]

section Protocol

variable [DecidableEq Q] [Fintype T] {s : State Q J T} {q : Q}

/-- A queue that stands in the global queue has no token elsewhere. -/
theorem QueueInv.not_activation_of_entry (inv : QueueInv s q) {i : ℕ}
    (hi : s.HasToken q (.entry i)) {t : T} {d : ℕ} : ¬ s.HasToken q (.activation t d) := by
  rintro ⟨frame, hf, hp⟩
  rw [Frame.holdsToken_iff] at hp
  have hentry : 0 < entries q s.globalQueue :=
    lt_of_lt_of_le (by simp)
      (Counting.le_sum_map_of_getElem? (fun q' => if q' = q then 1 else 0) hi)
  have hle := Thread.tokens_le_sum s t q
  have hpos := tokens_pos_of_mem (List.mem_of_getElem? hf) hp
  have := inv.tokens_le
  unfold State.tokens at this
  omega

theorem exists_hasToken_iff (s : State Q J T) (q : Q) :
    (∃ a, s.HasToken q a) ↔ 0 < s.tokens q := by
  unfold State.tokens
  rw [Nat.add_pos_iff_pos_or_pos]
  constructor
  · rintro ⟨⟨t, d⟩ | i, h⟩
    · obtain ⟨frame, hf, hp⟩ := h
      have hpos := tokens_pos_of_mem (List.mem_of_getElem? hf) (Frame.holdsToken_iff.1 hp)
      exact .inr (lt_of_lt_of_le hpos (Thread.tokens_le_sum s t q))
    · exact .inl (lt_of_lt_of_le (by simp)
        (Counting.le_sum_map_of_getElem? (fun q' => if q' = q then 1 else 0) h))
  · rintro (h | h)
    · obtain ⟨i, a, hi, ha⟩ := Counting.exists_pos_of_sum_map_pos _ h
      refine ⟨.entry i, ?_⟩
      obtain rfl : a = q := by
        by_contra e
        simp [e] at ha
      exact hi
    · obtain ⟨t, -, ht⟩ := Finset.exists_ne_zero_of_sum_ne_zero h.ne'
      obtain ⟨d, frame, hf, hp⟩ :=
        Counting.exists_pos_of_sum_map_pos (Frame.tokens q) (Nat.pos_of_ne_zero ht)
      exact ⟨.activation t d, frame, hf, Frame.holdsToken_iff.2 hp⟩

/-- A queue without activations and entries has run all its jobs. -/
theorem QueueInv.drained (inv : QueueInv s q) (hg : s.globalQueue = [])
    (hs : ∀ t, (s.thread t).stack = []) :
    s.jobCount q = 0 ∧ s.jobs q = [] ∧ s.ran q = s.pushed q := by
  have hcount := inv.count
  have htokens : s.tokens q = 0 := by
    simp [State.tokens, Thread.tokens, hg, hs, entries]
  have hflight : s.inFlight q = 0 := by
    simp [State.inFlight, Thread.inFlight, hs]
  have hmin := inv.token
  have hjobs : s.jobs q = [] := List.length_eq_zero_iff.1 (by omega)
  have hidle : s.pushed q = s.ran q ++ s.jobs q := by
    refine inv.idle fun jobs hj => ?_
    obtain ⟨t, frame, hf, -⟩ := hj
    simp [hs t] at hf
  refine ⟨by omega, hjobs, ?_⟩
  rw [hidle, hjobs, List.append_nil]

variable [DecidableEq T]

/-- Two activations that each hold a token of `q` are the same. -/
theorem QueueInv.activation_unique (inv : QueueInv s q) {t t' : T} {d d' : ℕ}
    (h : s.HasToken q (.activation t d)) (h' : s.HasToken q (.activation t' d')) :
    t = t' ∧ d = d' := by
  obtain ⟨frame, hf, hp⟩ := h
  obtain ⟨frame', hf', hp'⟩ := h'
  rw [Frame.holdsToken_iff] at hp hp'
  have hle := inv.tokens_le
  unfold State.tokens at hle
  obtain rfl : t = t' := Counting.eq_of_sum_le_one (fun t => (s.thread t).tokens q) (by omega)
    (tokens_pos_of_mem (List.mem_of_getElem? hf) hp)
    (tokens_pos_of_mem (List.mem_of_getElem? hf') hp')
  have hone := Thread.tokens_le_sum s t q
  exact ⟨rfl, Counting.index_eq_of_sum_map_le_one (Frame.tokens q) (hone.trans (by omega))
    hf hf' hp hp'⟩

theorem QueueInv.token_unique (inv : QueueInv s q) {a b : Token T} (ha : s.HasToken q a)
    (hb : s.HasToken q b) : a = b := by
  match a, b with
  | .activation t d, .activation t' d' =>
    obtain ⟨rfl, rfl⟩ := inv.activation_unique ha hb
    rfl
  | .entry i, .entry j =>
    have hle : entries q s.globalQueue ≤ 1 := le_trans (Nat.le_add_right _ _) inv.tokens_le
    rw [Counting.index_eq_of_sum_map_le_one (fun q' => if q' = q then 1 else 0) hle ha hb
      (by simp) (by simp)]
  | .entry i, .activation t d => exact absurd hb (inv.not_activation_of_entry ha)
  | .activation t d, .entry i => exact absurd ha (inv.not_activation_of_entry hb)

/-- In every reachable state, for every queue: there is at most one token, and there is one exactly
when the counter is positive; no two activations run jobs of the queue; the jobs that have started
are, in order, a prefix of the jobs entered into `m_jobs`; no thread is inside two calls of
`Execute`; a queue with a job in `m_jobs` has a token; and once no thread is inside the modelled
functions and the global queue is empty, every job entered has run. -/
theorem jobQueue_protocol (h : (system Q J T).Reachable s) (q : Q) :
    (∀ a b, s.HasToken q a → s.HasToken q b → a = b) ∧
    ((∃ a, s.HasToken q a) ↔ 0 < s.jobCount q) ∧
    (∀ t d t' d', s.RunsJob q t d → s.RunsJob q t' d' → t = t' ∧ d = d') ∧
    s.ran q <+: s.pushed q ∧
    (∀ t, (s.thread t).stack.countP Frame.isExecute ≤ 1) ∧
    (s.jobs q ≠ [] → ∃ a, s.HasToken q a) ∧
    (s.globalQueue = [] → (∀ t, (s.thread t).stack = []) →
      s.jobCount q = 0 ∧ s.jobs q = [] ∧ s.ran q = s.pushed q) := by
  have inv := inv_of_reachable h
  have hq := inv.queue q
  have hcount := hq.count
  have htoken : (∃ a, s.HasToken q a) ↔ 0 < s.jobCount q := by
    rw [exists_hasToken_iff, hq.token]
    omega
  refine ⟨fun a b => hq.token_unique, htoken, ?_, ?_,
    fun t => (inv.shape t).countP_isExecute_le, ?_, ?_⟩
  · rintro t d t' d' ⟨job, jobs, n, hf⟩ ⟨job', jobs', n', hf'⟩
    exact hq.activation_unique ⟨_, hf, rfl, rfl⟩ ⟨_, hf', rfl, rfl⟩
  · by_cases hb : ∃ jobs, s.Batch q jobs
    · obtain ⟨jobs, hb⟩ := hb
      exact ⟨jobs ++ s.jobs q, by rw [hq.order jobs hb, List.append_assoc]⟩
    · exact ⟨s.jobs q, (hq.idle fun jobs hj => hb ⟨jobs, hj⟩).symm⟩
  · intro hjobs
    have hpos := List.length_pos_iff.2 hjobs
    exact htoken.2 (by omega)
  · exact fun hg hs => hq.drained hg hs

/-- Two threads push to one queue; the first is running its job when the second has handed over. -/
theorem jobQueue_protocol_two_pushers :
    ∃ s : State (Fin 1) ℕ (Fin 2), (system (Fin 1) ℕ (Fin 2)).Reachable s ∧
      s.jobCount 0 = 2 ∧ s.ran 0 = [7] ∧ s.jobs 0 = [8] ∧
      (∃ a, s.HasToken 0 a) ∧ s.ran 0 <+: s.pushed 0 := by
  have hrun : (system (Fin 1) ℕ (Fin 2)).run .initial
      [(0, .doAsync 0 7), (0, .next false), (0, .next false), (0, .next false), (0, .next false),
        (0, .next false), (1, .doAsync 0 8), (1, .next false), (0, .next false), (1, .next false),
        (1, .next false)] = some _ := rfl
  have hreach := Transition.System.reachable_of_run (.init rfl) hrun
  have hprotocol := jobQueue_protocol hreach 0
  exact ⟨_, hreach, rfl, rfl, rfl, hprotocol.2.1.2 (by decide), hprotocol.2.2.2.1⟩

end Protocol

end JobQueue

end DhNet
