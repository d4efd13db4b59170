import DhNet.Lib.Counting
import DhNet.Util.JobQueue

/-!
# The counter and the tokens of a job queue

An activation on a call stack contributes to its queue the jobs that it has counted and that are not
in `m_jobs` (`inFlight`), and the tokens that it holds (`tokens`): the duty of a pusher that saw
zero, of an executor before its last `fetch_sub`, and of an entry of the global queue.

`Moves` says once what a step of a thread does to the counter and the tokens of a queue, and
`Moves.keeps` what follows for every law of the form "the counter is the number of jobs in `m_jobs`,
plus those in flight, plus a constant".
-/

open Finset

namespace DhNet

namespace JobQueue

variable {Q J T : Type*}

/-! ## What an activation contributes to a queue -/

/-- The executor is still responsible for its queue. -/
def ExecutePc.holds : ExecutePc J → Bool
  | .leave => false
  | _ => true

/-- The number of jobs popped and not yet subtracted from the counter. -/
def ExecutePc.batch : ExecutePc J → ℕ
  | .run _ jobCount => jobCount
  | .running _ _ jobCount => jobCount
  | .fetchSub jobCount => jobCount
  | _ => 0

/-- The pusher saw a counter of zero and has not handed its queue over. -/
def PushPc.sawZero : PushPc → Bool
  | .enqueue prevCount => prevCount = 0
  | .handOver prevCount => prevCount = 0
  | _ => false

/-- The pusher has raised the counter and not entered its job. -/
def PushPc.counted : PushPc → ℕ
  | .enqueue _ => 1
  | _ => 0

section Measures

variable [DecidableEq Q]

/-- The jobs an activation has counted that are not in `m_jobs` of `q`. -/
def Frame.inFlight (q : Q) : Frame Q J → ℕ
  | .push q' _ pc => if q' = q then pc.counted else 0
  | .execute q' pc => if q' = q then pc.batch else 0
  | .globalQueueWork => 0

/-- The tokens of `q` held by an activation. -/
def Frame.tokens (q : Q) : Frame Q J → ℕ
  | .push q' _ pc => if q' = q then pc.sawZero.toNat else 0
  | .execute q' pc => if q' = q then pc.holds.toNat else 0
  | .globalQueueWork => 0

/-- The jobs of `q` counted by the activations of one thread. -/
def Thread.inFlight (q : Q) (th : Thread Q J) : ℕ := (th.stack.map (Frame.inFlight q)).sum

/-- The tokens of `q` held by the activations of one thread. -/
def Thread.tokens (q : Q) (th : Thread Q J) : ℕ := (th.stack.map (Frame.tokens q)).sum

/-- The number of entries of `q` in the global queue. -/
def entries (q : Q) (globalQueue : List Q) : ℕ :=
  (globalQueue.map fun q' => if q' = q then 1 else 0).sum

variable [Fintype T]

/-- The jobs of `q` that are counted and not in `m_jobs`. -/
def State.inFlight (s : State Q J T) (q : Q) : ℕ := ∑ t, (s.thread t).inFlight q

/-- The tokens of `q`: its entries in the global queue and those the threads hold. -/
def State.tokens (s : State Q J T) (q : Q) : ℕ :=
  entries q s.globalQueue + ∑ t, (s.thread t).tokens q

end Measures

section Activations

variable [DecidableEq Q] {s : State Q J T} {t : T} {q : Q} {frame : Frame Q J}

theorem tokens_pos_of_mem (hf : frame ∈ (s.thread t).stack) (hp : 0 < frame.tokens q) :
    0 < (s.thread t).tokens q :=
  lt_of_lt_of_le hp (List.single_le_sum (by simp) _ (List.mem_map_of_mem hf))

variable [Fintype T]

theorem Thread.tokens_le_sum (s : State Q J T) (t : T) (q : Q) :
    (s.thread t).tokens q ≤ ∑ t, (s.thread t).tokens q :=
  Finset.single_le_sum (f := fun t => (s.thread t).tokens q) (fun _ _ => Nat.zero_le _)
    (Finset.mem_univ t)

theorem le_inFlight (hf : frame ∈ (s.thread t).stack) (q : Q) :
    frame.inFlight q ≤ s.inFlight q := by
  have hle : frame.inFlight q ≤ (s.thread t).inFlight q :=
    List.single_le_sum (by simp) _ (List.mem_map_of_mem hf)
  exact hle.trans (Finset.single_le_sum (f := fun t => (s.thread t).inFlight q)
    (fun _ _ => Nat.zero_le _) (Finset.mem_univ t))

end Activations

/-! ## What a step does to the counter and the tokens -/

section Moves

variable [DecidableEq Q] [Fintype T]

/-- What a step does to the counter and the tokens of a queue: neither changes, the counter is
raised, or an executor subtracts its batch. -/
structure Moves (s s' : State Q J T) (q : Q) : Prop where
  count : s'.jobCount q + (s.jobs q).length + s.inFlight q =
    s.jobCount q + (s'.jobs q).length + s'.inFlight q
  token : s'.jobCount q = s.jobCount q ∧ s'.tokens q = s.tokens q ∨
    s'.jobCount q = s.jobCount q + 1 ∧
      s'.tokens q = s.tokens q + (if s.jobCount q = 0 then 1 else 0) ∨
    ∃ n : ℕ, n ≤ s.inFlight q ∧ 0 < s.tokens q ∧ s'.jobCount q = s.jobCount q - n ∧
      s'.tokens q + (if s.jobCount q = n then 1 else 0) = s.tokens q

variable {s s' : State Q J T} {q : Q}

/-- A counter that is too large by a constant stays so, with one token exactly when it is
positive. -/
theorem Moves.keeps (moves : Moves s s' q) (dropped : ℕ)
    (hcount : s.jobCount q = (s.jobs q).length + s.inFlight q + dropped)
    (htoken : s.tokens q = min (s.jobCount q).toNat 1) :
    s'.jobCount q = (s'.jobs q).length + s'.inFlight q + dropped ∧
      s'.tokens q = min (s'.jobCount q).toNat 1 := by
  have hmoves := moves.count
  refine ⟨by omega, ?_⟩
  rcases moves.token with ⟨hc, ht⟩ | ⟨hc, ht⟩ | ⟨n, hle, hpos, hc, ht⟩
  · rw [ht, hc, htoken]
  · split_ifs at ht <;> omega
  · split_ifs at ht <;> omega

variable [DecidableEq T] {t : T} {q' : Q} {job : J} {current current' : Option Q}
  {old new rest : List (Frame Q J)}

/-- A thread replaces its innermost activations. -/
theorem inFlight_replace (hth : s.thread t = ⟨current, old ++ rest⟩)
    (h : s'.thread = Function.update s.thread t ⟨current', new ++ rest⟩) (q : Q) :
    s'.inFlight q + (old.map (Frame.inFlight q)).sum =
      s.inFlight q + (new.map (Frame.inFlight q)).sum := by
  have hsum := Counting.sum_update_add s.thread (Thread.inFlight q) t ⟨current', new ++ rest⟩
  rw [← h, hth] at hsum
  simp only [Thread.inFlight, List.map_append, List.sum_append] at hsum
  simp only [State.inFlight, Thread.inFlight]
  omega

theorem tokens_replace (hth : s.thread t = ⟨current, old ++ rest⟩)
    (h : s'.thread = Function.update s.thread t ⟨current', new ++ rest⟩) (q : Q) :
    s'.tokens q + entries q s.globalQueue + (old.map (Frame.tokens q)).sum =
      s.tokens q + entries q s'.globalQueue + (new.map (Frame.tokens q)).sum := by
  have hsum := Counting.sum_update_add s.thread (Thread.tokens q) t ⟨current', new ++ rest⟩
  rw [← h, hth] at hsum
  simp only [Thread.tokens, List.map_append, List.sum_append] at hsum
  simp only [State.tokens, Thread.tokens]
  omega

/-- A step that leaves the counter alone and moves jobs and tokens. -/
theorem moves_of_replace (hth : s.thread t = ⟨current, old ++ rest⟩) (new : List (Frame Q J))
    (h : s'.thread = Function.update s.thread t ⟨current', new ++ rest⟩)
    (hcount : s'.jobCount q = s.jobCount q)
    (hjobs : (s'.jobs q).length + (new.map (Frame.inFlight q)).sum =
      (s.jobs q).length + (old.map (Frame.inFlight q)).sum)
    (htokens : entries q s'.globalQueue + (new.map (Frame.tokens q)).sum =
      entries q s.globalQueue + (old.map (Frame.tokens q)).sum) : Moves s s' q := by
  have hflight := inFlight_replace hth h q
  have htoken := tokens_replace hth h q
  exact ⟨by omega, .inl ⟨hcount, by omega⟩⟩

theorem moves_fetchAdd (hth : s.thread t = ⟨current, .push q' job .fetchAdd :: rest⟩) (q : Q) :
    Moves s (stepPush s t q' job rest .fetchAdd) q := by
  have hold : s.thread t = ⟨current, [.push q' job .fetchAdd] ++ rest⟩ := hth
  have h : (stepPush s t q' job rest .fetchAdd).thread = Function.update s.thread t
      ⟨(s.thread t).currentJobQueue, [.push q' job (.enqueue (s.jobCount q'))] ++ rest⟩ := rfl
  by_cases hq : q' = q
  · subst hq
    have hflight := inFlight_replace hold h q'
    have htoken := tokens_replace hold h q'
    have hcount : (stepPush s t q' job rest .fetchAdd).jobCount q' = s.jobCount q' + 1 :=
      Function.update_self _ _ _
    have hglobal : (stepPush s t q' job rest .fetchAdd).globalQueue = s.globalQueue := rfl
    have hjobs : (stepPush s t q' job rest .fetchAdd).jobs = s.jobs := rfl
    simp only [List.map_singleton, List.sum_singleton, Frame.inFlight, PushPc.counted,
      if_true] at hflight
    simp only [hglobal, List.map_singleton, List.sum_singleton, Frame.tokens, PushPc.sawZero,
      if_true, Bool.toNat_false] at htoken
    refine ⟨by rw [hjobs]; omega, .inr (.inl ⟨hcount, ?_⟩)⟩
    by_cases hzero : s.jobCount q' = 0
    · rw [decide_eq_true hzero, Bool.toNat_true] at htoken
      rw [if_pos hzero]
      omega
    · rw [decide_eq_false hzero, Bool.toNat_false] at htoken
      rw [if_neg hzero]
      omega
  · refine moves_of_replace hold _ h (Function.update_of_ne (Ne.symm hq) _ _) ?_ ?_
    · simp only [List.map_singleton, Frame.inFlight, if_neg hq]
      rfl
    · simp only [List.map_singleton, Frame.tokens, if_neg hq]
      rfl

theorem moves_enqueue {prevCount : ℤ}
    (hth : s.thread t = ⟨current, .push q' job (.enqueue prevCount) :: rest⟩) (q : Q) :
    Moves s (stepPush s t q' job rest (.enqueue prevCount)) q := by
  have hold : s.thread t = ⟨current, [.push q' job (.enqueue prevCount)] ++ rest⟩ := hth
  refine moves_of_replace hold [.push q' job (.handOver prevCount)] rfl rfl ?_ rfl
  by_cases hq : q' = q
  · subst hq
    simp [stepPush, State.setStack, Frame.inFlight, PushPc.counted, LockQueue.push]
  · simp [stepPush, State.setStack, Frame.inFlight, hq, Ne.symm hq]

theorem moves_push {pc : PushPc} (hth : s.thread t = ⟨current, .push q' job pc :: rest⟩) (q : Q) :
    Moves s (stepPush s t q' job rest pc) q := by
  have hold : s.thread t = ⟨current, [.push q' job pc] ++ rest⟩ := hth
  cases pc with
  | fetchAdd => exact moves_fetchAdd hth q
  | enqueue prevCount => exact moves_enqueue hth q
  | handOver prevCount =>
    simp only [stepPush]
    split_ifs with hzero
    · subst hzero
      split
      · refine moves_of_replace hold [] rfl rfl ?_ ?_
        all_goals simp [State.setStack, State.pushGlobal, Frame.inFlight, PushPc.counted,
          Frame.tokens, PushPc.sawZero, entries, LockQueue.push]
      · refine moves_of_replace hold [.execute q' .enter, .push q' job .executing] rfl rfl ?_ ?_
        all_goals simp [State.setStack, Frame.inFlight, PushPc.counted, ExecutePc.batch,
          Frame.tokens, PushPc.sawZero, ExecutePc.holds]
    · refine moves_of_replace hold [] rfl rfl ?_ ?_
      all_goals simp [State.setStack, hzero, Frame.inFlight, PushPc.counted, Frame.tokens,
        PushPc.sawZero]
  | executing =>
    refine moves_of_replace hold [] rfl rfl ?_ ?_
    all_goals simp [stepPush, State.setStack, Frame.inFlight, PushPc.counted, Frame.tokens,
      PushPc.sawZero]

/-- The `fetch_sub` after a batch: the executor drops its token exactly when the counter reaches
zero. -/
theorem moves_fetchSub {n : ℕ} (hth : s.thread t = ⟨current, .execute q' (.fetchSub n) :: rest⟩)
    (timeUp : Bool) (q : Q) : Moves s (stepExecute s t timeUp q' rest (.fetchSub n)) q := by
  have hold : s.thread t = ⟨current, [.execute q' (.fetchSub n)] ++ rest⟩ := hth
  let pc : ExecutePc J := if s.jobCount q' = n then .leave else .checkTime
  have h : (stepExecute s t timeUp q' rest (.fetchSub n)).thread = Function.update s.thread t
      ⟨(s.thread t).currentJobQueue, [.execute q' pc] ++ rest⟩ := rfl
  by_cases hq : q' = q
  · subst hq
    have hflight := inFlight_replace hold h q'
    have htoken := tokens_replace hold h q'
    have hmem : .execute q' (.fetchSub n) ∈ (s.thread t).stack := by
      rw [hth]
      exact List.mem_cons_self
    have hbefore : (Frame.execute q' (.fetchSub n : ExecutePc J)).inFlight q' = n ∧
        (Frame.execute q' (.fetchSub n : ExecutePc J)).tokens q' = 1 := ⟨if_pos rfl, if_pos rfl⟩
    have hafter : (Frame.execute q' pc).inFlight q' = pc.batch ∧
        (Frame.execute q' pc).tokens q' = pc.holds.toNat := ⟨if_pos rfl, if_pos rfl⟩
    have hpc : pc.batch = 0 ∧ pc.holds.toNat + (if s.jobCount q' = n then 1 else 0) = 1 := by
      simp only [pc]
      split_ifs <;> exact ⟨rfl, rfl⟩
    have hle : n ≤ s.inFlight q' := hbefore.1 ▸ le_inFlight hmem q'
    have hpos : 0 < s.tokens q' := by
      have htokens : 0 < (s.thread t).tokens q' :=
        tokens_pos_of_mem hmem (by rw [hbefore.2]; decide)
      exact (htokens.trans_le (Thread.tokens_le_sum s t q')).trans_le (Nat.le_add_left _ _)
    have hcount : (stepExecute s t timeUp q' rest (.fetchSub n)).jobCount q' =
        s.jobCount q' - n := Function.update_self _ _ _
    have hglobal : (stepExecute s t timeUp q' rest (.fetchSub n)).globalQueue = s.globalQueue := rfl
    have hjobs : (stepExecute s t timeUp q' rest (.fetchSub n)).jobs = s.jobs := rfl
    rw [List.map_singleton, List.map_singleton, List.sum_singleton, List.sum_singleton, hbefore.1,
      hafter.1, hpc.1] at hflight
    rw [hglobal, List.map_singleton, List.map_singleton, List.sum_singleton, List.sum_singleton,
      hbefore.2, hafter.2] at htoken
    exact ⟨by rw [hjobs]; omega, .inr (.inr ⟨n, hle, hpos, hcount, by omega⟩)⟩
  · refine moves_of_replace hold _ h (Function.update_of_ne (Ne.symm hq) _ _) ?_ ?_
    · simp only [List.map_singleton, Frame.inFlight, if_neg hq]
      rfl
    · simp only [List.map_singleton, Frame.tokens, if_neg hq]
      rfl

theorem moves_popAll (hth : s.thread t = ⟨current, .execute q' .popAll :: rest⟩) (timeUp : Bool)
    (q : Q) : Moves s (stepExecute s t timeUp q' rest .popAll) q := by
  have hold : s.thread t = ⟨current, [.execute q' .popAll] ++ rest⟩ := hth
  refine moves_of_replace hold [_] rfl rfl ?_ rfl
  by_cases hq : q' = q
  · subst hq
    simp [stepExecute, State.setStack, Frame.inFlight, ExecutePc.batch]
  · simp [stepExecute, State.setStack, Frame.inFlight, hq, Ne.symm hq]

theorem moves_execute {pc : ExecutePc J} (hth : s.thread t = ⟨current, .execute q' pc :: rest⟩)
    (timeUp : Bool) (q : Q) : Moves s (stepExecute s t timeUp q' rest pc) q := by
  have hold : s.thread t = ⟨current, [.execute q' pc] ++ rest⟩ := hth
  cases pc with
  | enter => exact moves_of_replace hold [_] rfl rfl rfl rfl
  | popAll => exact moves_popAll hth timeUp q
  | run jobs jobCount => cases jobs <;> exact moves_of_replace hold [_] rfl rfl rfl rfl
  | running job jobs jobCount => exact moves_of_replace hold [_] rfl rfl rfl rfl
  | fetchSub jobCount => exact moves_fetchSub hth timeUp q
  | checkTime => cases timeUp <;> exact moves_of_replace hold [_] rfl rfl rfl rfl
  | leave =>
    refine moves_of_replace hold [] rfl rfl ?_ ?_
    all_goals simp [stepExecute, State.setThread, Frame.inFlight, ExecutePc.batch, Frame.tokens,
      ExecutePc.holds]
  | rePush =>
    refine moves_of_replace hold [] rfl rfl ?_ ?_
    all_goals simp [stepExecute, State.setStack, State.pushGlobal, Frame.inFlight, ExecutePc.batch,
      Frame.tokens, ExecutePc.holds, entries, LockQueue.push]

theorem moves_globalQueueWork (hth : s.thread t = ⟨current, .globalQueueWork :: rest⟩)
    (timeUp : Bool) (q : Q) : Moves s (stepGlobalQueueWork s t timeUp rest) q := by
  have hold : s.thread t = ⟨current, [.globalQueueWork] ++ rest⟩ := hth
  have hreturn : Moves s (s.setStack t rest) q := moves_of_replace hold [] rfl rfl rfl rfl
  unfold stepGlobalQueueWork
  cases timeUp with
  | true => exact hreturn
  | false =>
    cases hglobal : s.globalQueue with
    | nil => exact hreturn
    | cons q₀ queues =>
      refine moves_of_replace hold [.execute q₀ .enter, .globalQueueWork] rfl rfl ?_ ?_
      · simp [State.setStack, LockQueue.pop, Frame.inFlight, ExecutePc.batch]
      · simp [State.setStack, LockQueue.pop, hglobal, Frame.tokens, ExecutePc.holds, entries]
        omega

/-- A thread enters a function: nothing is counted yet. -/
theorem moves_call (hth : s.thread t = ⟨current, rest⟩) {frame : Frame Q J}
    (hflight : frame.inFlight q = 0) (htokens : frame.tokens q = 0) :
    Moves s (s.setStack t (frame :: rest)) q := by
  have hold : s.thread t = ⟨current, [] ++ rest⟩ := hth
  refine moves_of_replace hold [frame] rfl rfl ?_ ?_
  · rw [List.map_singleton, List.sum_singleton, hflight]
    rfl
  · rw [List.map_singleton, List.sum_singleton, htokens]
    rfl

/-- What a step of a thread does to a queue. -/
theorem step_moves {a : T × Op Q J} (h : step s a = some s') (q : Q) : Moves s s' q := by
  obtain ⟨t, op⟩ := a
  rcases hth : s.thread t with ⟨current, stack⟩
  simp only [step, hth] at h
  cases op with
  | doAsync q' job =>
    obtain ⟨-, ⟨⟩⟩ := Option.ite_none_right_eq_some.1 h
    exact moves_call hth (ite_self 0) (ite_self 0)
  | doGlobalQueueWork =>
    cases stack with
    | nil =>
      cases h
      exact moves_call hth rfl rfl
    | cons frame rest => cases h
  | next timeUp =>
    cases stack with
    | nil => cases h
    | cons frame rest =>
      cases frame with
      | push q' job pc =>
        cases h
        exact moves_push hth q
      | execute q' pc =>
        cases h
        exact moves_execute hth timeUp q
      | globalQueueWork =>
        cases h
        exact moves_globalQueueWork hth timeUp q

end Moves

end JobQueue

end DhNet
