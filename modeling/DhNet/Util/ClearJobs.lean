import DhNet.Util.JobQueueDrain

/-!
# Clearing a job queue

`JobQueue::ClearJobs` drops the jobs in `m_jobs` and leaves `m_jobCount` alone.  Here it may be
called at any moment, beside the steps of the threads.  What was dropped stays counted: the counter
is the number of jobs in `m_jobs`, plus those popped and not yet subtracted, plus those counted and
not yet entered, plus those dropped.  The counter therefore never reaches zero again, and the
executor of the queue never leaves.  When nothing was dropped, the queues are in a state that they
reach without `ClearJobs`.
-/

open Finset

namespace DhNet

/-- `LockQueue::Clear`. -/
def LockQueue.clear {α : Type*} (_items : List α) : List α := []

namespace JobQueue

variable {Q J T : Type*}

/-! ## The queues with `ClearJobs` -/

/-- `JobQueue::ClearJobs`. -/
def State.clearJobs [DecidableEq Q] (s : State Q J T) (q : Q) : State Q J T :=
  { s with jobs := Function.update s.jobs q (LockQueue.clear (s.jobs q)) }

/-- The queues, and the jobs that `ClearJobs` has dropped from each. -/
structure ClearState (Q J T : Type*) where
  queues : State Q J T
  cleared : Q → List J

/-- A thread makes a step, or `ClearJobs` is called. -/
inductive ClearOp (Q J T : Type*) where
  | thread (t : T) (op : Op Q J)
  | clearJobs (q : Q)

section Clear

variable [DecidableEq Q] [DecidableEq T]

/-- One step. -/
def clearStep (s : ClearState Q J T) : ClearOp Q J T → Option (ClearState Q J T)
  | .thread t op => (step s.queues (t, op)).map fun queues => { s with queues := queues }
  | .clearJobs q => some
      { queues := s.queues.clearJobs q
        cleared := Function.update s.cleared q (s.cleared q ++ s.queues.jobs q) }

/-- The queues, the threads and the callers of `ClearJobs`. -/
def clearSystem (Q J T : Type*) [DecidableEq Q] [DecidableEq T] :
    Transition.System (ClearState Q J T) (ClearOp Q J T) where
  init s := s = ⟨.initial, fun _ => []⟩
  step := clearStep

variable {s : ClearState Q J T}

/-- When nothing was dropped, `ClearJobs` has done nothing. -/
theorem reachable_of_not_cleared (reach : (clearSystem Q J T).Reachable s)
    (hcleared : ∀ q, s.cleared q = []) : (system Q J T).Reachable s.queues := by
  revert hcleared
  refine reach.invariant (P := fun s => (∀ q, s.cleared q = []) →
    (system Q J T).Reachable s.queues) ?_ ?_
  · rintro s rfl -
    exact .init rfl
  · intro s op s' ih hstep hcleared
    cases op with
    | thread t op =>
      obtain ⟨queues, hqueues, rfl⟩ := Option.map_eq_some_iff.1 hstep
      exact (ih hcleared).step hqueues
    | clearJobs q =>
      cases hstep
      dsimp only at hcleared
      have hjobs : s.queues.jobs q = [] ∧ ∀ q', s.cleared q' = [] := by
        have hq := hcleared q
        rw [Function.update_self] at hq
        obtain ⟨hold, hjobs⟩ := List.append_eq_nil_iff.1 hq
        refine ⟨hjobs, fun q' => ?_⟩
        by_cases heq : q' = q
        · rw [heq, hold]
        · have hq' := hcleared q'
          rwa [Function.update_of_ne heq] at hq'
      have hsame : s.queues.clearJobs q = s.queues := by
        rw [State.clearJobs, LockQueue.clear, ← hjobs.1, Function.update_eq_self]
      rw [hsame]
      exact ih hjobs.2

end Clear

section Counted

variable [DecidableEq Q] [Fintype T] {s : ClearState Q J T} {q : Q}

/-- What is dropped stays counted. -/
structure ClearInv (s : ClearState Q J T) (q : Q) : Prop where
  count : s.queues.jobCount q =
    (s.queues.jobs q).length + s.queues.inFlight q + (s.cleared q).length
  token : s.queues.tokens q = min (s.queues.jobCount q).toNat 1

theorem ClearInv.moves (inv : ClearInv s q) {queues : State Q J T}
    (moves : Moves s.queues queues q) : ClearInv { s with queues := queues } q := by
  obtain ⟨hcount, htoken⟩ := moves.keeps _ inv.count inv.token
  exact ⟨hcount, htoken⟩

theorem ClearInv.clearJobs (inv : ClearInv s q) (q' : Q) :
    ClearInv ⟨s.queues.clearJobs q',
      Function.update s.cleared q' (s.cleared q' ++ s.queues.jobs q')⟩ q := by
  have hcount := inv.count
  refine ⟨?_, inv.token⟩
  by_cases hq : q = q'
  · subst hq
    simp only [State.clearJobs, LockQueue.clear, Function.update_self, List.length_nil,
      List.length_append]
    change s.queues.jobCount q = 0 + s.queues.inFlight q + _
    omega
  · simp only [State.clearJobs, Function.update_of_ne hq]
    exact hcount

variable [DecidableEq T]

theorem clearInv_of_reachable (reach : (clearSystem Q J T).Reachable s) (q : Q) :
    ClearInv s q := by
  refine reach.invariant (P := fun s => ClearInv s q) ?_ ?_
  · rintro s rfl
    exact ⟨(inv_initial.queue q).count, (inv_initial.queue q).token⟩
  · intro s op s' inv hstep
    cases op with
    | thread t op =>
      obtain ⟨queues, hqueues, rfl⟩ := Option.map_eq_some_iff.1 hstep
      exact inv.moves (step_moves hqueues q)
    | clearJobs q' =>
      cases hstep
      exact inv.clearJobs q'

/-- Once a job of the queue was dropped, there is always a token, and no executor gives it up. -/
theorem executor_stays (reach : (clearSystem Q J T).Reachable s) (hcleared : s.cleared q ≠ []) :
    (∃ a, s.queues.HasToken q a) ∧
      ∀ t n rest, (s.queues.thread t).stack = .execute q (.fetchSub n) :: rest →
        s.queues.jobCount q ≠ n := by
  have inv := clearInv_of_reachable reach q
  have hcount := inv.count
  have hpos := List.length_pos_iff.2 hcleared
  refine ⟨(exists_hasToken_iff s.queues q).2 ?_, fun t n rest hstack => ?_⟩
  · rw [inv.token]
    omega
  · have hmem : .execute q (.fetchSub n) ∈ (s.queues.thread t).stack := by simp [hstack]
    have hle : n ≤ s.queues.inFlight q := by
      simpa [Frame.inFlight, ExecutePc.batch] using le_inFlight hmem q
    omega

end Counted

/-! ## Usable queues -/

section Usable

variable [DecidableEq Q] [Fintype T] [DecidableEq T]

/-- The counters are right; a queue that is executed without a batch or waits in the global queue
has a job in `m_jobs` or one that is about to be entered; a queue with a job in `m_jobs` has a
token; and the threads can go on until every job entered has run. -/
structure Usable (s : State Q J T) : Prop where
  count : ∀ q, s.jobCount q = (s.jobs q).length + s.inFlight q
  executes : ∀ t q pc, .execute q pc ∈ (s.thread t).stack → pc.holds = true → pc.batch = 0 →
    s.jobs q ≠ [] ∨ ∃ t', (s.thread t').Pushes q
  waits : ∀ q ∈ s.globalQueue, s.jobs q ≠ [] ∨ ∃ t', (s.thread t').Pushes q
  token : ∀ q, s.jobs q ≠ [] → ∃ a, s.HasToken q a
  runs : ∃ s', Relation.ReflTransGen GoesOn s s' ∧ s'.Drained ∧
    ∀ q, s.pushed q <+: s'.ran q ∧ s'.jobCount q = 0

theorem usable_of_reachable {s : State Q J T} (reach : (system Q J T).Reachable s) : Usable s := by
  have inv := inv_of_reachable reach
  refine ⟨fun q => (inv.queue q).count, fun t q pc hmem => inv.work hmem,
    fun q hmem => inv.waits hmem, fun q hjobs => ?_, exists_all_ran reach⟩
  have hpos := List.length_pos_iff.2 hjobs
  have hcount := (inv.queue q).count
  rw [exists_hasToken_iff, (inv.queue q).token]
  omega

/-- The counter of a queue is right exactly if `ClearJobs` has dropped no job of it, and the queues
are usable exactly if it has dropped none at all. -/
theorem clearJobs_usable_iff {s : ClearState Q J T} (reach : (clearSystem Q J T).Reachable s) :
    (∀ q, s.queues.jobCount q = (s.queues.jobs q).length + s.queues.inFlight q ↔
      s.cleared q = []) ∧
    (Usable s.queues ↔ ∀ q, s.cleared q = []) := by
  have hcount : ∀ q, s.queues.jobCount q = (s.queues.jobs q).length + s.queues.inFlight q ↔
      s.cleared q = [] := by
    intro q
    have hq := (clearInv_of_reachable reach q).count
    rw [← List.length_eq_zero_iff]
    omega
  refine ⟨hcount, fun husable q => (hcount q).1 (husable.count q), fun hcleared => ?_⟩
  exact usable_of_reachable (reachable_of_not_cleared reach hcleared)

end Usable

/-- A queue is cleared while it is empty, and then a job is pushed. -/
def clearThenPush : List (ClearOp Unit ℕ Bool) :=
  .clearJobs () :: .thread false (.doAsync () 7) ::
    List.replicate 2 (.thread false (.next false))

theorem clearJobs_usable_iff_empty :
    ∃ s, (clearSystem Unit ℕ Bool).Reachable s ∧ s.queues.jobs () = [7] ∧ Usable s.queues := by
  obtain ⟨s, hrun, hjobs, hcleared⟩ :
      ∃ s, (clearSystem Unit ℕ Bool).run ⟨.initial, fun _ => []⟩ clearThenPush = some s ∧
        s.queues.jobs () = [7] ∧ ∀ q, s.cleared q = [] :=
    Transition.System.exists_final (by decide +kernel) ⟨by decide +kernel, by decide +kernel⟩
  have reach : (clearSystem Unit ℕ Bool).Reachable s :=
    Transition.System.reachable_of_run (.init rfl) hrun
  exact ⟨s, reach, hjobs, (clearJobs_usable_iff reach).2.2 hcleared⟩

/-- The queue is cleared when the thread that has pushed the first job is about to execute it. -/
def clearBeforePopAll : List (ClearOp Unit ℕ Bool) :=
  List.flatten [[.thread false (.doAsync () 7)], List.replicate 4 (.thread false (.next false)),
    [.clearJobs ()]]

/-- One turn of the loop of `Execute` without jobs. -/
def turn : List (ClearOp Unit ℕ Bool) := List.replicate 4 (.thread false (.next false))

/-- The job is gone and stays counted: nothing is in flight, and every turn of the loop of `Execute`
finds an empty list and goes on. -/
theorem clearJobs_loses_count :
    ∃ s s', (clearSystem Unit ℕ Bool).Reachable s ∧ s.queues.jobCount () = 1 ∧
      s.queues.jobs () = [] ∧ s.queues.inFlight () = 0 ∧
      (clearSystem Unit ℕ Bool).run s turn = some s' ∧ s'.queues.thread = s.queues.thread ∧
      s'.queues.jobCount () = 1 ∧ s'.queues.jobs () = [] := by
  obtain ⟨s, hrun, hcount, hjobs, hflight, hturn⟩ :
      ∃ s, (clearSystem Unit ℕ Bool).run ⟨.initial, fun _ => []⟩ clearBeforePopAll = some s ∧
        s.queues.jobCount () = 1 ∧ s.queues.jobs () = [] ∧ s.queues.inFlight () = 0 ∧
        ((clearSystem Unit ℕ Bool).run s turn).map (fun s' =>
          decide (s'.queues.thread = s.queues.thread) && decide (s'.queues.jobCount () = 1) &&
            decide (s'.queues.jobs () = [])) = some true :=
    Transition.System.exists_final (by decide +kernel)
      ⟨by decide +kernel, by decide +kernel, by decide +kernel, by decide +kernel⟩
  obtain ⟨s', hrun', hsame⟩ := Option.map_eq_some_iff.1 hturn
  simp only [Bool.and_eq_true, decide_eq_true_eq] at hsame
  exact ⟨s, s', Transition.System.reachable_of_run (.init rfl) hrun, hcount, hjobs, hflight, hrun',
    hsame.1.1, hsame.1.2, hsame.2⟩

end JobQueue

end DhNet
