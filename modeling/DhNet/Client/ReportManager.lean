import DhNet.Lib.Counting
import DhNet.Client.PingMetrics

/-!
# The reports of the stress client

`ReportManager::ReportInterval` takes the counters of the aggregator under one lock and appends them
to `m_history` under another one.  The main loop calls it every ten seconds.  `GracefulShutdown`,
which the main loop calls when the run time is over and a console handler at any moment, calls it
once more, copies the history, and writes the rows and their totals.

The threads are cut into their accesses to what they share, and the recording calls come at any
time.  Every snapshot is an interval; an interval has a number, and the numbers of calls that were
completed before it.  These are not in the source.  `inHand` has the intervals that are in no
history when the history is copied.
-/

open Finset

namespace DhNet

namespace StressTest

/-- What the aggregator counts. -/
inductive MetricKind where
  | success
  | timeout
  | stuck
  deriving DecidableEq, Repr

/-- The counter of a kind. -/
def MetricsAggregator.count (m : MetricsAggregator) : MetricKind → ℕ
  | .success => m.successCount
  | .timeout => m.timeoutCount
  | .stuck => m.stuckCount

/-- What the snapshot has of a kind. -/
def MetricsSnapshot.count (s : MetricsSnapshot) : MetricKind → ℕ
  | .success => s.successCount
  | .timeout => s.timeoutCount
  | .stuck => s.stuckCount

theorem MetricsAggregator.count_snapshot (m : MetricsAggregator) (kind : MetricKind) :
    m.snapshot.count kind = m.count kind := by
  unfold MetricsAggregator.snapshot
  dsimp only
  split_ifs <;> cases kind <;> rfl

theorem MetricsAggregator.count_empty (kind : MetricKind) :
    ({} : MetricsAggregator).count kind = 0 := by
  cases kind <;> rfl

namespace ReportManager

/-! ## The reports -/

/-- An interval: its number, and the numbers of calls completed before its snapshot. -/
structure Interval where
  number : ℕ
  completed : MetricKind → ℕ

/-- `IntervalReport`, with the interval it is about. -/
structure IntervalReport where
  timestamp : ℤ
  totalConnections : ℕ
  snapshot : MetricsSnapshot
  interval : Interval

/-- The local variables of the loop of `WriteFinalReport`. -/
structure Summary where
  totalSuccess : ℕ := 0
  totalTimeout : ℕ := 0
  totalStuck : ℕ := 0
  weightedRttSum : ℚ := 0
  totalSamples : ℕ := 0

/-- One turn of the loop of `WriteFinalReport`. -/
def Summary.add (sum : Summary) (r : IntervalReport) : Summary where
  totalSuccess := sum.totalSuccess + r.snapshot.successCount
  totalTimeout := sum.totalTimeout + r.snapshot.timeoutCount
  totalStuck := sum.totalStuck + r.snapshot.stuckCount
  weightedRttSum := sum.weightedRttSum + r.snapshot.avgMs * r.snapshot.sampleCount
  totalSamples := sum.totalSamples + r.snapshot.sampleCount

/-- The loop of `WriteFinalReport`. -/
def summarize (history : List IntervalReport) : Summary := history.foldl Summary.add {}

/-- `overallAvgRtt` of `WriteFinalReport`. -/
def Summary.overallAvgRtt (sum : Summary) : ℚ :=
  if 0 < sum.totalSamples then sum.weightedRttSum / sum.totalSamples else 0

/-- The total of a kind. -/
def Summary.total (sum : Summary) : MetricKind → ℕ
  | .success => sum.totalSuccess
  | .timeout => sum.totalTimeout
  | .stuck => sum.totalStuck

/-- The file that `WriteFinalReport` writes, with the interval of its own snapshot and the numbers
of the intervals that were in no history when it copied the history. -/
structure FinalReport where
  rows : List IntervalReport
  totalConnections : ℕ
  summary : Summary
  overallAvgRtt : ℚ
  own : Interval
  inHand : Finset ℕ

/-- What `WriteFinalReport` writes when the file is open. -/
def finalReport (own : Interval) (history : List IntervalReport) (inHand : Finset ℕ) :
    FinalReport where
  rows := history
  totalConnections := (history.getLast?.map (·.totalConnections)).getD 0
  summary := summarize history
  overallAvgRtt := (summarize history).overallAvgRtt
  own := own
  inHand := inHand

/-! ## The threads -/

/-- The point that a call of `ReportInterval` has reached. -/
inductive ReportPc where
  | getSnapshotAndReset
  | now (interval : Interval) (snapshot : MetricsSnapshot)
  | getTotalConnections (interval : Interval) (snapshot : MetricsSnapshot) (timestamp : ℤ)
  | pushBack (report : IntervalReport)

/-- The point that a thread has reached: outside, in `ReportInterval`, which `WriteFinalReport` may
have called, or in the rest of `GracefulShutdown`. -/
inductive Pc where
  | idle
  | exchange
  | report (final : Bool) (pc : ReportPc)
  | copy (own : Interval)
  | write (own : Interval) (history : List IntervalReport) (inHand : Finset ℕ)
  | exitProcess

/-- The interval that a call of `ReportInterval` has taken and not yet appended. -/
def ReportPc.inHand : ReportPc → Option (Interval × MetricsSnapshot)
  | .getSnapshotAndReset => none
  | .now interval snapshot => some (interval, snapshot)
  | .getTotalConnections interval snapshot _ => some (interval, snapshot)
  | .pushBack report => some (report.interval, report.snapshot)

/-- The number of the interval that the thread has in hand. -/
def Pc.inHand : Pc → Option ℕ
  | .report _ pc => pc.inHand.map (·.1.number)
  | _ => none

/-- The aggregator, `m_history`, the thread that set `s_shuttingDown`, and the threads; then the
numbers of calls completed, the snapshots taken and the report written so far. -/
structure State (T : Type*) where
  aggregator : MetricsAggregator
  totalConnections : ℕ
  history : List IntervalReport
  shuttingDown : Option T
  thread : T → Pc
  exited : Bool
  completed : MetricKind → ℕ
  snapshots : List MetricsSnapshot
  written : Option FinalReport

/-- A recording call is made, the main loop calls `ReportInterval`, a thread calls
`GracefulShutdown`, or a thread goes on, where the time and whether the file opens may be asked. -/
inductive Op (T : Type*) where
  | recordRtt (ms : ℚ)
  | recordTimeout
  | recordStuck
  | recordConnection
  | reportInterval
  | gracefulShutdown (t : T)
  | next (t : T) (timestamp : ℤ) (opened : Bool)

section Step

variable {T : Type*} [Fintype T] [DecidableEq T]

/-- The intervals that are in the hands of the threads. -/
def State.inHand (s : State T) : Finset ℕ :=
  univ.biUnion fun t => (s.thread t).inHand.toFinset

/-- A recording call. -/
def State.record (s : State T) (kind : MetricKind) (aggregator : MetricsAggregator) : State T :=
  { s with
    aggregator := aggregator
    completed := fun kind' => s.completed kind' + if kind' = kind then 1 else 0 }

/-- The thread goes to another point. -/
def State.goto (s : State T) (t : T) (pc : Pc) : State T :=
  { s with thread := Function.update s.thread t pc }

/-- `GetSnapshotAndReset` in `ReportInterval`. -/
def State.takeSnapshot (s : State T) (t : T) (final : Bool) : State T :=
  State.goto
    { s with
      aggregator := s.aggregator.getSnapshotAndReset.2
      snapshots := s.snapshots ++ [s.aggregator.getSnapshotAndReset.1] }
    t (.report final
      (.now ⟨s.snapshots.length, s.completed⟩ s.aggregator.getSnapshotAndReset.1))

/-- `push_back` in `ReportInterval`, and the return to the caller. -/
def State.pushBack (s : State T) (t : T) (final : Bool) (report : IntervalReport) : State T :=
  State.goto { s with history := s.history ++ [report] } t
    (if final then .copy report.interval else .idle)

/-- The next step of `ReportInterval`. -/
def State.nextReport (s : State T) (t : T) (timestamp : ℤ) (final : Bool) : ReportPc → State T
  | .getSnapshotAndReset => s.takeSnapshot t final
  | .now interval snapshot =>
      s.goto t (.report final (.getTotalConnections interval snapshot timestamp))
  | .getTotalConnections interval snapshot timestamp =>
      s.goto t (.report final (.pushBack ⟨timestamp, s.totalConnections, snapshot, interval⟩))
  | .pushBack report => s.pushBack t final report

/-- The next step of a thread. -/
def State.next (s : State T) (t : T) (timestamp : ℤ) (opened : Bool) : Pc → Option (State T)
  | .idle => none
  | .exchange =>
      match s.shuttingDown with
      | some _ => some (s.goto t .idle)
      | none =>
          some (State.goto { s with shuttingDown := some t } t (.report true .getSnapshotAndReset))
  | .report final pc => some (s.nextReport t timestamp final pc)
  | .copy own => some (s.goto t (.write own s.history s.inHand))
  | .write own history inHand =>
      some (State.goto
        { s with written := if opened then some (finalReport own history inHand) else s.written }
        t .exitProcess)
  | .exitProcess => some { s with exited := true }

/-- The thread is outside. -/
def Pc.isIdle : Pc → Bool
  | .idle => true
  | _ => false

/-- One step; `ExitProcess` ends all threads, and only the main loop calls `RecordTimeout` and
`RecordStuck`. -/
def step (main : T) (s : State T) (op : Op T) : Option (State T) :=
  if s.exited then none
  else
    match op with
    | .recordRtt ms => some (s.record .success (s.aggregator.recordRtt ms))
    | .recordTimeout =>
        if (s.thread main).isIdle then some (s.record .timeout s.aggregator.recordTimeout) else none
    | .recordStuck =>
        if (s.thread main).isIdle then some (s.record .stuck s.aggregator.recordStuck) else none
    | .recordConnection => some { s with totalConnections := s.totalConnections + 1 }
    | .reportInterval =>
        if (s.thread main).isIdle then some (s.goto main (.report false .getSnapshotAndReset))
        else none
    | .gracefulShutdown t => if (s.thread t).isIdle then some (s.goto t .exchange) else none
    | .next t timestamp opened => s.next t timestamp opened (s.thread t)

/-- The stress client before its first call. -/
def State.initial {T : Type*} : State T where
  aggregator := {}
  totalConnections := 0
  history := []
  shuttingDown := none
  thread := fun _ => .idle
  exited := false
  completed := fun _ => 0
  snapshots := []
  written := none

/-- The stress client, with its main thread and the console handlers. -/
def system (main : T) : Transition.System (State T) (Op T) := ⟨(· = .initial), step main⟩

end Step

/-! ## The intervals -/

/-- What the snapshot of an interval counted. -/
def intervalCount (snapshots : List MetricsSnapshot) (kind : MetricKind) (n : ℕ) : ℕ :=
  (snapshots.getD n {}).count kind

theorem intervalCount_append_of_lt {snapshots : List MetricsSnapshot} {n : ℕ}
    (h : n < snapshots.length) (later : List MetricsSnapshot) (kind : MetricKind) :
    intervalCount (snapshots ++ later) kind n = intervalCount snapshots kind n := by
  rw [intervalCount, List.getD_append _ _ _ _ h, intervalCount]

theorem sum_intervalCount_append {snapshots : List MetricsSnapshot} {n : ℕ}
    (h : n ≤ snapshots.length) (later : List MetricsSnapshot) (kind : MetricKind) :
    ∑ k ∈ range n, intervalCount (snapshots ++ later) kind k =
      ∑ k ∈ range n, intervalCount snapshots kind k := by
  refine Finset.sum_congr rfl fun k hk => ?_
  exact intervalCount_append_of_lt ((Finset.mem_range.1 hk).trans_le h) later kind

/-- The snapshot is the one of the interval. -/
structure Taken (snapshots : List MetricsSnapshot) (interval : Interval)
    (snapshot : MetricsSnapshot) : Prop where
  get : snapshots[interval.number]? = some snapshot
  completed : ∀ kind, interval.completed kind =
    ∑ n ∈ range (interval.number + 1), intervalCount snapshots kind n

theorem Taken.lt {snapshots : List MetricsSnapshot} {interval : Interval}
    {snapshot : MetricsSnapshot} (h : Taken snapshots interval snapshot) :
    interval.number < snapshots.length :=
  (List.getElem?_eq_some_iff.1 h.get).1

theorem Taken.count {snapshots : List MetricsSnapshot} {interval : Interval}
    {snapshot : MetricsSnapshot} (h : Taken snapshots interval snapshot) (kind : MetricKind) :
    snapshot.count kind = intervalCount snapshots kind interval.number := by
  rw [intervalCount, List.getD_eq_getElem?_getD, h.get, Option.getD_some]

theorem Taken.append {snapshots : List MetricsSnapshot} {interval : Interval}
    {snapshot : MetricsSnapshot} (h : Taken snapshots interval snapshot)
    (later : List MetricsSnapshot) : Taken (snapshots ++ later) interval snapshot where
  get := by rw [List.getElem?_append_left h.lt, h.get]
  completed kind := by rw [sum_intervalCount_append h.lt, h.completed]

/-- The numbers of the intervals of some reports. -/
def numbers (reports : List IntervalReport) : List ℕ := reports.map (·.interval.number)

/-- What was copied: reports of intervals, the own one among them, and every interval up to some
bound once, in the copy or in a hand. -/
structure Copied (snapshots : List MetricsSnapshot) (own : Interval) (rows : List IntervalReport)
    (inHand : Finset ℕ) : Prop where
  taken : ∀ r ∈ rows, Taken snapshots r.interval r.snapshot
  own : ∃ r ∈ rows, r.interval = own
  once : ∃ bound, ∀ n, (numbers rows).count n + (if n ∈ inHand then 1 else 0) =
    if n < bound then 1 else 0

theorem Copied.append {snapshots : List MetricsSnapshot} {own : Interval}
    {rows : List IntervalReport} {inHand : Finset ℕ} (h : Copied snapshots own rows inHand)
    (later : List MetricsSnapshot) : Copied (snapshots ++ later) own rows inHand :=
  ⟨fun r hr => (h.taken r hr).append later, h.own, h.once⟩

/-! ## The invariant -/

/-- What holds of a thread at its point. -/
def Pc.Sound (snapshots : List MetricsSnapshot) (history : List IntervalReport) : Pc → Prop
  | .report _ pc => ∀ p, pc.inHand = some p → Taken snapshots p.1 p.2
  | .copy own => ∃ r ∈ history, r.interval = own
  | .write own rows inHand => Copied snapshots own rows inHand
  | _ => True

theorem Pc.Sound.mono {snapshots : List MetricsSnapshot} {history : List IntervalReport} {pc : Pc}
    (h : pc.Sound snapshots history) (snapshots' : List MetricsSnapshot)
    (history' : List IntervalReport) :
    pc.Sound (snapshots ++ snapshots') (history ++ history') := by
  cases pc with
  | report final pc => exact fun p hp => (h p hp).append snapshots'
  | copy own =>
    obtain ⟨r, hr, hown⟩ := h
    exact ⟨r, List.mem_append_left _ hr, hown⟩
  | write own rows inHand => exact Copied.append h snapshots'
  | _ => trivial

/-- Whether the thread has the interval in hand. -/
def Pc.holds (n : ℕ) (pc : Pc) : ℕ := if pc.inHand = some n then 1 else 0

section Invariant

variable {T : Type*} [Fintype T] {s : State T}

/-- The invariant of the reports. -/
structure Inv (s : State T) : Prop where
  completed : ∀ kind, s.completed kind =
    ∑ n ∈ range s.snapshots.length, intervalCount s.snapshots kind n + s.aggregator.count kind
  history : ∀ r ∈ s.history, Taken s.snapshots r.interval r.snapshot
  thread : ∀ t, (s.thread t).Sound s.snapshots s.history
  once : ∀ n, (numbers s.history).count n + ∑ t, (s.thread t).holds n =
    if n < s.snapshots.length then 1 else 0
  written : ∀ w, s.written = some w →
    Copied s.snapshots w.own w.rows w.inHand ∧ w.summary = summarize w.rows

theorem inv_initial : Inv (State.initial : State T) where
  completed kind := by cases kind <;> rfl
  history r hr := by cases hr
  thread t := trivial
  once n := by simp [State.initial, numbers, Pc.holds, Pc.inHand]
  written w hw := by cases hw

theorem Inv.record (inv : Inv s) {kind : MetricKind} {aggregator : MetricsAggregator}
    (hcount : ∀ kind', aggregator.count kind' =
      s.aggregator.count kind' + if kind' = kind then 1 else 0) :
    Inv (s.record kind aggregator) where
  completed kind' := by
    change s.completed kind' + _ = _ + aggregator.count kind'
    rw [inv.completed, hcount, Nat.add_assoc]
    rfl
  history := inv.history
  thread := inv.thread
  once := inv.once
  written := inv.written

theorem Inv.setWritten (inv : Inv s) {written : Option FinalReport}
    (hwritten : ∀ w, written = some w →
      Copied s.snapshots w.own w.rows w.inHand ∧ w.summary = summarize w.rows) :
    Inv { s with written := written } :=
  ⟨inv.completed, inv.history, inv.thread, inv.once, hwritten⟩

/-- The intervals in the hands of the threads. -/
theorem Inv.sum_holds (inv : Inv s) (n : ℕ) :
    ∑ t, (s.thread t).holds n = if n ∈ s.inHand then 1 else 0 := by
  have honce := inv.once n
  by_cases hmem : n ∈ s.inHand
  · obtain ⟨t, -, ht⟩ := Finset.mem_biUnion.1 hmem
    have hholds : (s.thread t).holds n = 1 := if_pos (Option.mem_toFinset.1 ht)
    have hle := Finset.single_le_sum (fun t' _ => Nat.zero_le ((s.thread t').holds n))
      (Finset.mem_univ t)
    rw [if_pos hmem]
    split_ifs at honce <;> omega
  · rw [if_neg hmem]
    refine Finset.sum_eq_zero fun t _ => if_neg fun ht => hmem ?_
    exact Finset.mem_biUnion.2 ⟨t, Finset.mem_univ t, Option.mem_toFinset.2 ht⟩

/-- The history is copied. -/
theorem Inv.copied (inv : Inv s) {own : Interval} (hown : ∃ r ∈ s.history, r.interval = own) :
    Copied s.snapshots own s.history s.inHand where
  taken := inv.history
  own := hown
  once := ⟨s.snapshots.length, fun n => by rw [← inv.sum_holds]; exact inv.once n⟩

end Invariant

/-- The point of one thread is replaced by another one. -/
theorem sound_update {T : Type*} [DecidableEq T] {snapshots : List MetricsSnapshot}
    {history : List IntervalReport} {thread : T → Pc}
    (h : ∀ t, (thread t).Sound snapshots history) (t : T) {pc : Pc}
    (hpc : pc.Sound snapshots history) :
    ∀ t', (Function.update thread t pc t').Sound snapshots history := by
  intro t'
  by_cases heq : t' = t
  · rw [heq, Function.update_self]
    exact hpc
  · rw [Function.update_of_ne heq]
    exact h t'

section Steps

variable {T : Type*} [Fintype T] [DecidableEq T] {main : T} {s s' : State T}

/-- A thread goes on with what it has in hand. -/
theorem Inv.goto (inv : Inv s) (t : T) {pc : Pc} (hpc : pc.Sound s.snapshots s.history)
    (hhand : pc.inHand = (s.thread t).inHand) : Inv (s.goto t pc) where
  completed := inv.completed
  history := inv.history
  thread := sound_update inv.thread t hpc
  once n := by
    have hsum := Counting.sum_update_add s.thread (Pc.holds n) t pc
    have hsame : pc.holds n = (s.thread t).holds n := by rw [Pc.holds, hhand, Pc.holds]
    have honce := inv.once n
    change (numbers s.history).count n + ∑ t', (Function.update s.thread t pc t').holds n =
      if n < s.snapshots.length then 1 else 0
    omega
  written := inv.written

/-- The thread has the new interval in hand. -/
theorem Inv.takeSnapshot (inv : Inv s) {t : T} {final : Bool}
    (hthread : s.thread t = .report final .getSnapshotAndReset) : Inv (s.takeSnapshot t final) := by
  have hsum : ∀ kind, ∑ n ∈ range (s.snapshots.length + 1),
      intervalCount (s.snapshots ++ [s.aggregator.snapshot]) kind n = s.completed kind := by
    intro kind
    have hlast : intervalCount (s.snapshots ++ [s.aggregator.snapshot]) kind s.snapshots.length =
        s.aggregator.count kind := by
      rw [intervalCount, List.getD_append_right _ _ _ _ le_rfl, Nat.sub_self,
        ← s.aggregator.count_snapshot]
      rfl
    rw [Finset.sum_range_succ, sum_intervalCount_append le_rfl, hlast, inv.completed]
  have hlength : (s.takeSnapshot t final).snapshots.length = s.snapshots.length + 1 :=
    List.length_append
  refine ⟨?_, ?_, ?_, ?_, ?_⟩
  · intro kind
    have hempty : (s.takeSnapshot t final).aggregator.count kind = 0 :=
      MetricsAggregator.count_empty kind
    rw [hlength, hempty]
    exact (hsum kind).symm
  · exact fun r hr => (inv.history r hr).append _
  · refine sound_update (fun t' => ?_) t ?_
    · have hsound := (inv.thread t').mono [s.aggregator.snapshot] []
      rwa [List.append_nil] at hsound
    · rintro p ⟨⟩
      exact ⟨List.getElem?_concat_length, fun kind => (hsum kind).symm⟩
  · intro n
    let pc := Pc.report final (.now ⟨s.snapshots.length, s.completed⟩ s.aggregator.snapshot)
    have hupdate := Counting.sum_update_add s.thread (Pc.holds n) t pc
    have hold : (s.thread t).holds n = 0 := by rw [hthread]; rfl
    have hnew : pc.holds n = if s.snapshots.length = n then 1 else 0 := by
      simp [pc, Pc.holds, Pc.inHand, ReportPc.inHand]
    have honce := inv.once n
    rw [hold, hnew] at hupdate
    rw [hlength]
    change (numbers s.history).count n + ∑ t', (Function.update s.thread t pc t').holds n =
      if n < s.snapshots.length + 1 then 1 else 0
    split_ifs at hupdate honce ⊢ <;> omega
  · intro w hw
    exact ⟨(inv.written w hw).1.append _, (inv.written w hw).2⟩

/-- The interval goes from the hand of the thread to the history. -/
theorem Inv.pushBack (inv : Inv s) {t : T} {final : Bool} {report : IntervalReport}
    (hthread : s.thread t = .report final (.pushBack report)) :
    Inv (s.pushBack t final report) := by
  have htaken : Taken s.snapshots report.interval report.snapshot := by
    have hsound := inv.thread t
    rw [hthread] at hsound
    exact hsound _ rfl
  refine ⟨inv.completed, ?_, ?_, ?_, inv.written⟩
  · intro r hr
    rcases List.mem_append.1 hr with hold | hnew
    · exact inv.history r hold
    · rw [List.mem_singleton.1 hnew]
      exact htaken
  · refine sound_update (fun t' => ?_) t ?_
    · have hsound := (inv.thread t').mono [] [report]
      rwa [List.append_nil] at hsound
    · cases final with
      | true => exact ⟨report, List.mem_append_right _ (List.mem_singleton_self _), rfl⟩
      | false => trivial
  · intro n
    let pc := if final then Pc.copy report.interval else .idle
    have hupdate := Counting.sum_update_add s.thread (Pc.holds n) t pc
    have hold : (s.thread t).holds n = if report.interval.number = n then 1 else 0 := by
      rw [hthread]
      simp [Pc.holds, Pc.inHand, ReportPc.inHand]
    have hnew : pc.holds n = 0 := by cases final <;> rfl
    have hcount : (numbers (s.history ++ [report])).count n =
        (numbers s.history).count n + if report.interval.number = n then 1 else 0 := by
      simp [numbers, List.count_singleton]
    have honce := inv.once n
    rw [hold, hnew] at hupdate
    change (numbers (s.history ++ [report])).count n +
      ∑ t', (Function.update s.thread t pc t').holds n = if n < s.snapshots.length then 1 else 0
    rw [hcount]
    omega

theorem Inv.nextReport (inv : Inv s) {t : T} {final : Bool} {pc : ReportPc}
    (hthread : s.thread t = .report final pc) (timestamp : ℤ) :
    Inv (s.nextReport t timestamp final pc) := by
  have hsound := inv.thread t
  rw [hthread] at hsound
  cases pc with
  | getSnapshotAndReset => exact inv.takeSnapshot hthread
  | now interval snapshot => exact inv.goto t hsound (by rw [hthread]; rfl)
  | getTotalConnections interval snapshot timestamp =>
    exact inv.goto t hsound (by rw [hthread]; rfl)
  | pushBack report => exact inv.pushBack hthread

theorem Inv.next (inv : Inv s) {t : T} {timestamp : ℤ} {opened : Bool}
    (h : s.next t timestamp opened (s.thread t) = some s') : Inv s' := by
  cases hthread : s.thread t with
  | idle =>
    rw [hthread] at h
    cases h
  | exchange =>
    rw [hthread, State.next] at h
    cases hflag : s.shuttingDown with
    | some winner =>
      rw [hflag] at h
      cases h
      exact inv.goto t trivial (by rw [hthread]; rfl)
    | none =>
      rw [hflag] at h
      cases h
      exact Inv.goto (s := { s with shuttingDown := some t })
        ⟨inv.completed, inv.history, inv.thread, inv.once, inv.written⟩ t (by rintro p ⟨⟩)
        (by rw [hthread]; rfl)
  | report final pc =>
    rw [hthread] at h
    cases h
    exact inv.nextReport hthread timestamp
  | copy own =>
    have hsound := inv.thread t
    rw [hthread] at h hsound
    cases h
    exact inv.goto t (inv.copied hsound) (by rw [hthread]; rfl)
  | write own history inHand =>
    have hsound := inv.thread t
    rw [hthread] at h hsound
    cases h
    refine (inv.setWritten fun w hw => ?_).goto t ?_ ?_
    · cases opened with
      | true =>
        cases hw
        exact ⟨hsound, rfl⟩
      | false => exact inv.written w hw
    · trivial
    · rw [hthread]
      rfl
  | exitProcess =>
    rw [hthread] at h
    cases h
    exact ⟨inv.completed, inv.history, inv.thread, inv.once, inv.written⟩

theorem Pc.eq_idle {pc : Pc} (h : pc.isIdle = true) : pc = .idle := by
  cases pc <;> first | rfl | cases h

theorem Inv.step (inv : Inv s) {op : Op T} (h : step main s op = some s') : Inv s' := by
  obtain ⟨-, h⟩ := Option.ite_none_left_eq_some.1 h
  cases op with
  | recordRtt ms =>
    cases h
    exact inv.record fun kind => by cases kind <;> rfl
  | recordTimeout =>
    obtain ⟨-, ⟨⟩⟩ := Option.ite_none_right_eq_some.1 h
    exact inv.record fun kind => by cases kind <;> rfl
  | recordStuck =>
    obtain ⟨-, ⟨⟩⟩ := Option.ite_none_right_eq_some.1 h
    exact inv.record fun kind => by cases kind <;> rfl
  | recordConnection =>
    cases h
    exact ⟨inv.completed, inv.history, inv.thread, inv.once, inv.written⟩
  | reportInterval =>
    obtain ⟨hidle, ⟨⟩⟩ := Option.ite_none_right_eq_some.1 h
    exact inv.goto main (by rintro p ⟨⟩) (by rw [Pc.eq_idle hidle]; rfl)
  | gracefulShutdown t =>
    obtain ⟨hidle, ⟨⟩⟩ := Option.ite_none_right_eq_some.1 h
    exact inv.goto t trivial (by rw [Pc.eq_idle hidle]; rfl)
  | next t timestamp opened => exact inv.next h

theorem inv_of_reachable (reach : (system main).Reachable s) : Inv s := by
  refine reach.invariant (P := Inv) ?_ fun _ _ _ inv ht => inv.step ht
  rintro s rfl
  exact inv_initial

end Steps

/-! ## What the final report says -/

theorem foldl_add_total (history : List IntervalReport) (sum : Summary) (kind : MetricKind) :
    (history.foldl Summary.add sum).total kind =
      sum.total kind + (history.map (·.snapshot.count kind)).sum := by
  induction history generalizing sum with
  | nil => rfl
  | cons r history ih =>
    have hadd : (sum.add r).total kind = sum.total kind + r.snapshot.count kind := by
      cases kind <;> rfl
    rw [List.foldl_cons, ih, hadd, List.map_cons, List.sum_cons, Nat.add_assoc]

theorem summarize_total (history : List IntervalReport) (kind : MetricKind) :
    (summarize history).total kind = (history.map (·.snapshot.count kind)).sum := by
  have hzero : ({} : Summary).total kind = 0 := by cases kind <;> rfl
  rw [summarize, foldl_add_total, hzero, Nat.zero_add]

section Copies

variable {snapshots : List MetricsSnapshot} {own : Interval} {rows : List IntervalReport}
  {inHand : Finset ℕ}

theorem Copied.nodup (h : Copied snapshots own rows inHand) : (numbers rows).Nodup := by
  obtain ⟨bound, honce⟩ := h.once
  refine List.nodup_iff_count_le_one.2 fun n => ?_
  have hn := honce n
  split_ifs at hn <;> omega

/-- The totals are those of the intervals in the rows. -/
theorem Copied.total (h : Copied snapshots own rows inHand) (kind : MetricKind) :
    (summarize rows).total kind =
      ∑ n ∈ (numbers rows).toFinset, intervalCount snapshots kind n := by
  have hcounts : rows.map (·.snapshot.count kind) =
      (numbers rows).map (intervalCount snapshots kind) := by
    rw [numbers, List.map_map]
    exact List.map_congr_left fun r hr => (h.taken r hr).count kind
  rw [summarize_total, hcounts, List.sum_toFinset _ h.nodup]

/-- The calls completed before the own snapshot are those of the intervals up to the own one. -/
theorem Copied.completed (h : Copied snapshots own rows inHand) (kind : MetricKind) :
    own.completed kind = ∑ n ∈ range (own.number + 1), intervalCount snapshots kind n := by
  obtain ⟨r, hr, rfl⟩ := h.own
  exact (h.taken r hr).completed kind

end Copies

/-- The totals are the numbers of calls completed before the own snapshot, and every interval up to
the own one is in the rows once. -/
structure FinalReport.Complete (w : FinalReport) : Prop where
  totals : ∀ kind, w.summary.total kind = w.own.completed kind
  intervals : (numbers w.rows).Nodup ∧ ∀ n ≤ w.own.number, n ∈ numbers w.rows

/-- The thread is in the shutdown. -/
def Pc.isFinal : Pc → Bool
  | .report final _ => final
  | .copy _ => true
  | .write _ _ _ => true
  | .exitProcess => true
  | _ => false

/-- The thread is in a periodic report. -/
def Pc.isPeriodic : Pc → Bool
  | .report final _ => !final
  | _ => false

/-- No interval is later than the own one. -/
def Latest (own : Interval) (rows : List IntervalReport) (inHand : Finset ℕ) : Prop :=
  inHand = ∅ ∧ ∀ r ∈ rows, r.interval.number ≤ own.number

/-- The thread is in the shutdown, and no interval is later than its own one. -/
def Pc.ShutsDown (taken : ℕ) : Pc → Prop
  | .report final pc => final = true ∧ ∀ p, pc.inHand = some p → p.1.number + 1 = taken
  | .copy own => own.number + 1 = taken
  | .write own rows inHand => Latest own rows inHand
  | .exitProcess => True
  | _ => False

/-- The shutdown is in the thread that has set `s_shuttingDown`, and the periodic reports are in the
main thread; when both are the same one, no interval is later than the own one of the shutdown. -/
structure MainInv {T : Type*} (main : T) (s : State T) : Prop where
  final : ∀ t, (s.thread t).isFinal = true → s.shuttingDown = some t
  periodic : ∀ t, (s.thread t).isPeriodic = true → t = main
  unset : s.shuttingDown = none → s.written = none
  pc : s.shuttingDown = some main → (s.thread main).ShutsDown s.snapshots.length
  written : s.shuttingDown = some main → ∀ w, s.written = some w → Latest w.own w.rows w.inHand

section Main

variable {T : Type*} {main : T} {s s' : State T}

/-- When the main thread shuts down, every call of `ReportInterval` is its own. -/
theorem MainInv.eq_main (h : MainInv main s) {t : T} {final : Bool} {pc : ReportPc}
    (hthread : s.thread t = .report final pc) (hmain : s.shuttingDown = some main) : t = main := by
  cases final with
  | true => exact (Option.some.inj (hmain.symm.trans (h.final t (by rw [hthread]; rfl)))).symm
  | false => exact h.periodic t (by rw [hthread]; rfl)

/-- When the main thread shuts down and is not in `ReportInterval`, nobody is. -/
theorem MainInv.inHand_eq_empty [Fintype T] (h : MainInv main s)
    (hmain : s.shuttingDown = some main) (hcopy : (s.thread main).inHand = none) :
    s.inHand = ∅ := by
  refine Finset.eq_empty_of_forall_notMem fun n hn => ?_
  obtain ⟨t, -, ht⟩ := Finset.mem_biUnion.1 hn
  rw [Option.mem_toFinset, Option.mem_def] at ht
  cases hthread : s.thread t with
  | report final pc =>
    rw [h.eq_main hthread hmain, hcopy] at ht
    cases ht
  | _ =>
    rw [hthread] at ht
    cases ht

variable [DecidableEq T]

theorem State.goto_self (s : State T) (t : T) (pc : Pc) : (s.goto t pc).thread t = pc := by
  simp only [State.goto, Function.update_self]

theorem State.goto_of_ne (s : State T) {t t' : T} (h : t' ≠ t) (pc : Pc) :
    (s.goto t pc).thread t' = s.thread t' := by
  simp only [State.goto, Function.update_of_ne h]

theorem MainInv.goto (h : MainInv main s) (t : T) {pc : Pc}
    (hfinal : pc.isFinal = true → s.shuttingDown = some t)
    (hperiodic : pc.isPeriodic = true → t = main)
    (hpc : t = main → s.shuttingDown = some main → pc.ShutsDown s.snapshots.length) :
    MainInv main (s.goto t pc) := by
  refine ⟨fun t' => ?_, fun t' => ?_, h.unset, fun hmain => ?_, h.written⟩
  · by_cases heq : t' = t
    · subst heq
      rw [State.goto_self]
      exact hfinal
    · rw [State.goto_of_ne s heq]
      exact h.final t'
  · by_cases heq : t' = t
    · subst heq
      rw [State.goto_self]
      exact hperiodic
    · rw [State.goto_of_ne s heq]
      exact h.periodic t'
  · by_cases heq : main = t
    · rw [← heq, State.goto_self]
      exact hpc heq.symm hmain
    · rw [State.goto_of_ne s heq]
      exact h.pc hmain

theorem MainInv.takeSnapshot (h : MainInv main s) {t : T} {final : Bool}
    (hthread : s.thread t = .report final .getSnapshotAndReset) :
    MainInv main (s.takeSnapshot t final) := by
  have hfinal : s.shuttingDown = some main → final = true := by
    intro hmain
    have hpc := h.pc hmain
    rw [← h.eq_main hthread hmain, hthread] at hpc
    exact hpc.1
  refine MainInv.goto ?_ t ?_ ?_ ?_
  · refine ⟨h.final, h.periodic, h.unset, fun hmain => ?_, h.written⟩
    rw [← h.eq_main hthread hmain]
    dsimp only
    rw [hthread]
    exact ⟨hfinal hmain, by rintro p ⟨⟩⟩
  · exact fun hpc => h.final t (by rw [hthread]; exact hpc)
  · exact fun hpc => h.periodic t (by rw [hthread]; exact hpc)
  · refine fun _ hmain => ⟨hfinal hmain, ?_⟩
    rintro p ⟨⟩
    rw [List.length_append, List.length_singleton]

theorem MainInv.pushBack (h : MainInv main s) {t : T} {final : Bool} {report : IntervalReport}
    (hthread : s.thread t = .report final (.pushBack report)) :
    MainInv main (s.pushBack t final report) := by
  refine MainInv.goto ?_ t ?_ ?_ ?_
  · exact ⟨h.final, h.periodic, h.unset, h.pc, h.written⟩
  · cases final with
    | true => exact fun _ => h.final t (by rw [hthread]; rfl)
    | false => exact fun hpc => by cases hpc
  · cases final <;> exact fun hpc => by cases hpc
  · rintro rfl hmain
    have hpc := h.pc hmain
    rw [hthread] at hpc
    obtain ⟨rfl, hnumber⟩ := hpc
    exact hnumber _ rfl

theorem MainInv.nextReport (h : MainInv main s) {t : T} {final : Bool} {pc : ReportPc}
    (hthread : s.thread t = .report final pc) (timestamp : ℤ) :
    MainInv main (s.nextReport t timestamp final pc) := by
  have hfinal : final = true → s.shuttingDown = some t := fun heq =>
    h.final t (by rw [hthread]; exact heq)
  have hperiodic : (!final) = true → t = main := fun heq =>
    h.periodic t (by rw [hthread]; exact heq)
  have hpc : t = main → s.shuttingDown = some main →
      (Pc.report final pc).ShutsDown s.snapshots.length := by
    rintro rfl hmain
    exact hthread ▸ h.pc hmain
  cases pc with
  | getSnapshotAndReset => exact h.takeSnapshot hthread
  | now interval snapshot => exact h.goto t hfinal hperiodic hpc
  | getTotalConnections interval snapshot timestamp => exact h.goto t hfinal hperiodic hpc
  | pushBack report => exact h.pushBack hthread

/-- The thread that sets `s_shuttingDown`. -/
theorem MainInv.exchange (h : MainInv main s) {t : T} (hflag : s.shuttingDown = none) :
    MainInv main (State.goto { s with shuttingDown := some t } t
      (.report true .getSnapshotAndReset)) := by
  refine ⟨fun t' ht' => ?_, fun t' ht' => ?_, fun hnone => ?_, fun hmain => ?_, fun _ w hw => ?_⟩
  · by_cases heq : t' = t
    · exact congrArg some heq.symm
    · rw [State.goto_of_ne _ heq] at ht'
      exact absurd (hflag.symm.trans (h.final t' ht')) (Option.some_ne_none t').symm
  · by_cases heq : t' = t
    · rw [heq, State.goto_self] at ht'
      cases ht'
    · rw [State.goto_of_ne _ heq] at ht'
      exact h.periodic t' ht'
  · cases hnone
  · obtain rfl : t = main := Option.some.inj hmain
    rw [State.goto_self]
    exact ⟨rfl, by rintro p ⟨⟩⟩
  · rw [State.goto, h.unset hflag] at hw
    cases hw

variable [Fintype T]

theorem MainInv.next (h : MainInv main s) (inv : Inv s) {t : T} {timestamp : ℤ} {opened : Bool}
    (hnext : s.next t timestamp opened (s.thread t) = some s') : MainInv main s' := by
  cases hthread : s.thread t with
  | idle =>
    rw [hthread] at hnext
    cases hnext
  | exchange =>
    rw [hthread, State.next] at hnext
    cases hflag : s.shuttingDown with
    | some winner =>
      rw [hflag] at hnext
      cases hnext
      refine h.goto t (fun hpc => by cases hpc) (fun hpc => by cases hpc) ?_
      rintro rfl hmain
      exact (hthread ▸ h.pc hmain : Pc.ShutsDown _ .exchange)
    | none =>
      rw [hflag] at hnext
      cases hnext
      exact h.exchange hflag
  | report final pc =>
    rw [hthread] at hnext
    cases hnext
    exact h.nextReport hthread timestamp
  | copy own =>
    have hflag : s.shuttingDown = some t := h.final t (by rw [hthread]; rfl)
    rw [hthread] at hnext
    cases hnext
    refine h.goto t (fun _ => hflag) (fun hpc => by cases hpc) ?_
    rintro rfl hmain
    have hown := h.pc hmain
    rw [hthread] at hown
    change own.number + 1 = s.snapshots.length at hown
    refine ⟨h.inHand_eq_empty hmain (by rw [hthread]; rfl), fun r hr => ?_⟩
    have hlt := (inv.history r hr).lt
    omega
  | write own history inHand =>
    have hflag : s.shuttingDown = some t := h.final t (by rw [hthread]; rfl)
    rw [hthread] at hnext
    cases hnext
    refine MainInv.goto ?_ t (fun _ => hflag) ?_ fun _ _ => trivial
    · refine ⟨h.final, h.periodic, fun hnone => ?_, h.pc, fun hmain w hw => ?_⟩
      · cases hflag.symm.trans hnone
      · cases opened with
        | true =>
          cases hw
          obtain rfl : t = main := Option.some.inj (hflag.symm.trans hmain)
          exact (hthread ▸ h.pc hmain : Pc.ShutsDown _ (.write own history inHand))
        | false => exact h.written hmain w hw
    · exact fun hpc => by cases hpc
  | exitProcess =>
    rw [hthread] at hnext
    cases hnext
    exact ⟨h.final, h.periodic, h.unset, h.pc, h.written⟩

theorem MainInv.step (h : MainInv main s) (inv : Inv s) {op : Op T}
    (hstep : step main s op = some s') : MainInv main s' := by
  obtain ⟨-, hstep⟩ := Option.ite_none_left_eq_some.1 hstep
  cases op with
  | recordRtt ms =>
    cases hstep
    exact ⟨h.final, h.periodic, h.unset, h.pc, h.written⟩
  | recordTimeout =>
    obtain ⟨-, ⟨⟩⟩ := Option.ite_none_right_eq_some.1 hstep
    exact ⟨h.final, h.periodic, h.unset, h.pc, h.written⟩
  | recordStuck =>
    obtain ⟨-, ⟨⟩⟩ := Option.ite_none_right_eq_some.1 hstep
    exact ⟨h.final, h.periodic, h.unset, h.pc, h.written⟩
  | recordConnection =>
    cases hstep
    exact ⟨h.final, h.periodic, h.unset, h.pc, h.written⟩
  | reportInterval =>
    obtain ⟨hidle, ⟨⟩⟩ := Option.ite_none_right_eq_some.1 hstep
    refine h.goto main (fun hpc => by cases hpc) (fun _ => rfl) fun _ hmain => ?_
    exact ((Pc.eq_idle hidle) ▸ h.pc hmain : Pc.ShutsDown _ .idle).elim
  | gracefulShutdown t =>
    obtain ⟨hidle, ⟨⟩⟩ := Option.ite_none_right_eq_some.1 hstep
    refine h.goto t (fun hpc => by cases hpc) (fun hpc => by cases hpc) ?_
    rintro rfl hmain
    exact ((Pc.eq_idle hidle) ▸ h.pc hmain : Pc.ShutsDown _ .idle)
  | next t timestamp opened => exact h.next inv hstep

end Main

end ReportManager

end StressTest

end DhNet
