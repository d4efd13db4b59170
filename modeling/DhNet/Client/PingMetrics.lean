import DhNet.Client.StressTest
import Mathlib.Algebra.BigOperators.Group.List.Basic
import Mathlib.Data.Multiset.AddSub
import Mathlib.Data.Multiset.Count
import Mathlib.Data.Rat.Floor

/-!
# The accounting of the pings

The registry of the stress client with all its sessions, the `MetricsAggregator`, and any number of
calls of `AdvancePing`, `AdvanceScenario` and the packet handlers in progress.  A call works on the
state of its session under the lock of the registry and calls the aggregator after it, so other
calls come between the two.

A session may be registered again, so the pings belong to a registration, and the log of a run says
for which one a ping was sent, answered or given up.

* `advancePing_balance`, `handleResTest_balance`: what a call decides and what happens to
  `pingInFlight`.
* `Inv`: the balance of every registration, and of the aggregator with its snapshots.
* `ping_accounting`: the balance in every state of every run.
-/

namespace DhNet

namespace StressTest

/-! ## The aggregator -/

/-- `MetricsSnapshot`. -/
structure MetricsSnapshot where
  successCount : ℕ := 0
  timeoutCount : ℕ := 0
  stuckCount : ℕ := 0
  sampleCount : ℕ := 0
  minMs : ℚ := 0
  maxMs : ℚ := 0
  avgMs : ℚ := 0
  p50Ms : ℚ := 0
  p95Ms : ℚ := 0
  p99Ms : ℚ := 0
  deriving DecidableEq, Repr

/-- The counters of `MetricsAggregator` that `GetSnapshotAndReset` resets. -/
structure MetricsAggregator where
  rttSamplesMs : List ℚ := []
  successCount : ℕ := 0
  timeoutCount : ℕ := 0
  stuckCount : ℕ := 0
  deriving DecidableEq, Repr

/-- `RecordRtt`. -/
def MetricsAggregator.recordRtt (m : MetricsAggregator) (ms : ℚ) : MetricsAggregator :=
  { m with rttSamplesMs := m.rttSamplesMs ++ [ms], successCount := m.successCount + 1 }

/-- `RecordTimeout`. -/
def MetricsAggregator.recordTimeout (m : MetricsAggregator) : MetricsAggregator :=
  { m with timeoutCount := m.timeoutCount + 1 }

/-- `RecordStuck`. -/
def MetricsAggregator.recordStuck (m : MetricsAggregator) : MetricsAggregator :=
  { m with stuckCount := m.stuckCount + 1 }

/-- `Percentile`. -/
def percentile (sorted : List ℚ) (p : ℚ) : ℚ :=
  if sorted.isEmpty then 0 else sorted.getD (p * (sorted.length - 1 : ℕ)).floor.toNat 0

/-- The snapshot that `GetSnapshotAndReset` returns. -/
def MetricsAggregator.snapshot (m : MetricsAggregator) : MetricsSnapshot :=
  let counts : MetricsSnapshot :=
    { successCount := m.successCount
      timeoutCount := m.timeoutCount
      stuckCount := m.stuckCount
      sampleCount := m.rttSamplesMs.length }
  if m.rttSamplesMs.isEmpty then counts
  else
    let samples := m.rttSamplesMs.mergeSort fun a b => decide (a ≤ b)
    { counts with
      minMs := samples.headD 0
      maxMs := samples.getLastD 0
      avgMs := samples.sum / samples.length
      p50Ms := percentile samples (50 / 100)
      p95Ms := percentile samples (95 / 100)
      p99Ms := percentile samples (99 / 100) }

/-- `GetSnapshotAndReset`. -/
def MetricsAggregator.getSnapshotAndReset (m : MetricsAggregator) :
    MetricsSnapshot × MetricsAggregator :=
  (m.snapshot, {})

theorem MetricsAggregator.snapshot_counts (m : MetricsAggregator) :
    m.snapshot.successCount = m.successCount ∧ m.snapshot.timeoutCount = m.timeoutCount ∧
      m.snapshot.sampleCount = m.rttSamplesMs.length := by
  unfold MetricsAggregator.snapshot
  dsimp only
  split_ifs <;> exact ⟨rfl, rfl, rfl⟩

/-! ## What the calls decide -/

section Decisions

variable (cfg : ScenarioConfig) (now : ℤ) (st : ScenarioState)

/-- `shouldRecordTimeout` of `AdvancePing`. -/
def shouldRecordTimeout : Bool :=
  st.pingInFlight && decide (milliseconds cfg.pingTimeoutMs ≤ now - st.pingSentTime)

/-- `rttMs` of `Scenario_HandleResTestPacket` when it is to be recorded, in nanoseconds. -/
def resTestRtt : Option ℤ :=
  if st.pingInFlight then some (now - st.pingSentTime) else none

/-- `std::chrono::duration<double, std::milli>` of a number of nanoseconds. -/
def toMs (duration : ℤ) : ℚ := duration / 1000000

/-- A call of `AdvancePing` gives up a ping or not and sends one or not. -/
theorem advancePing_balance :
    (advancePing cfg now st).1.pingInFlight.toNat + (shouldRecordTimeout cfg now st).toNat =
      st.pingInFlight.toNat + (advancePing cfg now st).2.toNat := by
  by_cases hdue : milliseconds cfg.pingTimeoutMs ≤ now - st.pingSentTime <;>
    by_cases hsend : milliseconds cfg.pingIntervalMs ≤ now - st.lastPingSentTime <;>
    cases hflight : st.pingInFlight <;>
    simp [advancePing, expirePing, shouldRecordTimeout, hdue, hsend, hflight]

/-- An echo ends a ping exactly if it is to be recorded. -/
theorem handleResTest_balance :
    (handleResTest st).pingInFlight.toNat + (resTestRtt now st).isSome.toNat =
      st.pingInFlight.toNat := by
  cases hflight : st.pingInFlight <;> simp [handleResTest, resTestRtt, hflight]

theorem advanceScenario_pingInFlight :
    (advanceScenario cfg now st).1.pingInFlight = st.pingInFlight := by
  unfold advanceScenario retryRoomAction
  repeat' split
  all_goals rfl

/-- `AdvanceScenario` calls `RecordStuck`. -/
def ScenarioAction.recordsStuck : ScenarioAction → Bool
  | .logStuckRoomEnter => true
  | .logStuckRoomExit => true
  | _ => false

end Decisions

namespace PingMetrics

/-! ## The registry and the calls in progress -/

/-- An entry of the registry, with the number of its registration. -/
structure Entry where
  registration : ℕ
  state : ScenarioState
  deriving DecidableEq, Repr

/-- What has happened to a ping of a registration: it was decided to send it, to count it as a
success or to count it as a timeout, or the aggregator was told so. -/
inductive Event where
  | ping (registration : ℕ)
  | success (registration : ℕ)
  | timeout (registration : ℕ)
  | recordRtt (registration : ℕ)
  | recordTimeout (registration : ℕ)
  deriving DecidableEq, Repr

/-- A call in progress, before its access to the registry or to the aggregator. -/
inductive Call (S : Type*) where
  | advancePing (session : S) (now : ℤ)
  | advanceScenario (session : S) (now : ℤ)
  | handleResTest (session : S) (now : ℤ)
  | handleResLobbyEnter (session : S) (now : ℤ)
  | handleNotiRoomEnter (session : S) (now : ℤ)
  | recordRtt (registration : ℕ) (ms : ℚ)
  | recordTimeout (registration : ℕ)
  | recordStuck
  | getSnapshotAndReset
  deriving DecidableEq, Repr

/-- The calls that are made from outside; the other ones follow from them. -/
def Call.isOuter {S : Type*} : Call S → Bool
  | .recordRtt _ _ => false
  | .recordTimeout _ => false
  | .recordStuck => false
  | _ => true

/-- What a call decides under the lock of the registry: to call `RecordRtt`, `RecordTimeout`,
`SendPing` or `RecordStuck` after it. -/
structure Decision where
  rttMs : Option ℚ := none
  timeout : Bool := false
  ping : Bool := false
  stuck : Bool := false

/-- What the decision means for the pings of the registration. -/
def Decision.events (d : Decision) (r : ℕ) : List Event :=
  (if d.rttMs.isSome then [.success r] else []) ++ (if d.timeout then [.timeout r] else []) ++
    if d.ping then [.ping r] else []

/-- The calls of the aggregator that follow. -/
def Decision.calls {S : Type*} (d : Decision) (r : ℕ) : Multiset (Call S) :=
  (match d.rttMs with
    | some ms => {.recordRtt r ms}
    | none => 0) +
  (if d.timeout then {.recordTimeout r} else 0) + if d.stuck then {.recordStuck} else 0

/-- The registry, the aggregator, the calls in progress, and what has happened so far. -/
structure State (S : Type*) where
  entry : S → Option Entry
  registrations : ℕ
  aggregator : MetricsAggregator
  calls : Multiset (Call S)
  snapshots : List MetricsSnapshot
  log : List Event

/-- A session is registered or unregistered, a call is made, or a call goes on. -/
inductive Op (S : Type*) where
  | register (session : S)
  | unregister (session : S)
  | call (call : Call S)
  | proceed (call : Call S)

section Step

variable {S : Type*} [DecidableEq S]

/-- `Apply`: the function is called on the state of the session if there is one. -/
def State.apply (s : State S) (session : S) (f : ScenarioState → ScenarioState × Decision) :
    State S :=
  match s.entry session with
  | none => s
  | some e =>
      { s with
        entry := Function.update s.entry session (some { e with state := (f e.state).1 })
        calls := (f e.state).2.calls e.registration + s.calls
        log := s.log ++ (f e.state).2.events e.registration }

/-- The next access of a call that has been taken out of the calls in progress. -/
def State.proceed (cfg : ScenarioConfig) (s : State S) : Call S → State S
  | .advancePing session now => s.apply session fun st =>
      ((advancePing cfg now st).1,
        { timeout := shouldRecordTimeout cfg now st, ping := (advancePing cfg now st).2 })
  | .advanceScenario session now => s.apply session fun st =>
      ((advanceScenario cfg now st).1,
        { stuck := (advanceScenario cfg now st).2.recordsStuck })
  | .handleResTest session now => s.apply session fun st =>
      (handleResTest st, { rttMs := (resTestRtt now st).map toMs })
  | .handleResLobbyEnter session now => s.apply session fun st => (handleResLobbyEnter now st, {})
  | .handleNotiRoomEnter session now => s.apply session fun st => (handleNotiRoomEnter now st, {})
  | .recordRtt r ms =>
      { s with aggregator := s.aggregator.recordRtt ms, log := s.log ++ [.recordRtt r] }
  | .recordTimeout r =>
      { s with aggregator := s.aggregator.recordTimeout, log := s.log ++ [.recordTimeout r] }
  | .recordStuck => { s with aggregator := s.aggregator.recordStuck }
  | .getSnapshotAndReset =>
      { s with
        aggregator := s.aggregator.getSnapshotAndReset.2
        snapshots := s.snapshots ++ [s.aggregator.getSnapshotAndReset.1] }

/-- `Register`. -/
def State.register (s : State S) (session : S) : State S :=
  { s with
    entry := Function.update s.entry session (some ⟨s.registrations, {}⟩)
    registrations := s.registrations + 1 }

/-- `Unregister`. -/
def State.unregister (s : State S) (session : S) : State S :=
  { s with entry := Function.update s.entry session none }

/-- One step. -/
def step (cfg : ScenarioConfig) (s : State S) : Op S → Option (State S)
  | .register session => some (s.register session)
  | .unregister session => some (s.unregister session)
  | .call call => if call.isOuter then some { s with calls := call ::ₘ s.calls } else none
  | .proceed call =>
      if call ∈ s.calls then some (State.proceed cfg { s with calls := s.calls.erase call } call)
      else none

/-- The registry and the aggregator before the first session. -/
def State.initial {S : Type*} : State S := ⟨fun _ => none, 0, {}, 0, [], []⟩

/-- The registry and the aggregator of the stress client. -/
def system (S : Type*) [DecidableEq S] (cfg : ScenarioConfig) :
    Transition.System (State S) (Op S) :=
  ⟨(· = .initial), step cfg⟩

end Step

/-! ## Counting decisions -/

/-- The registration that an event is about. -/
def Event.registration : Event → ℕ
  | .ping r => r
  | .success r => r
  | .timeout r => r
  | .recordRtt r => r
  | .recordTimeout r => r

/-- A call of `RecordRtt`. -/
def Event.isRecordRtt : Event → Bool
  | .recordRtt _ => true
  | _ => false

/-- A call of `RecordTimeout`. -/
def Event.isRecordTimeout : Event → Bool
  | .recordTimeout _ => true
  | _ => false

/-- The call is about to call `RecordRtt` for the registration. -/
def Call.owesRtt {S : Type*} (r : ℕ) : Call S → Bool
  | .recordRtt r' _ => r' == r
  | _ => false

/-- The call is about to call `RecordTimeout` for the registration. -/
def Call.owesTimeout {S : Type*} (r : ℕ) : Call S → Bool
  | .recordTimeout r' => r' == r
  | _ => false

/-- Only the calls that follow from others owe something. -/
theorem Call.not_owes {S : Type*} (call : Call S) (houter : call.isOuter = true) (r : ℕ) :
    call.owesRtt r = false ∧ call.owesTimeout r = false := by
  cases call <;> first | exact ⟨rfl, rfl⟩ | cases houter

section Counts

variable {S : Type*} (d : Decision) (r r' : ℕ)

theorem Decision.registration_of_mem {event : Event} (h : event ∈ d.events r) :
    event.registration = r := by
  simp only [Decision.events, List.mem_append, List.mem_ite_nil_right, List.mem_singleton] at h
  rcases h with (⟨-, rfl⟩ | ⟨-, rfl⟩) | ⟨-, rfl⟩ <;> rfl

theorem Decision.count_ping :
    (d.events r).count (.ping r') = if r = r' then d.ping.toNat else 0 := by
  obtain ⟨rttMs, timeout, ping, stuck⟩ := d
  cases rttMs <;> cases timeout <;> cases ping <;> simp [Decision.events, List.count_singleton]

theorem Decision.count_success :
    (d.events r).count (.success r') = if r = r' then d.rttMs.isSome.toNat else 0 := by
  obtain ⟨rttMs, timeout, ping, stuck⟩ := d
  cases rttMs <;> cases timeout <;> cases ping <;> simp [Decision.events, List.count_cons]

theorem Decision.count_timeout :
    (d.events r).count (.timeout r') = if r = r' then d.timeout.toNat else 0 := by
  obtain ⟨rttMs, timeout, ping, stuck⟩ := d
  cases rttMs <;> cases timeout <;> cases ping <;> simp [Decision.events, List.count_cons]

/-- A decision is not a call of the aggregator yet. -/
theorem Decision.not_recorded {event : Event} (h : event ∈ d.events r) :
    event.isRecordRtt = false ∧ event.isRecordTimeout = false := by
  simp only [Decision.events, List.mem_append, List.mem_ite_nil_right, List.mem_singleton] at h
  rcases h with (⟨-, rfl⟩ | ⟨-, rfl⟩) | ⟨-, rfl⟩ <;> exact ⟨rfl, rfl⟩

theorem Decision.countP_owesRtt :
    (d.calls r : Multiset (Call S)).countP (fun call => call.owesRtt r') =
      (d.events r).count (.success r') := by
  rw [Decision.count_success]
  obtain ⟨rttMs, timeout, ping, stuck⟩ := d
  cases rttMs <;> cases timeout <;> cases stuck <;>
    simp [Decision.calls, ← Multiset.cons_zero, Multiset.countP_cons, Call.owesRtt]

theorem Decision.countP_owesTimeout :
    (d.calls r : Multiset (Call S)).countP (fun call => call.owesTimeout r') =
      (d.events r).count (.timeout r') := by
  rw [Decision.count_timeout]
  obtain ⟨rttMs, timeout, ping, stuck⟩ := d
  cases rttMs <;> cases timeout <;> cases stuck <;>
    simp [Decision.calls, ← Multiset.cons_zero, Multiset.countP_cons, Call.owesTimeout]

end Counts

/-! ## The invariant -/

/-- The registrations are numbered in turn, no two sessions have the same one, and nothing has
happened yet in those to come. -/
structure Numbered {S : Type*} (s : State S) : Prop where
  entry_lt : ∀ session e, s.entry session = some e → e.registration < s.registrations
  unique : ∀ session session' e e', s.entry session = some e → s.entry session' = some e' →
    e.registration = e'.registration → session = session'
  event_lt : ∀ event ∈ s.log, event.registration < s.registrations

/-- The pings of a registration that is in force are in balance. -/
def State.Balanced {S : Type*} (s : State S) : Prop :=
  ∀ session e, s.entry session = some e →
    s.log.count (.ping e.registration) =
      s.log.count (.success e.registration) + s.log.count (.timeout e.registration) +
        e.state.pingInFlight.toNat

/-- What was decided has been recorded or is about to be. -/
structure Owed {S : Type*} (calls : Multiset (Call S)) (log : List Event) : Prop where
  rtt : ∀ r, log.count (.success r) =
    log.count (.recordRtt r) + calls.countP fun call => call.owesRtt r
  timeout : ∀ r, log.count (.timeout r) =
    log.count (.recordTimeout r) + calls.countP fun call => call.owesTimeout r

/-- The aggregator and the snapshots together have what was recorded. -/
structure Totals (aggregator : MetricsAggregator) (snapshots : List MetricsSnapshot)
    (log : List Event) : Prop where
  success : (snapshots.map MetricsSnapshot.successCount).sum + aggregator.successCount =
    log.countP Event.isRecordRtt
  timeout : (snapshots.map MetricsSnapshot.timeoutCount).sum + aggregator.timeoutCount =
    log.countP Event.isRecordTimeout
  samples : aggregator.rttSamplesMs.length = aggregator.successCount
  snapshots : ∀ snapshot ∈ snapshots, snapshot.sampleCount = snapshot.successCount

/-- The accounts of the registry and of the aggregator. -/
structure Inv {S : Type*} (s : State S) : Prop where
  numbered : Numbered s
  balanced : s.Balanced
  owed : Owed s.calls s.log
  totals : Totals s.aggregator s.snapshots s.log

section Totals

variable {m : MetricsAggregator} {snapshots : List MetricsSnapshot} {log : List Event}

/-- Decisions alone do not concern the aggregator. -/
theorem Totals.decide (h : Totals m snapshots log) (d : Decision) (r : ℕ) :
    Totals m snapshots (log ++ d.events r) where
  success := by
    have hnone : (d.events r).countP Event.isRecordRtt = 0 :=
      List.countP_eq_zero.2 fun event hevent => by simp [(d.not_recorded r hevent).1]
    rw [List.countP_append, hnone]
    exact h.success
  timeout := by
    have hnone : (d.events r).countP Event.isRecordTimeout = 0 :=
      List.countP_eq_zero.2 fun event hevent => by simp [(d.not_recorded r hevent).2]
    rw [List.countP_append, hnone]
    exact h.timeout
  samples := h.samples
  snapshots := h.snapshots

theorem Totals.recordRtt (h : Totals m snapshots log) (ms : ℚ) (r : ℕ) :
    Totals (m.recordRtt ms) snapshots (log ++ [.recordRtt r]) where
  success := by
    rw [List.countP_append, ← h.success]
    rfl
  timeout := by
    rw [List.countP_append, ← h.timeout]
    rfl
  samples := by
    simp only [MetricsAggregator.recordRtt, List.length_append, h.samples]
    rfl
  snapshots := h.snapshots

theorem Totals.recordTimeout (h : Totals m snapshots log) (r : ℕ) :
    Totals m.recordTimeout snapshots (log ++ [.recordTimeout r]) where
  success := by
    rw [List.countP_append, ← h.success]
    rfl
  timeout := by
    rw [List.countP_append, ← h.timeout]
    rfl
  samples := h.samples
  snapshots := h.snapshots

theorem Totals.recordStuck (h : Totals m snapshots log) : Totals m.recordStuck snapshots log :=
  ⟨h.success, h.timeout, h.samples, h.snapshots⟩

/-- A snapshot takes over what the aggregator had. -/
theorem Totals.snapshot (h : Totals m snapshots log) :
    Totals m.getSnapshotAndReset.2 (snapshots ++ [m.getSnapshotAndReset.1]) log := by
  obtain ⟨hsuccess, htimeout, hsamples⟩ := m.snapshot_counts
  refine ⟨?_, ?_, rfl, fun snapshot hmem => ?_⟩
  · rw [← h.success, ← hsuccess]
    simp [MetricsAggregator.getSnapshotAndReset]
  · rw [← h.timeout, ← htimeout]
    simp [MetricsAggregator.getSnapshotAndReset]
  · rcases List.mem_append.1 hmem with hmem | hmem
    · exact h.snapshots snapshot hmem
    · obtain rfl := List.mem_singleton.1 hmem
      exact hsamples.trans (h.samples.trans hsuccess.symm)

end Totals

section Owed

variable {S : Type*} {calls : Multiset (Call S)} {log : List Event}

/-- A decision comes with the calls that it owes. -/
theorem Owed.decide (h : Owed calls log) (d : Decision) (r : ℕ) :
    Owed (d.calls r + calls) (log ++ d.events r) where
  rtt r' := by
    have hnone : (d.events r).count (.recordRtt r') = 0 :=
      List.count_eq_zero.2 fun hmem => nomatch (d.not_recorded r hmem).1
    have hrtt := h.rtt r'
    simp only [List.count_append, Multiset.countP_add, d.countP_owesRtt, hnone]
    omega
  timeout r' := by
    have hnone : (d.events r).count (.recordTimeout r') = 0 :=
      List.count_eq_zero.2 fun hmem => nomatch (d.not_recorded r hmem).2
    have htimeout := h.timeout r'
    simp only [List.count_append, Multiset.countP_add, d.countP_owesTimeout, hnone]
    omega

theorem countP_cons_toNat {owes : Call S → Bool} (call : Call S) :
    (call ::ₘ calls).countP (fun call => owes call) =
      calls.countP (fun call => owes call) + (owes call).toNat := by
  rw [Multiset.countP_cons]
  cases owes call <;> rfl

/-- A call that is not one of the aggregator owes nothing. -/
theorem owed_cons_iff {call : Call S} (hrtt : ∀ r, call.owesRtt r = false)
    (htimeout : ∀ r, call.owesTimeout r = false) : Owed (call ::ₘ calls) log ↔ Owed calls log := by
  have hcalls : ∀ r, (call ::ₘ calls).countP (fun call => call.owesRtt r) =
      calls.countP fun call => call.owesRtt r := fun r => by
    rw [countP_cons_toNat, hrtt]
    rfl
  have hcalls' : ∀ r, (call ::ₘ calls).countP (fun call => call.owesTimeout r) =
      calls.countP fun call => call.owesTimeout r := fun r => by
    rw [countP_cons_toNat, htimeout]
    rfl
  exact ⟨fun h => ⟨fun r => hcalls r ▸ h.rtt r, fun r => hcalls' r ▸ h.timeout r⟩,
    fun h => ⟨fun r => (hcalls r).symm ▸ h.rtt r, fun r => (hcalls' r).symm ▸ h.timeout r⟩⟩

theorem count_event {event : ℕ → Event} (hinj : Function.Injective event) (r r' : ℕ) :
    [event r].count (event r') = (r == r').toNat := by
  by_cases hr : r = r'
  · simp [hr]
  · simp [hinj.ne hr, beq_false_of_ne hr]

theorem Owed.recordRtt {ms : ℚ} {r : ℕ} (h : Owed (.recordRtt r ms ::ₘ calls) log) :
    Owed calls (log ++ [.recordRtt r]) where
  rtt r' := by
    have hrtt := h.rtt r'
    have hcount : [Event.recordRtt r].count (.recordRtt r') = (r == r').toNat :=
      count_event (fun _ _ => Event.recordRtt.inj) r r'
    have hother : [Event.recordRtt r].count (.success r') = 0 := rfl
    rw [countP_cons_toNat, show (Call.recordRtt r ms : Call S).owesRtt r' = (r == r') from rfl]
      at hrtt
    rw [List.count_append, List.count_append, hcount, hother]
    omega
  timeout r' := by
    have htimeout := h.timeout r'
    rw [countP_cons_toNat] at htimeout
    simpa [List.count_singleton, Call.owesTimeout] using htimeout

theorem Owed.recordTimeout {r : ℕ} (h : Owed (.recordTimeout r ::ₘ calls) log) :
    Owed calls (log ++ [.recordTimeout r]) where
  rtt r' := by
    have hrtt := h.rtt r'
    rw [countP_cons_toNat] at hrtt
    simpa [List.count_singleton, Call.owesRtt] using hrtt
  timeout r' := by
    have htimeout := h.timeout r'
    have hcount : [Event.recordTimeout r].count (.recordTimeout r') = (r == r').toNat :=
      count_event (fun _ _ => Event.recordTimeout.inj) r r'
    have hother : [Event.recordTimeout r].count (.timeout r') = 0 := rfl
    rw [countP_cons_toNat, show (Call.recordTimeout r : Call S).owesTimeout r' = (r == r') from rfl]
      at htimeout
    rw [List.count_append, List.count_append, hcount, hother]
    omega

end Owed

/-! ## Steps and runs -/

section Steps

variable {S : Type*} {s s' : State S} {call : Call S}

/-- An outer call comes and goes without a change of the accounts. -/
theorem inv_cons_iff (hrtt : ∀ r, call.owesRtt r = false)
    (htimeout : ∀ r, call.owesTimeout r = false) :
    Inv { s with calls := call ::ₘ s.calls } ↔ Inv s := by
  have howed : Owed (call ::ₘ s.calls) s.log ↔ Owed s.calls s.log := owed_cons_iff hrtt htimeout
  exact ⟨fun h => ⟨⟨h.numbered.entry_lt, h.numbered.unique, h.numbered.event_lt⟩, h.balanced,
      howed.1 h.owed, h.totals⟩,
    fun h => ⟨⟨h.numbered.entry_lt, h.numbered.unique, h.numbered.event_lt⟩, h.balanced,
      howed.2 h.owed, h.totals⟩⟩

/-- An event that is recorded leaves the registrations alone. -/
theorem Numbered.append {events : List Event} (h : Numbered s)
    (hevents : ∀ event ∈ events, event.registration < s.registrations) :
    ∀ event ∈ s.log ++ events, event.registration < s.registrations := fun event hmem =>
  (List.mem_append.1 hmem).elim (h.event_lt event) (hevents event)

/-- A call of the aggregator is recorded. -/
theorem Inv.record {calls : Multiset (Call S)} (inv : Inv { s with calls := calls }) {event : Event}
    {m : MetricsAggregator} (hlt : event.registration < s.registrations)
    (hping : ∀ r, event ≠ .ping r) (hsuccess : ∀ r, event ≠ .success r)
    (htimeout : ∀ r, event ≠ .timeout r) (howed : Owed s.calls (s.log ++ [event]))
    (htotals : Totals m s.snapshots (s.log ++ [event])) :
    Inv { s with aggregator := m, log := s.log ++ [event] } := by
  refine ⟨⟨inv.numbered.entry_lt, inv.numbered.unique, ?_⟩, ?_, howed, htotals⟩
  · refine inv.numbered.append fun event hmem => ?_
    rwa [List.mem_singleton.1 hmem]
  · intro session e hsome
    have hbalanced := inv.balanced session e hsome
    simpa [List.count_singleton, hping, hsuccess, htimeout] using hbalanced

theorem Inv.recordRtt {r : ℕ} {ms : ℚ} (inv : Inv { s with calls := .recordRtt r ms ::ₘ s.calls }) :
    Inv { s with aggregator := s.aggregator.recordRtt ms, log := s.log ++ [.recordRtt r] } := by
  -- the call follows a success of its registration, which is therefore not a new one
  have hsuccess : .success r ∈ s.log := by
    refine List.count_pos_iff.1 ?_
    rw [inv.owed.rtt r, countP_cons_toNat]
    simp [Call.owesRtt]
  exact inv.record (inv.numbered.event_lt (.success r) hsuccess) (by simp) (by simp) (by simp)
    inv.owed.recordRtt (inv.totals.recordRtt ms r)

theorem Inv.recordTimeout {r : ℕ} (inv : Inv { s with calls := .recordTimeout r ::ₘ s.calls }) :
    Inv { s with
      aggregator := s.aggregator.recordTimeout
      log := s.log ++ [.recordTimeout r] } := by
  have htimeout : .timeout r ∈ s.log := by
    refine List.count_pos_iff.1 ?_
    rw [inv.owed.timeout r, countP_cons_toNat]
    simp [Call.owesTimeout]
  exact inv.record (inv.numbered.event_lt (.timeout r) htimeout) (by simp) (by simp) (by simp)
    inv.owed.recordTimeout (inv.totals.recordTimeout r)

theorem inv_initial : Inv (.initial : State S) where
  numbered := by
    refine ⟨fun _ _ h => ?_, fun _ _ _ _ h => ?_, nofun⟩ <;> cases h
  balanced := by
    intro _ _ h
    cases h
  owed := ⟨fun _ => rfl, fun _ => rfl⟩
  totals := ⟨rfl, rfl, rfl, nofun⟩

variable [DecidableEq S]

/-- Entries that agree with the old ones but at one session are numbered, if that one is. -/
theorem Numbered.update (h : Numbered s) (session : S) {e : Entry}
    (hlt : e.registration < s'.registrations) (hle : s.registrations ≤ s'.registrations)
    (hentry : s'.entry = Function.update s.entry session (some e))
    (hown : ∀ session' e', s.entry session' = some e' → e'.registration = e.registration →
      session' = session)
    (hevents : ∀ event ∈ s'.log, event.registration < s'.registrations) : Numbered s' where
  entry_lt session' e' hsome := by
    by_cases heq : session' = session
    · subst heq
      rw [hentry, Function.update_self] at hsome
      obtain rfl := Option.some.inj hsome
      exact hlt
    · rw [hentry, Function.update_of_ne heq] at hsome
      exact (h.entry_lt session' e' hsome).trans_le hle
  unique session₁ session₂ e₁ e₂ h₁ h₂ hr := by
    rw [hentry, Function.update_apply] at h₁ h₂
    split_ifs at h₁ h₂ with heq₁ heq₂ heq₂
    · exact heq₁.trans heq₂.symm
    · obtain rfl := Option.some.inj h₁
      exact heq₁.trans (hown session₂ e₂ h₂ hr.symm).symm
    · obtain rfl := Option.some.inj h₂
      exact (hown session₁ e₁ h₁ hr).trans heq₂.symm
    · exact h.unique session₁ session₂ e₁ e₂ h₁ h₂ hr
  event_lt := hevents

/-- A new registration starts without pings. -/
theorem Inv.register (inv : Inv s) (session : S) : Inv (s.register session) := by
  have hnew : ∀ event : Event, event.registration = s.registrations → s.log.count event = 0 := by
    intro event hr
    refine List.count_eq_zero.2 fun hmem => ?_
    exact (inv.numbered.event_lt event hmem).ne hr
  refine ⟨?_, ?_, inv.owed, inv.totals⟩
  · refine inv.numbered.update session (e := ⟨s.registrations, {}⟩)
      s.registrations.lt_succ_self s.registrations.le_succ rfl ?_ ?_
    · intro session' e' hsome hr
      exact absurd hr (inv.numbered.entry_lt session' e' hsome).ne
    · exact fun event hmem => (inv.numbered.event_lt event hmem).trans s.registrations.lt_succ_self
  · intro session' e hsome
    change Function.update s.entry session (some ⟨s.registrations, {}⟩) session' = some e at hsome
    by_cases heq : session' = session
    · subst heq
      rw [Function.update_self] at hsome
      obtain rfl := Option.some.inj hsome
      change s.log.count _ = s.log.count _ + s.log.count _ + 0
      rw [hnew _ rfl, hnew _ rfl, hnew _ rfl]
    · rw [Function.update_of_ne heq] at hsome
      exact inv.balanced session' e hsome

theorem Inv.unregister (inv : Inv s) (session : S) : Inv (s.unregister session) := by
  have hold : ∀ session' e, (s.unregister session).entry session' = some e →
      s.entry session' = some e := by
    intro session' e hsome
    change Function.update s.entry session none session' = some e at hsome
    by_cases heq : session' = session
    · subst heq
      rw [Function.update_self] at hsome
      cases hsome
    · rwa [Function.update_of_ne heq] at hsome
  refine ⟨⟨?_, ?_, inv.numbered.event_lt⟩, ?_, inv.owed, inv.totals⟩
  · exact fun session' e hsome => inv.numbered.entry_lt session' e (hold session' e hsome)
  · exact fun session₁ session₂ e₁ e₂ h₁ h₂ =>
      inv.numbered.unique session₁ session₂ e₁ e₂ (hold session₁ e₁ h₁) (hold session₂ e₂ h₂)
  · exact fun session' e hsome => inv.balanced session' e (hold session' e hsome)

/-- A call that keeps the balance of its decision keeps the accounts. -/
theorem Inv.apply (inv : Inv s) (session : S) {f : ScenarioState → ScenarioState × Decision}
    (hf : ∀ st, (f st).1.pingInFlight.toNat + (f st).2.timeout.toNat +
      (f st).2.rttMs.isSome.toNat = st.pingInFlight.toNat + (f st).2.ping.toNat) :
    Inv (s.apply session f) := by
  unfold State.apply
  cases hentry : s.entry session with
  | none => exact inv
  | some e =>
    refine ⟨?_, ?_, inv.owed.decide _ _, inv.totals.decide _ _⟩
    · refine inv.numbered.update session (e := { e with state := (f e.state).1 })
        (inv.numbered.entry_lt session e hentry) le_rfl rfl ?_ ?_
      · exact fun session' e' hsome hr => inv.numbered.unique session' session e' e hsome hentry hr
      · refine inv.numbered.append fun event hmem => ?_
        rw [(f e.state).2.registration_of_mem e.registration hmem]
        exact inv.numbered.entry_lt session e hentry
    · intro session' e' hsome
      dsimp only at hsome ⊢
      simp only [List.count_append, Decision.count_ping, Decision.count_success,
        Decision.count_timeout]
      by_cases heq : session' = session
      · subst heq
        rw [Function.update_self] at hsome
        obtain rfl := Option.some.inj hsome
        have hbalanced := inv.balanced session' e hentry
        have hdecided := hf e.state
        simp only [if_true]
        omega
      · rw [Function.update_of_ne heq] at hsome
        have hne : e.registration ≠ e'.registration := fun hr =>
          heq (inv.numbered.unique session' session e' e hsome hentry hr.symm)
        simp only [if_neg hne, Nat.add_zero]
        exact inv.balanced session' e' hsome

/-- One access of a call that was in progress. -/
theorem Inv.proceed {cfg : ScenarioConfig} (inv : Inv { s with calls := call ::ₘ s.calls }) :
    Inv (s.proceed cfg call) := by
  cases call with
  | advancePing session now =>
    rw [State.proceed]
    refine ((inv_cons_iff (fun _ => rfl) fun _ => rfl).1 inv).apply session fun st => ?_
    exact advancePing_balance cfg now st
  | advanceScenario session now =>
    rw [State.proceed]
    refine ((inv_cons_iff (fun _ => rfl) fun _ => rfl).1 inv).apply session fun st => ?_
    simp only [advanceScenario_pingInFlight, Bool.toNat_false, Option.isSome_none]
  | handleResTest session now =>
    rw [State.proceed]
    refine ((inv_cons_iff (fun _ => rfl) fun _ => rfl).1 inv).apply session fun st => ?_
    show (handleResTest st).pingInFlight.toNat + 0 + ((resTestRtt now st).map _).isSome.toNat = _
    rw [Option.isSome_map]
    exact handleResTest_balance now st
  | handleResLobbyEnter session now =>
    rw [State.proceed]
    exact ((inv_cons_iff (fun _ => rfl) fun _ => rfl).1 inv).apply session fun _ => rfl
  | handleNotiRoomEnter session now =>
    rw [State.proceed]
    exact ((inv_cons_iff (fun _ => rfl) fun _ => rfl).1 inv).apply session fun _ => rfl
  | recordRtt r ms => exact inv.recordRtt
  | recordTimeout r => exact inv.recordTimeout
  | recordStuck =>
    obtain ⟨numbered, balanced, owed, totals⟩ := (inv_cons_iff (fun _ => rfl) fun _ => rfl).1 inv
    exact ⟨⟨numbered.entry_lt, numbered.unique, numbered.event_lt⟩, balanced, owed,
      totals.recordStuck⟩
  | getSnapshotAndReset =>
    obtain ⟨numbered, balanced, owed, totals⟩ := (inv_cons_iff (fun _ => rfl) fun _ => rfl).1 inv
    exact ⟨⟨numbered.entry_lt, numbered.unique, numbered.event_lt⟩, balanced, owed,
      totals.snapshot⟩

theorem Inv.step {cfg : ScenarioConfig} {op : Op S} (inv : Inv s) (h : step cfg s op = some s') :
    Inv s' := by
  cases op with
  | register session =>
    cases h
    exact inv.register session
  | unregister session =>
    cases h
    exact inv.unregister session
  | call call =>
    obtain ⟨houter, ⟨⟩⟩ := Option.ite_none_right_eq_some.1 h
    exact (inv_cons_iff (fun r => (call.not_owes houter r).1) fun r => (call.not_owes houter r).2).2
      inv
  | proceed call =>
    obtain ⟨hmem, ⟨⟩⟩ := Option.ite_none_right_eq_some.1 h
    refine Inv.proceed (s := { s with calls := s.calls.erase call }) ?_
    have hcalls : call ::ₘ s.calls.erase call = s.calls := Multiset.cons_erase hmem
    rw [hcalls]
    exact inv

theorem inv_of_reachable {cfg : ScenarioConfig} (reach : (system S cfg).Reachable s) : Inv s := by
  refine reach.invariant (P := Inv) ?_ fun _ _ _ inv ht => inv.step ht
  rintro s rfl
  exact inv_initial

/-- The accounts in every state of every run: for a session that is registered, the pings since then
are those counted as success, those counted as timeout and the one in flight; what was counted is
recorded by the aggregator or about to be; the snapshots and the aggregator have what was recorded,
and every snapshot has as many samples as successes. -/
theorem ping_accounting {cfg : ScenarioConfig} (reach : (system S cfg).Reachable s) :
    (∀ session e, s.entry session = some e →
      s.log.count (.ping e.registration) =
        s.log.count (.success e.registration) + s.log.count (.timeout e.registration) +
          if e.state.pingInFlight then 1 else 0) ∧
    (∀ r, s.log.count (.success r) =
        s.log.count (.recordRtt r) + s.calls.countP fun call => call.owesRtt r) ∧
    (∀ r, s.log.count (.timeout r) =
        s.log.count (.recordTimeout r) + s.calls.countP fun call => call.owesTimeout r) ∧
    (s.snapshots.map MetricsSnapshot.successCount).sum + s.aggregator.successCount =
      s.log.countP Event.isRecordRtt ∧
    (s.snapshots.map MetricsSnapshot.timeoutCount).sum + s.aggregator.timeoutCount =
      s.log.countP Event.isRecordTimeout ∧
    ∀ snapshot ∈ s.snapshots, snapshot.sampleCount = snapshot.successCount := by
  have inv := inv_of_reachable reach
  refine ⟨fun session e hsome => ?_, inv.owed.rtt, inv.owed.timeout, inv.totals.success,
    inv.totals.timeout, inv.totals.snapshots⟩
  rw [inv.balanced session e hsome]
  cases e.state.pingInFlight <;> rfl

end Steps

/-- One ping is answered and one is given up when the next one is sent. -/
def answeredAndExpired : List (Op Unit) :=
  [.register (), .call (.advancePing () 1000000000), .proceed (.advancePing () 1000000000),
    .call (.handleResTest () 1040000000), .proceed (.handleResTest () 1040000000),
    .proceed (.recordRtt 0 40), .call (.advancePing () 2000000000),
    .proceed (.advancePing () 2000000000), .call .getSnapshotAndReset,
    .call (.advancePing () 5000000000), .proceed (.advancePing () 5000000000),
    .proceed .getSnapshotAndReset, .proceed (.recordTimeout 0)]

theorem ping_accounting_answered_and_expired :
    ∃ s : State Unit, (system Unit {}).Reachable s ∧ s.log.count (.success 0) = 1 ∧
      s.log.count (.timeout 0) = 1 ∧ s.log.count (.ping 0) = 1 + 1 + 1 := by
  obtain ⟨s, hrun, hentry, hsuccess, htimeout⟩ :
      ∃ s, (system Unit {}).run .initial answeredAndExpired = some s ∧
        s.entry () = some ⟨0,
          { pingInFlight := true, pingSentTime := 5000000000, lastPingSentTime := 5000000000 }⟩ ∧
        s.log.count (.success 0) = 1 ∧ s.log.count (.timeout 0) = 1 :=
    Transition.System.exists_final (by decide +kernel)
      ⟨by decide +kernel, by decide +kernel, by decide +kernel⟩
  have reach : (system Unit {}).Reachable s :=
    Transition.System.reachable_of_run (.init rfl) hrun
  have hpings := (ping_accounting reach).1 () _ hentry
  rw [hsuccess, htimeout, if_pos rfl] at hpings
  exact ⟨s, reach, hsuccess, htimeout, hpings⟩

end PingMetrics

end StressTest

end DhNet
