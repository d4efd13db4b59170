import Mathlib.Logic.Relation
import DhNet.Game.BroadcastLoopProof

/-!
# Runs of the loops over the members of a place

The thread of a loop gets to the end of the loop on its own, whichever sends are reset: a `Push`
inside a running job returns without executing anything (`push_returns`), so does the `Disconnect`
inside a `Send` (`disconnect_returns`), and each turn of the loop brings the iterator one entry
further (`loop_ends`).
-/

namespace DhNet

namespace BroadcastLoop

open Server (Kind PlaceId Job Client Accounts)

open Relation (ReflTransGen)

variable {P T : Type*}

/-- The state as thread `t` sees it inside a job of `q`: itself, the body of the job, and the
members of the place. -/
structure At (s : State P T) (t : T) (q : PlaceId)
    (thread : JobQueue.Thread Queue (Option (Job P))) (b : Body P) (players : SortedMap ℕ P) :
    Prop where
  thread : s.queues.thread t = thread
  body : s.body t = [b]
  players : s.players q = players

/-- A thread at a statement of a job of `q`. -/
def inJob (q : PlaceId) (task : Option (Job P)) (tasks : List (Option (Job P))) (n : ℕ)
    (rest : List (JobQueue.Frame Queue (Option (Job P)))) :
    JobQueue.Thread Queue (Option (Job P)) :=
  ⟨some (.place q), .execute (.place q) (.running task tasks n) :: rest⟩

theorem At.apply [DecidableEq T] {s : State P T} {t : T} {q : PlaceId}
    {thread : JobQueue.Thread Queue (Option (Job P))} {b : Body P} {players : SortedMap ℕ P}
    (h : At s t q thread b players) (o : Outcome P) :
    At (s.apply t q o) t q thread o.body o.players where
  thread := h.thread
  body := by simp [State.apply, h.body]
  players := by simp [State.apply]

/-- The number of accesses a call of `LeaveLobby` or `LeaveRoom` has left at most. -/
def leaveRank : Server.LeavePc → ℕ
  | .lock => 5
  | .doAsync _ => 4
  | .notify _ => 3
  | .resetPointer => 2
  | .resetIndex => 1

/-- The number of accesses a `Disconnect` has left at most. -/
def disconnectRank : Server.DisconnectPc → ℕ
  | .idle => 0
  | .hasPlayer => 13
  | .leave .lobby pc => 7 + leaveRank pc
  | .leave .room pc => 2 + leaveRank pc
  | .remove => 2
  | .reset => 1
  | .done => 0

theorem disconnectRank_lt (acc : Accounts P) {r : P} {c c' : Client} {e : Server.Effect P}
    (h : Server.onDisconnected acc r c = some (c', e)) :
    disconnectRank c'.disconnect < disconnectRank c.disconnect := by
  unfold Server.onDisconnected at h
  cases hd : c.disconnect with
  | idle => simp [hd] at h
  | done => simp [hd] at h
  | leave kind pc =>
    simp only [hd, Option.some.injEq, Prod.mk.injEq] at h
    rw [← h.1]
    cases kind <;> cases pc <;> simp only [Server.leave] <;> try split
    all_goals simp [disconnectRank, leaveRank]
  | hasPlayer =>
    simp only [hd, Option.some.injEq, Prod.mk.injEq] at h
    rw [← h.1]
    cases c.hasPlayer <;> simp [disconnectRank, leaveRank]
  | _ =>
    simp only [hd, Option.some.injEq, Prod.mk.injEq] at h
    rw [← h.1]
    simp [disconnectRank]

variable [DecidableEq P] [DecidableEq T]

/-- Thread `t` goes on; `reset` says for each state whether a `Send` made in it finds the connection
reset. -/
def Proceeds (acc : Accounts P) (t : T) (reset : State P T → Bool) (s s' : State P T) : Prop :=
  step acc s (t, .next false) = some s' ∨ step acc s (t, .onDisconnected) = some s' ∨
    step acc s (t, .body (reset s)) = some s'

variable (acc : Accounts P) {t : T} (reset : State P T → Bool) {q : PlaceId} {s : State P T}

theorem reachable_of_proceeds {s' : State P T} (h : (system acc T).Reachable s)
    (hsteps : ReflTransGen (Proceeds acc t reset) s s') : (system acc T).Reachable s' := by
  induction hsteps with
  | refl => exact h
  | tail _ hstep ih =>
    rcases hstep with hstep | hstep | hstep
    all_goals exact ih.step hstep

/-! ## `Push` inside a job -/

section Push

variable {queue : Queue} {job : Option (Job P)} {frame : JobQueue.Frame Queue (Option (Job P))}
  {rest : List (JobQueue.Frame Queue (Option (Job P)))} {current : Queue}

theorem push_proceeds {pc : JobQueue.PushPc} {current : Option Queue}
    (h : s.queues.thread t = ⟨current, .push queue job pc :: rest⟩) :
    Proceeds acc t reset s
      { s with queues := JobQueue.stepPush s.queues t queue job rest pc } := by
  refine .inl ?_
  simp [step, State.queueStep, JobQueue.step, h]

/-- A `Push` in a running job returns without an `Execute`. -/
theorem push_returns (s : State P T) {pc : JobQueue.PushPc}
    (h : s.queues.thread t = ⟨some current, .push queue job pc :: rest⟩) :
    ∃ queues, ReflTransGen (Proceeds acc t reset) s { s with queues := queues } ∧
      queues.thread t = ⟨some current, rest⟩ := by
  have hhandOver : ∀ (s : State P T) prevCount,
      s.queues.thread t = ⟨some current, .push queue job (.handOver prevCount) :: rest⟩ →
      ∃ queues, ReflTransGen (Proceeds acc t reset) s { s with queues := queues } ∧
        queues.thread t = ⟨some current, rest⟩ := by
    intro s prevCount h
    refine ⟨_, .single (push_proceeds acc reset h), ?_⟩
    simp only [JobQueue.stepPush, h]
    split_ifs <;> simp [JobQueue.State.setStack, JobQueue.State.pushGlobal, h]
  have henqueue : ∀ (s : State P T) prevCount,
      s.queues.thread t = ⟨some current, .push queue job (.enqueue prevCount) :: rest⟩ →
      ∃ queues, ReflTransGen (Proceeds acc t reset) s { s with queues := queues } ∧
        queues.thread t = ⟨some current, rest⟩ := by
    intro s prevCount h
    obtain ⟨queues, hsteps, hthread⟩ := hhandOver
      { s with queues := JobQueue.stepPush s.queues t queue job rest (.enqueue prevCount) }
      prevCount (by simp [JobQueue.stepPush, JobQueue.State.setStack, h])
    exact ⟨queues, .head (push_proceeds acc reset h) hsteps, hthread⟩
  cases pc with
  | fetchAdd =>
    obtain ⟨queues, hsteps, hthread⟩ := henqueue
      { s with queues := JobQueue.stepPush s.queues t queue job rest .fetchAdd }
      (s.queues.jobCount queue) (by simp [JobQueue.stepPush, JobQueue.State.setStack, h])
    exact ⟨queues, .head (push_proceeds acc reset h) hsteps, hthread⟩
  | enqueue prevCount => exact henqueue s prevCount h
  | handOver prevCount => exact hhandOver s prevCount h
  | executing =>
    exact ⟨_, .single (push_proceeds acc reset h),
      by simp [JobQueue.stepPush, JobQueue.State.setStack, h]⟩

end Push

section Job

variable {task : Option (Job P)} {tasks : List (Option (Job P))} {n : ℕ}
  {rest : List (JobQueue.Frame Queue (Option (Job P)))} {b : Body P} {players : SortedMap ℕ P}

/-- A statement, and the `DoAsync` that it makes, are followed by the next point of the body. -/
theorem statement_returns (h : At s t q (inJob q task tasks n rest) b players) (o : Outcome P) :
    ∃ s₁ s₂, s.statement t q o = some s₁ ∧ ReflTransGen (Proceeds acc t reset) s₁ s₂ ∧
      At s₂ t q (inJob q task tasks n rest) o.body o.players ∧ s₂.client = o.client := by
  have happly := h.apply o
  unfold State.statement
  split
  · exact ⟨_, _, rfl, .refl, happly, rfl⟩
  · next target job _ =>
    have hstep : (s.apply t q o).doAsync t target job = some { s.apply t q o with
        queues := (s.apply t q o).queues.setStack t
          (.push (.place target) (some job) .fetchAdd :: (inJob q task tasks n rest).stack) } := by
      simp [State.doAsync, State.queueStep, JobQueue.step, happly.thread, inJob,
        JobQueue.mayCallDoAsync]
    have hpush : ((s.apply t q o).queues.setStack t (.push (.place target) (some job) .fetchAdd ::
        (inJob q task tasks n rest).stack)).thread t = ⟨some (.place q),
          .push (.place target) (some job) .fetchAdd :: (inJob q task tasks n rest).stack⟩ := by
      simp [JobQueue.State.setStack, happly.thread, inJob]
    obtain ⟨queues, hsteps, hthread⟩ := push_returns acc reset { s.apply t q o with
      queues := (s.apply t q o).queues.setStack t (.push (.place target) (some job) .fetchAdd ::
        (inJob q task tasks n rest).stack) } hpush
    exact ⟨_, _, hstep, hsteps, ⟨hthread, happly.body, happly.players⟩, rfl⟩

/-! ## `Disconnect` inside a `Send` -/

/-- The `Disconnect` inside a `Send` returns to the body. -/
theorem disconnect_returns {pc : BodyPc P} {r : P}
    (h : At s t q (inJob q task tasks n rest) ⟨pc, some r⟩ players) :
    ∃ s', ReflTransGen (Proceeds acc t reset) s s' ∧
      At s' t q (inJob q task tasks n rest) ⟨pc, none⟩ players := by
  induction hrank : disconnectRank (s.client r).disconnect using Nat.strong_induction_on
    generalizing s with
  | _ rank ih =>
    have hstep : step acc s (t, .onDisconnected) =
        s.statement t q (disconnectStep acc players s.client pc r) := by
      simp [step, h.thread, inJob, h.body, h.players]
    obtain ⟨s₁, s₂, hs₁, hsteps, hat, hclient⟩ := statement_returns acc reset h
      (disconnectStep acc players s.client pc r)
    have hfirst : Proceeds acc t reset s s₁ := .inr (.inl (hstep.trans hs₁))
    unfold disconnectStep at hat hclient
    cases hnext : Server.onDisconnected acc r (s.client r) with
    | none =>
      rw [hnext] at hat
      exact ⟨s₂, .head hfirst hsteps, hat⟩
    | some ce =>
      obtain ⟨c, e⟩ := ce
      rw [hnext] at hat hclient
      have hlt : disconnectRank (s₂.client r).disconnect < rank := by
        rw [hclient, ← hrank]
        simpa using disconnectRank_lt acc hnext
      obtain ⟨s', hsteps', hat'⟩ := ih _ hlt hat rfl
      exact ⟨s', (ReflTransGen.head hfirst hsteps).trans hsteps', hat'⟩

/-! ## The loop -/

/-- A statement of the body brings the thread to the next point of the body, with no session being
disconnected. -/
theorem body_proceeds {pc pc' : BodyPc P} {o : Outcome P}
    (h : At s t q (inJob q task tasks n rest) ⟨pc, none⟩ players)
    (hstep : bodyStep acc q players s.client task (reset s) pc = some o) (hpc : o.body.pc = pc') :
    ∃ s', ReflTransGen (Proceeds acc t reset) s s' ∧
      At s' t q (inJob q task tasks n rest) ⟨pc', none⟩ o.players := by
  obtain ⟨s₁, s₂, hs₁, hsteps, hat, -⟩ := statement_returns acc reset h o
  have hfirst : Proceeds acc t reset s s₁ := by
    refine .inr (.inr (Eq.trans ?_ hs₁))
    simp [step, h.thread, inJob, h.body, h.players, hstep]
  rcases hbody : o.body with ⟨pc'', _ | r⟩
  · rw [hbody] at hat hpc
    obtain rfl : pc'' = pc' := hpc
    exact ⟨s₂, .head hfirst hsteps, hat⟩
  · rw [hbody] at hat hpc
    obtain rfl : pc'' = pc' := hpc
    obtain ⟨s', hsteps', hat'⟩ := disconnect_returns acc reset hat
    exact ⟨s', (ReflTransGen.head hfirst hsteps).trans hsteps', hat'⟩

theorem send_spec (players : SortedMap ℕ P) (client : P → Client) (r : P) (sendReset : Bool)
    (pc : BodyPc P) :
    (send players client r sendReset pc).players = players ∧
      (send players client r sendReset pc).body.pc = pc := by
  unfold send
  split_ifs <;> exact ⟨rfl, rfl⟩

/-- One turn of a loop leads to the next one. -/
theorem visit_spec (client : P → Client) (sendReset : Bool) (loop : Loop) {key : ℕ} {r : P}
    (visited : List (P × Bool)) (h : players.find? key = some r) :
    ∃ o visited', visit players client sendReset loop key visited = some o ∧
      o.players = players ∧ o.body.pc = .advance loop key visited' := by
  rw [visit, h, Option.map_some]
  split_ifs
  · have hsend := send_spec players client r sendReset
      (.advance loop key (visited ++ [(r, true)]))
    exact ⟨_, _, rfl, hsend.1, hsend.2⟩
  · exact ⟨_, _, rfl, rfl, rfl⟩
  · exact ⟨_, _, rfl, rfl, rfl⟩

theorem loop_ends {loop : Loop} (after before : List (ℕ × P)) (visited : List (P × Bool))
    (hentries : players.entries = before ++ after)
    (h : At s t q (inJob q task tasks n rest)
      ⟨.element loop (after.head?.map Prod.fst) visited, none⟩ players) :
    ∃ s' visited', ReflTransGen (Proceeds acc t reset) s s' ∧
      At s' t q (inJob q task tasks n rest) ⟨.element loop none visited', none⟩ players := by
  induction after generalizing s before visited with
  | nil => exact ⟨s, visited, .refl, h⟩
  | cons e after ih =>
    obtain ⟨key, r⟩ := e
    have hfind : players.find? key = some r :=
      players.find?_eq_some_iff.2 (by rw [hentries]; simp)
    obtain ⟨o, visited', hvisit, hplayers, hpc⟩ :=
      visit_spec s.client (reset s) loop visited hfind
    obtain ⟨s₁, hsteps₁, hat₁⟩ := body_proceeds acc reset h hvisit hpc
    rw [hplayers] at hat₁
    obtain ⟨s₂, hsteps₂, hat₂⟩ := body_proceeds acc reset hat₁ rfl rfl
    rw [SortedMap.keyAfter_of_split hentries] at hat₂
    obtain ⟨s', visited'', hsteps, hat⟩ :=
      ih (before ++ [(key, r)]) visited' (by rw [hentries, List.append_cons]) hat₂
    exact ⟨s', visited'', (hsteps₁.trans hsteps₂).trans hsteps, hat⟩

end Job

section Reachable

variable {acc} [Fintype T] {b : Body P} {loop : Loop} {visited : List (P × Bool)}

/-- From every point of a loop its thread gets to the end of the loop. -/
theorem Inv.loop_ends (inv : Inv acc s) (hq : q ∈ s.running t) (hb : b ∈ s.body t)
    (hloop : b.pc.loop? = some (loop, visited)) :
    ∃ s' visited', ReflTransGen (Proceeds acc t reset) s s' ∧ s'.players q = s.players q ∧
      q ∈ s'.running t ∧ s'.body t = [⟨.element loop none visited', none⟩] := by
  obtain ⟨b', hbody⟩ := inv.body_eq hq
  obtain rfl : b = b' := List.mem_singleton.1 (hbody ▸ hb)
  have hfits := inv.fits t q hq b hb
  obtain ⟨hcurrent, task, tasks, n, base, -, hstack⟩ := stack_of_running (inv.queues.shape t) hq
  obtain ⟨s₁, hsteps₁, hat₁⟩ : ∃ s₁, ReflTransGen (Proceeds acc t reset) s s₁ ∧
      At s₁ t q (inJob q task tasks n [base]) b (s.players q) := by
    have hthread : s.queues.thread t = ⟨some (.place q), (s.queues.thread t).stack⟩ := by
      rw [← hcurrent]
    rcases hstack with hstack | ⟨queue, job, pc, hstack⟩
    · rw [hstack] at hthread
      exact ⟨s, .refl, hthread, hbody, rfl⟩
    · rw [hstack] at hthread
      obtain ⟨queues, hsteps, hafter⟩ := push_returns acc reset s hthread
      exact ⟨_, hsteps, hafter, hbody, rfl⟩
  obtain ⟨s₂, hsteps₂, hat₂⟩ : ∃ s₂, ReflTransGen (Proceeds acc t reset) s₁ s₂ ∧
      At s₂ t q (inJob q task tasks n [base]) ⟨b.pc, none⟩ (s.players q) := by
    rcases b with ⟨pc, _ | r⟩
    · exact ⟨s₁, .refl, hat₁⟩
    · exact disconnect_returns acc reset hat₁
  obtain ⟨s', visited', hsteps, hat⟩ : ∃ s' visited',
      ReflTransGen (Proceeds acc t reset) s₂ s' ∧
      At s' t q (inJob q task tasks n [base]) ⟨.element loop none visited', none⟩
        (s.players q) := by
    cases hpc : b.pc with
    | element loop' it visited' =>
      rw [hpc] at hloop hfits hat₂
      obtain ⟨rfl, rfl⟩ : loop' = loop ∧ visited' = visited := by simpa [BodyPc.loop?] using hloop
      obtain ⟨before, after, hentries, rfl, -⟩ := hfits
      exact BroadcastLoop.loop_ends acc reset after before visited' hentries hat₂
    | advance loop' key visited' =>
      rw [hpc] at hloop hfits hat₂
      obtain ⟨rfl, rfl⟩ : loop' = loop ∧ visited' = visited := by simpa [BodyPc.loop?] using hloop
      obtain ⟨before, r, after, hentries, -⟩ := hfits
      obtain ⟨s₃, hsteps₃, hat₃⟩ := body_proceeds acc reset hat₂ rfl rfl
      rw [SortedMap.keyAfter_of_split hentries] at hat₃
      obtain ⟨s', visited'', hsteps, hat⟩ := BroadcastLoop.loop_ends acc reset after
        (before ++ [(key, r)]) visited' (hentries.trans (List.append_cons _ _ _)) hat₃
      exact ⟨s', visited'', hsteps₃.trans hsteps, hat⟩
    | _ => simp [hpc, BodyPc.loop?] at hloop
  refine ⟨s', visited', (hsteps₁.trans hsteps₂).trans hsteps, hat.players, ?_, hat.body⟩
  simp [State.running, hat.thread, inJob]

/-- In every reachable state in which thread `t` runs a job of a place: no step of any thread starts
another job of the place, and `t` starts no job.  If the job is in a loop, no step changes
`m_players`; the members to be sent to are different and those visited are the first of them, and
all of them at the end of the loop; those visited without a `Send` have no session any more; and the
thread gets to the end of the loop, whichever sends are reset. -/
theorem broadcast_loop_safety (h : (system acc T).Reachable s) (hq : q ∈ s.running t)
    (hb : b ∈ s.body t) :
    (∀ a s', step acc s a = some s' →
      s'.queues.ran (.place q) = s.queues.ran (.place q) ∧
        (a.1 = t → s'.queues.ran = s.queues.ran)) ∧
    ∀ loop visited, b.pc.loop? = some (loop, visited) →
      (∀ a s', step acc s a = some s' → s'.players q = s.players q) ∧
      (audience loop (s.players q).entries).Nodup ∧
      visited.map Prod.fst <+: audience loop (s.players q).entries ∧
      (b.pc = .element loop none visited →
        visited.map Prod.fst = audience loop (s.players q).entries) ∧
      (∀ r, (r, false) ∈ visited → (s.client r).alive = false) ∧
      ∀ reset : State P T → Bool, ∃ s' visited', ReflTransGen (Proceeds acc t reset) s s' ∧
        s'.body t = [⟨.element loop none visited', none⟩] ∧
        visited'.map Prod.fst = audience loop (s.players q).entries := by
  have inv := inv_of_reachable h
  refine ⟨fun a s' hstep => inv.ran_of_move hq (moves_of_step hstep), fun loop visited hloop => ?_⟩
  obtain ⟨hfirst, hend, hdead⟩ := (inv.fits t q hq b hb).visited_members hloop
  refine ⟨fun a s' hstep => ?_, audience_nodup acc (inv.keyed q) loop, hfirst, hend, hdead,
    fun reset => ?_⟩
  · exact inv.players_of_move hq hb (by rw [hloop]; rfl) (moves_of_step hstep)
  · obtain ⟨s', visited', hsteps, hplayers, hq', hbody⟩ := inv.loop_ends reset hq hb hloop
    have inv' := inv_of_reachable (reachable_of_proceeds acc reset h hsteps)
    have hfits := inv'.fits t q hq' ⟨.element loop none visited', none⟩ (by simp [hbody])
    exact ⟨s', visited', hsteps, hbody, hplayers ▸ (hfits.visited_members rfl).2.1 rfl⟩

end Reachable

/-! ## Two runs -/

/-- Two connected players that are members of the first lobby and of the first room. -/
def State.twoMembers : State (Fin 2) (Fin 2) where
  queues := .initial
  client _ := { Client.initial with hasPlayer := true, current := fun _ => some 0 }
  players q := if q.index = 0 then (SortedMap.empty.insert 0 0).insert 1 1 else .empty
  body _ := []

/-- The players with their own ids. -/
def twoAccounts : Accounts (Fin 2) := ⟨Fin.val, fun _ => [65]⟩

theorem initial_twoMembers : Initial twoAccounts State.twoMembers := by
  refine ⟨rfl, fun q id p hp => ?_, fun _ => rfl⟩
  simp only [State.twoMembers] at hp
  split_ifs at hp
  · rw [SortedMap.find?_insert, SortedMap.find?_insert] at hp
    split_ifs at hp with hone hzero
    · rw [hone, ← Option.some.inj hp]
      rfl
    · rw [hzero, ← Option.some.inj hp]
      rfl
    · cases hp
  · cases hp

/-- Thread 0 is in the loop of a chat message in the lobby and finds the connection of player 0
reset. -/
def resetInLobby : List (Fin 2 × Op (Fin 2)) :=
  (0, Op.doAsync ⟨.lobby, 0⟩ (.chat 1 [])) :: List.replicate 6 (0, Op.next false) ++
    [(0, Op.body false), (0, Op.body true)]

/-- After the reset both players are sent to once, and the lobby keeps its members meanwhile. -/
theorem broadcast_loop_safety_reset : ∃ s : State (Fin 2) (Fin 2),
    s.body 0 = [⟨.advance .broadcast 0 [(0, true)], some 0⟩] ∧
    (∀ a s', step twoAccounts s a = some s' → s'.players ⟨.lobby, 0⟩ = s.players ⟨.lobby, 0⟩) ∧
    ∀ reset : State (Fin 2) (Fin 2) → Bool, ∃ s' visited,
      ReflTransGen (Proceeds twoAccounts 0 reset) s s' ∧
      s'.body 0 = [⟨.element .broadcast none visited, none⟩] ∧ visited.map Prod.fst = [0, 1] := by
  obtain ⟨s, hrun, hq, hb, hplayers⟩ : ∃ s, (system twoAccounts (Fin 2)).run .twoMembers
      resetInLobby = some s ∧ s.running 0 = [⟨.lobby, 0⟩] ∧
      s.body 0 = [⟨.advance .broadcast 0 [(0, true)], some 0⟩] ∧
      audience .broadcast (s.players ⟨.lobby, 0⟩).entries = [0, 1] :=
    ⟨_, rfl, rfl, rfl, rfl⟩
  have hreach := Transition.System.reachable_of_run (.init initial_twoMembers) hrun
  obtain ⟨-, hloop⟩ := broadcast_loop_safety hreach (q := ⟨.lobby, 0⟩) (t := 0)
    (b := ⟨.advance .broadcast 0 [(0, true)], some 0⟩) (by simp [hq]) (by simp [hb])
  obtain ⟨hsame, -, -, -, -, hends⟩ := hloop .broadcast [(0, true)] rfl
  exact ⟨s, hb, hsame, hplayers ▸ hends⟩

/-- The `Disconnect` of player 0 has queued its `Exit` of the lobby and its `Leave` of the room, and
thread 1 runs the latter. -/
def leaveOnOtherThread : List (Fin 2 × Op (Fin 2)) :=
  resetInLobby ++ List.replicate 3 (0, Op.onDisconnected) ++ List.replicate 3 (0, Op.next false) ++
    List.replicate 4 (0, Op.onDisconnected) ++ List.replicate 3 (0, Op.next false) ++
    (1, Op.doGlobalQueueWork) :: List.replicate 4 (1, Op.next false)

/-- The `Leave` that a reset in the loop of the lobby queues on a room runs on another thread before
the job of the lobby has returned. -/
theorem leave_runs_during_loop : ∃ s : State (Fin 2) (Fin 2),
    (system twoAccounts (Fin 2)).Reachable s ∧ s.running 0 = [⟨.lobby, 0⟩] ∧
    s.body 0 = [⟨.advance .broadcast 0 [(0, true)], some 0⟩] ∧ s.running 1 = [⟨.room, 0⟩] ∧
    s.queues.ran (.place ⟨.room, 0⟩) = [some (.exit 0)] := by
  obtain ⟨s, hrun, hfacts⟩ : ∃ s, (system twoAccounts (Fin 2)).run .twoMembers
      leaveOnOtherThread = some s ∧ s.running 0 = [⟨.lobby, 0⟩] ∧
      s.body 0 = [⟨.advance .broadcast 0 [(0, true)], some 0⟩] ∧ s.running 1 = [⟨.room, 0⟩] ∧
      s.queues.ran (.place ⟨.room, 0⟩) = [some (.exit 0)] :=
    ⟨_, rfl, rfl, rfl, rfl, rfl⟩
  exact ⟨s, Transition.System.reachable_of_run (.init initial_twoMembers) hrun, hfacts⟩

end BroadcastLoop

end DhNet
