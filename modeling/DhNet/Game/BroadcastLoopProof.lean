import DhNet.Util.JobQueueProof
import DhNet.Game.BroadcastLoop

/-!
# Safety of the loops over the members of a place

* `BodyPc.Fits`: an iterator splits `m_players` into what is before it and what it stands on, and
  the members visited are the audience before it.
* `Inv`: the queues keep their invariant, every running job of a place has its body, members are
  under their ids, and every body fits the members of its place.
* `end_of_loop`: the thread of a loop gets to its end, whichever sends are reset.
-/

namespace DhNet

namespace BroadcastLoop

open Server (Kind PlaceId Job Client Accounts)

variable {P : Type*}

/-! ## Loops -/

/-- The members to which a loop over these entries sends. -/
def audience (loop : Loop) (entries : List (ℕ × P)) : List P :=
  (entries.filter fun e => loop.addresses e.1).map Prod.snd

/-- These are the members visited by a loop over these entries, and those without a `Send` had no
session. -/
structure Visited (client : P → Client) (loop : Loop) (entries : List (ℕ × P))
    (visited : List (P × Bool)) : Prop where
  members : visited.map Prod.fst = audience loop entries
  dead : ∀ r, (r, false) ∈ visited → (client r).alive = false

/-- The iterator of a loop stands on an entry of `m_players`, with the members before it visited. -/
def BodyPc.Fits (players : SortedMap ℕ P) (client : P → Client) : BodyPc P → Prop
  | .element loop it visited => ∃ before after, players.entries = before ++ after ∧
      it = after.head?.map Prod.fst ∧ Visited client loop before visited
  | .advance loop key visited => ∃ before r after, players.entries = before ++ (key, r) :: after ∧
      Visited client loop (before ++ [(key, r)]) visited
  | _ => True

/-- The loop that the body is in, with the members visited. -/
def BodyPc.loop? : BodyPc P → Option (Loop × List (P × Bool))
  | .element loop _ visited => some (loop, visited)
  | .advance loop _ visited => some (loop, visited)
  | _ => none

theorem audience_append (loop : Loop) (before after : List (ℕ × P)) :
    audience loop (before ++ after) = audience loop before ++ audience loop after := by
  simp [audience]

theorem Visited.nil (client : P → Client) (loop : Loop) : Visited client loop [] [] :=
  ⟨rfl, by simp⟩

section Loops

variable {client client' : P → Client} {loop : Loop} {before : List (ℕ × P)} {key : ℕ} {r : P}
  {visited : List (P × Bool)}

theorem Visited.mono (h : Visited client loop before visited)
    (halive : ∀ p, (client p).alive = false → (client' p).alive = false) :
    Visited client' loop before visited :=
  ⟨h.members, fun r hr => halive r (h.dead r hr)⟩

theorem Visited.skip (h : Visited client loop before visited) (hkey : loop.addresses key = false) :
    Visited client loop (before ++ [(key, r)]) visited := by
  refine ⟨?_, h.dead⟩
  rw [h.members, audience_append]
  simp [audience, hkey]

theorem Visited.concat (h : Visited client loop before visited) (hkey : loop.addresses key = true)
    (sent : Bool) (hdead : sent = false → (client r).alive = false) :
    Visited client loop (before ++ [(key, r)]) (visited ++ [(r, sent)]) := by
  refine ⟨?_, fun r' hr => ?_⟩
  · rw [List.map_append, h.members, audience_append]
    simp [audience, hkey]
  · rw [List.mem_append, List.mem_singleton, Prod.mk.injEq] at hr
    rcases hr with hr | ⟨rfl, hsent⟩
    · exact h.dead r' hr
    · exact hdead hsent.symm

theorem BodyPc.Fits.mono {players : SortedMap ℕ P} {pc : BodyPc P} (h : pc.Fits players client)
    (halive : ∀ p, (client p).alive = false → (client' p).alive = false) :
    pc.Fits players client' := by
  cases pc with
  | element loop it visited =>
    obtain ⟨before, after, hentries, hit, hvisited⟩ := h
    exact ⟨before, after, hentries, hit, hvisited.mono halive⟩
  | advance loop key visited =>
    obtain ⟨before, r, after, hentries, hvisited⟩ := h
    exact ⟨before, r, after, hentries, hvisited.mono halive⟩
  | _ => trivial

theorem BodyPc.Fits.visited_members {players : SortedMap ℕ P} {pc : BodyPc P}
    (h : pc.Fits players client) (hloop : pc.loop? = some (loop, visited)) :
    visited.map Prod.fst <+: audience loop players.entries ∧
      (pc = .element loop none visited → visited.map Prod.fst = audience loop players.entries) ∧
      ∀ r, (r, false) ∈ visited → (client r).alive = false := by
  cases pc with
  | element loop it visited =>
    obtain ⟨rfl, rfl⟩ : _ ∧ _ := by simpa [loop?] using hloop
    obtain ⟨before, after, hentries, rfl, hvisited⟩ := h
    rw [hentries, audience_append, hvisited.members]
    refine ⟨List.prefix_append _ _, fun hend => ?_, hvisited.dead⟩
    obtain rfl : after = [] := by simpa using hend
    rw [audience, audience]
    simp
  | advance loop key visited =>
    obtain ⟨rfl, rfl⟩ : _ ∧ _ := by simpa [loop?] using hloop
    obtain ⟨before, r, after, hentries, hvisited⟩ := h
    rw [hentries, List.append_cons, audience_append, hvisited.members]
    exact ⟨List.prefix_append _ _, nofun, hvisited.dead⟩
  | _ => cases hloop

/-- Members under their ids are addressed at most once. -/
theorem audience_nodup (acc : Accounts P) {players : SortedMap ℕ P}
    (keyed : ∀ id p, players.find? id = some p → acc.playerId p = id) (loop : Loop) :
    (audience loop players.entries).Nodup := by
  have hmap : players.entries.map Prod.fst =
      (players.entries.map Prod.snd).map acc.playerId := by
    rw [List.map_map]
    refine List.map_congr_left fun e he => ?_
    exact (keyed e.1 e.2 (players.find?_eq_some_iff.2 he)).symm
  have hnodup : (players.entries.map Prod.snd).Nodup :=
    List.Nodup.of_map acc.playerId (hmap ▸ players.nodup_keys)
  exact hnodup.sublist (List.filter_sublist.map Prod.snd)

end Loops

/-! ## Statements of a body -/

section Outcomes

variable (acc : Accounts P)

/-- What a statement does: a loop leaves `m_players` alone, the body still fits, members stay under
their ids, and no session object comes into being or is destroyed. -/
structure Keeps (players : SortedMap ℕ P) (client : P → Client) (pc : BodyPc P) (o : Outcome P) :
    Prop where
  same : pc.loop?.isSome → o.players = players
  fits : pc.Fits players client → o.body.pc.Fits o.players o.client
  keyed : (∀ id p, players.find? id = some p → acc.playerId p = id) →
    ∀ id p, o.players.find? id = some p → acc.playerId p = id
  alive : ∀ p, (o.client p).alive = (client p).alive

variable {acc} {q : PlaceId} {players : SortedMap ℕ P} {client : P → Client} {pc pc' : BodyPc P}

theorem Keeps.goOn (hfits : pc.Fits players client → pc'.Fits players client) :
    Keeps acc players client pc (goOn players client pc') :=
  ⟨fun _ => rfl, hfits, id, fun _ => rfl⟩

theorem fits_iterate (players : SortedMap ℕ P) (client : P → Client) (loop : Loop) :
    (iterate players client loop).body.pc.Fits players client :=
  ⟨[], players.entries, rfl, rfl, .nil client loop⟩

theorem Keeps.iterate (loop : Loop) :
    Keeps acc players client pc (iterate players client loop) :=
  .goOn fun _ => fits_iterate players client loop

/-- A statement outside of the loops that enters or leaves no loop with members visited. -/
theorem Keeps.outside (hpc : pc.loop? = none) {o : Outcome P}
    (hfits : o.body.pc.Fits o.players o.client)
    (keyed : (∀ id p, players.find? id = some p → acc.playerId p = id) →
      ∀ id p, o.players.find? id = some p → acc.playerId p = id)
    (halive : ∀ p, (o.client p).alive = (client p).alive) : Keeps acc players client pc o :=
  ⟨fun h => by simp [hpc] at h, fun _ => hfits, keyed, halive⟩

theorem keyed_erase (k : ℕ) (h : ∀ id p, players.find? id = some p → acc.playerId p = id) (id : ℕ)
    (p : P) (hp : (players.erase k).find? id = some p) : acc.playerId p = id := by
  rw [SortedMap.find?_erase] at hp
  split_ifs at hp
  exact h id p hp

theorem keyed_enterBody (kind : Kind) (client : P → Client) (p : P)
    (h : ∀ id p, players.find? id = some p → acc.playerId p = id) (id : ℕ) (r : P)
    (hr : (Server.enterBody kind (registry acc client) players p).1.find? id = some r) :
    acc.playerId r = id := by
  unfold Server.enterBody at hr
  split_ifs at hr
  · exact h id r hr
  · split at hr
    · exact h id r hr
    · rw [SortedMap.find?_insert] at hr
      split_ifs at hr with hid
      · obtain rfl := Option.some.inj hr
        exact hid.symm
      · exact h id r hr

theorem keeps_done (loop : Loop) : Keeps acc players client pc (loop.done players client) := by
  cases loop with
  | notiLobbyPlayerEnter playerId => exact .iterate .resLobbyEnter
  | resLobbyEnter => exact .goOn fun _ => trivial
  | broadcast => exact .goOn fun _ => trivial

theorem fits_advance {loop : Loop} {key : ℕ} {visited : List (P × Bool)}
    (h : (BodyPc.advance loop key visited).Fits players client) :
    (BodyPc.element loop (players.keyAfter key) visited).Fits players client := by
  obtain ⟨before, r, after, hentries, hvisited⟩ := h
  refine ⟨before ++ [(key, r)], after, ?_, players.keyAfter_of_split hentries, hvisited⟩
  rw [hentries, List.append_cons]

theorem alive_onDisconnected {r : P} {c c' : Client} {e : Server.Effect P}
    (h : Server.onDisconnected acc r c = some (c', e)) : c'.alive = c.alive := by
  unfold Server.onDisconnected at h
  cases hd : c.disconnect with
  | idle => simp [hd] at h
  | done => simp [hd] at h
  | leave kind pc =>
    simp only [hd, Option.some.injEq, Prod.mk.injEq] at h
    rw [← h.1]
    cases pc <;> rfl
  | _ =>
    simp only [hd, Option.some.injEq, Prod.mk.injEq] at h
    rw [← h.1]

theorem keeps_startJob (job : Job P) :
    Keeps acc players client .start (startJob acc q players client job) := by
  cases job with
  | enter p =>
    refine .outside rfl ?_ (keyed_enterBody q.kind client p) fun _ => rfl
    simp only [startJob, BroadcastLoop.goOn]
    split_ifs <;> trivial
  | exit p =>
    simp only [startJob]
    split
    · exact .goOn fun _ => trivial
    · split
      · exact .outside rfl (fits_iterate _ client .broadcast) (keyed_erase _) fun _ => rfl
      · exact .outside rfl trivial (keyed_erase _) fun _ => rfl
  | chat p message => exact .iterate .broadcast
  | broadcast packet => exact .iterate .broadcast

theorem keeps_enterSession (p : P) :
    Keeps acc players client .session (enterSession acc q players client p) := by
  unfold enterSession
  split_ifs
  · split
    · exact .iterate _
    · exact .outside rfl trivial id fun _ => rfl
  · exact .outside rfl trivial (keyed_erase _) fun _ => rfl

end Outcomes

section Bodies

variable [DecidableEq P] (acc : Accounts P)

/-- A statement of a body or of the `Disconnect` inside it. -/
def Statement (q : PlaceId) (players : SortedMap ℕ P) (client : P → Client) (b : Body P)
    (o : Outcome P) : Prop :=
  (b.disconnect = none ∧ ∃ task reset, bodyStep acc q players client task reset b.pc = some o) ∨
    ∃ r, b.disconnect = some r ∧ o = disconnectStep acc players client b.pc r

variable {acc} {q : PlaceId} {players players' : SortedMap ℕ P} {client : P → Client}
  {pc pc' : BodyPc P}

theorem alive_update {p r : P} {c : Client} (h : c.alive = (client p).alive) :
    (Function.update client p c r).alive = (client r).alive := by
  by_cases e : r = p
  · rw [e, Function.update_self, h]
  · rw [Function.update_of_ne e]

theorem Keeps.send {r : P} {reset : Bool}
    (hfits : pc.Fits players client → pc'.Fits players client) :
    Keeps acc players client pc (send players client r reset pc') := by
  unfold BroadcastLoop.send
  split_ifs
  · have halive : ∀ p, (Function.update client r { client r with
        connected := false, disconnect := .hasPlayer } p).alive = (client p).alive :=
      fun p => alive_update rfl
    exact ⟨fun _ => rfl, fun h => (hfits h).mono fun p hp => (halive p).trans hp, id, halive⟩
  · exact .goOn hfits

theorem keeps_visit {reset : Bool} {loop : Loop} {key : ℕ} {visited : List (P × Bool)}
    {o : Outcome P} (h : visit players client reset loop key visited = some o) :
    Keeps acc players client (.element loop (some key) visited) o := by
  obtain ⟨r, hr, rfl⟩ := Option.map_eq_some_iff.1 h
  have hfits : ∀ visited', (∀ before, Visited client loop before visited →
      Visited client loop (before ++ [(key, r)]) visited') →
      (BodyPc.element loop (some key) visited).Fits players client →
      (BodyPc.advance loop key visited').Fits players client := by
    rintro visited' hvisited ⟨before, after, hentries, hit, hbefore⟩
    obtain ⟨⟨k, r'⟩, hhead, rfl⟩ := Option.map_eq_some_iff.1 hit.symm
    obtain ⟨after, rfl⟩ := List.head?_eq_some_iff.1 hhead
    have hfind : players.find? k = some r' :=
      players.find?_eq_some_iff.2 (by rw [hentries]; simp)
    obtain rfl : r' = r := Option.some.inj (hfind.symm.trans hr)
    exact ⟨before, r', after, hentries, hvisited before hbefore⟩
  split_ifs with hkey halive
  · exact .send (hfits _ fun before hbefore => hbefore.concat hkey true nofun)
  · exact .goOn (hfits _ fun before hbefore =>
      hbefore.concat hkey false fun _ => Bool.eq_false_of_not_eq_true halive)
  · exact .goOn (hfits _ fun before hbefore => hbefore.skip (Bool.eq_false_of_not_eq_true hkey))

theorem keeps_bodyStep {task : Option (Job P)} {reset : Bool} {o : Outcome P}
    (h : bodyStep acc q players client task reset pc = some o) : Keeps acc players client pc o := by
  cases pc with
  | start =>
    obtain ⟨job, rfl, rfl⟩ := Option.map_eq_some_iff.1 h
    exact keeps_startJob job
  | pointer =>
    simp only [bodyStep] at h
    split at h <;> cases h
    exact .outside rfl trivial id fun p => alive_update rfl
  | index =>
    simp only [bodyStep] at h
    split at h <;> cases h
    exact .outside rfl trivial id fun p => alive_update rfl
  | session =>
    simp only [bodyStep] at h
    split at h <;> cases h
    exact keeps_enterSession _
  | element loop it visited =>
    cases it with
    | none =>
      cases h
      exact keeps_done loop
    | some key => exact keeps_visit h
  | advance loop key visited =>
    cases h
    exact .goOn fits_advance
  | welcome =>
    simp only [bodyStep] at h
    split at h <;> cases h
    exact .send fun _ => trivial
  | finished => cases h

theorem keeps_disconnectStep (r : P) :
    Keeps acc players client pc (disconnectStep acc players client pc r) := by
  unfold disconnectStep
  split
  · exact .goOn id
  · next c e h =>
    have halive : ∀ p, (Function.update client r c p).alive = (client p).alive :=
      fun p => alive_update (alive_onDisconnected h)
    exact ⟨fun _ => rfl, fun hfits => hfits.mono fun p hp => (halive p).trans hp, id, halive⟩

theorem Statement.keeps {b : Body P} {o : Outcome P} (h : Statement acc q players client b o) :
    Keeps acc players client b.pc o := by
  rcases h with ⟨-, task, reset, h⟩ | ⟨r, -, rfl⟩
  · exact keeps_bodyStep h
  · exact keeps_disconnectStep r

end Bodies

/-! ## The jobs that run on a thread -/

def Queue.place? : Queue → Option PlaceId
  | .place q => some q
  | .callback _ => none

/-- The place whose job the activation is running. -/
def placeOf {J : Type*} : JobQueue.Frame Queue J → Option PlaceId
  | .execute queue (.running _ _ _) => queue.place?
  | _ => none

@[simp] theorem placeOf_running {J : Type*} (q : PlaceId) (task : J) (tasks : List J) (n : ℕ) :
    placeOf (.execute (.place q) (.running task tasks n)) = some q := rfl

@[simp] theorem placeOf_callback {J : Type*} (m : ℕ) (task : J) (tasks : List J) (n : ℕ) :
    placeOf (.execute (.callback m) (.running task tasks n)) = none := rfl

@[simp] theorem placeOf_push {J : Type*} (q : Queue) (job : J) (pc : JobQueue.PushPc) :
    placeOf (.push q job pc) = none := rfl

variable {T : Type*}

/-- The places whose jobs run on a thread, innermost first. -/
def State.running (s : State P T) (t : T) : List PlaceId :=
  (s.queues.thread t).stack.filterMap placeOf

theorem placeOf_of_calls {J : Type*} {base : JobQueue.Frame Queue J} (h : base.Calls) :
    placeOf base = none := by
  cases base <;> simp_all [JobQueue.Frame.Calls, placeOf]

/-- A thread that runs a job of a place is at a statement of it or in a `Push` that it calls. -/
theorem stack_of_running {J : Type*} {th : JobQueue.Thread Queue J} {q : PlaceId} (h : th.Shape)
    (hq : q ∈ th.stack.filterMap placeOf) :
    th.currentJobQueue = some (.place q) ∧ ∃ task tasks n base, placeOf base = none ∧
      (th.stack = [.execute (.place q) (.running task tasks n), base] ∨
        ∃ q' job pc, th.stack = [.push q' job pc, .execute (.place q) (.running task tasks n),
          base]) := by
  obtain ⟨current, stack⟩ := th
  unfold JobQueue.Thread.Shape at h
  split at h
  · next hstack =>
    simp only at hstack
    subst hstack
    cases hq
  · next hstack =>
    simp only at hstack
    subst hstack
    cases hq
  · next hstack =>
    simp only at hstack
    subst hstack
    cases hq
  · next q' pc base hstack =>
    simp only at hstack h
    subst hstack
    have hbase := placeOf_of_calls h.2
    cases pc with
    | running task tasks n =>
      cases q' with
      | callback m => simp [hbase] at hq
      | place q₀ =>
        obtain rfl : q = q₀ := by simpa [hbase, eq_comm] using hq
        exact ⟨h.1, task, tasks, n, base, hbase, .inl rfl⟩
    | _ =>
      rw [List.filterMap_cons_none rfl, List.filterMap_cons_none hbase] at hq
      cases hq
  · next q₁ job pc q' task tasks n base hstack =>
    simp only at hstack h
    subst hstack
    have hbase := placeOf_of_calls h.2.2
    cases q' with
    | callback m => simp [hbase] at hq
    | place q₀ =>
      obtain rfl : q = q₀ := by simpa [hbase, eq_comm] using hq
      exact ⟨h.1, task, tasks, n, base, hbase, .inr ⟨q₁, job, pc, rfl⟩⟩
  · exact h.elim

section Steps

variable [DecidableEq P] [DecidableEq T]

/-- The step starts no job of a place and returns from none. -/
def Quiet {J : Type*} : JobQueue.Op Queue J → List (JobQueue.Frame Queue J) → Prop
  | .next _, .execute (.place _) (.run (_ :: _) _) :: _ => False
  | .next _, .execute (.place _) (.running _ _ _) :: _ => False
  | _, _ => True

theorem running_of_quiet {J : Type*} {queues queues' : JobQueue.State Queue J T} {t : T}
    {op : JobQueue.Op Queue J} (h : JobQueue.step queues (t, op) = some queues')
    (quiet : Quiet op (queues.thread t).stack) :
    (queues'.thread t).stack.filterMap placeOf = (queues.thread t).stack.filterMap placeOf := by
  have hset : ∀ (s : JobQueue.State Queue J T) stack,
      ((s.setStack t stack).thread t).stack = stack := fun s stack => by
    simp [JobQueue.State.setStack]
  rcases hstack : (queues.thread t).stack with _ | ⟨frame, rest⟩
  · cases op with
    | doAsync q job =>
      simp only [JobQueue.step, hstack, JobQueue.mayCallDoAsync, if_true, Option.some.injEq] at h
      rw [← h, hset]
      rfl
    | doGlobalQueueWork =>
      simp only [JobQueue.step, hstack, Option.some.injEq] at h
      rw [← h, hset]
      rfl
    | next timeUp => simp [JobQueue.step, hstack] at h
  · cases op with
    | doAsync q job =>
      simp only [JobQueue.step, hstack, Option.ite_none_right_eq_some, Option.some.injEq] at h
      rw [← h.2, hset]
      rfl
    | doGlobalQueueWork => simp [JobQueue.step, hstack] at h
    | next timeUp =>
      simp only [JobQueue.step, hstack] at h
      rw [hstack] at quiet
      cases frame with
      | push q job pc =>
        simp only [Option.some.injEq] at h
        subst h
        cases pc with
        | handOver prevCount =>
          simp only [JobQueue.stepPush]
          split_ifs
          · split <;> rw [hset] <;> rfl
          · rw [hset]
            rfl
        | _ =>
          simp only [JobQueue.stepPush, hset]
          rfl
      | execute q pc =>
        simp only [Option.some.injEq] at h
        subst h
        cases pc with
        | run tasks n =>
          cases tasks with
          | nil =>
            simp only [JobQueue.stepExecute, hset]
            rfl
          | cons task tasks =>
            cases q with
            | place q => exact quiet.elim
            | callback m =>
              simp only [JobQueue.stepExecute, hset]
              rfl
        | running task tasks n =>
          cases q with
          | place q => exact quiet.elim
          | callback m =>
            simp only [JobQueue.stepExecute, hset]
            rfl
        | enter =>
          simp [JobQueue.stepExecute, JobQueue.State.setThread]
          rfl
        | fetchSub n =>
          simp only [JobQueue.stepExecute, hset]
          split_ifs <;> rfl
        | checkTime =>
          simp only [JobQueue.stepExecute]
          split_ifs
          · simp [JobQueue.State.setThread]
            rfl
          · rw [hset]
            rfl
        | leave =>
          simp [JobQueue.stepExecute, JobQueue.State.setThread]
          rfl
        | _ =>
          simp only [JobQueue.stepExecute, hset]
          rfl
      | globalQueueWork =>
        simp only [Option.some.injEq] at h
        subst h
        unfold JobQueue.stepGlobalQueueWork
        split_ifs
        · rw [hset]
          rfl
        · split <;> rw [hset] <;> rfl

variable (acc : Accounts P)

/-- The steps of a thread. -/
inductive Moves (s : State P T) (t : T) : State P T → Prop
  | queue {op : JobQueue.Op Queue (Option (Job P))}
      {queues : JobQueue.State Queue (Option (Job P)) T}
      (quiet : Quiet op (s.queues.thread t).stack)
      (step : JobQueue.step s.queues (t, op) = some queues) : Moves s t { s with queues := queues }
  | start {q : PlaceId} {task : Option (Job P)} {tasks : List (Option (Job P))} {n : ℕ}
      {rest : List (JobQueue.Frame Queue (Option (Job P)))} {timeUp : Bool}
      {queues : JobQueue.State Queue (Option (Job P)) T}
      (stack : (s.queues.thread t).stack = .execute (.place q) (.run (task :: tasks) n) :: rest)
      (step : JobQueue.step s.queues (t, .next timeUp) = some queues) :
      Moves s t { s.setBody t (⟨.start, none⟩ :: s.body t) with queues := queues }
  | finish {q : PlaceId} {task : Option (Job P)} {tasks : List (Option (Job P))} {n : ℕ}
      {rest : List (JobQueue.Frame Queue (Option (Job P)))} {timeUp : Bool} {b : Body P}
      {bodies : List (Body P)} {queues : JobQueue.State Queue (Option (Job P)) T}
      (stack : (s.queues.thread t).stack = .execute (.place q) (.running task tasks n) :: rest)
      (body : s.body t = b :: bodies)
      (step : JobQueue.step s.queues (t, .next timeUp) = some queues) :
      Moves s t { s.setBody t bodies with queues := queues }
  | statement {q : PlaceId} {task : Option (Job P)} {tasks : List (Option (Job P))} {n : ℕ}
      {rest : List (JobQueue.Frame Queue (Option (Job P)))} {b : Body P} {bodies : List (Body P)}
      {o : Outcome P} {queues : JobQueue.State Queue (Option (Job P)) T}
      (stack : (s.queues.thread t).stack = .execute (.place q) (.running task tasks n) :: rest)
      (body : s.body t = b :: bodies)
      (statement : Statement acc q (s.players q) s.client b o)
      (call : queues = s.queues ∨ ∃ target job,
        JobQueue.step s.queues (t, .doAsync (.place target) (some job)) = some queues) :
      Moves s t { s.apply t q o with queues := queues }
  | client {p : P} {c : Client} (alive : (s.client p).alive = false → c.alive = false) :
      Moves s t { s with client := Function.update s.client p c }

variable {acc} {s s' : State P T} {t : T} {q : PlaceId}

theorem Moves.of_queueStep {op : JobQueue.Op Queue (Option (Job P))}
    (h : s.queueStep t op = some s') (quiet : Quiet op (s.queues.thread t).stack) :
    Moves acc s t s' := by
  obtain ⟨queues, hstep, rfl⟩ := Option.map_eq_some_iff.1 h
  exact .queue quiet hstep

theorem Moves.of_statement {task : Option (Job P)} {tasks : List (Option (Job P))} {n : ℕ}
    {rest : List (JobQueue.Frame Queue (Option (Job P)))} {b : Body P} {bodies : List (Body P)}
    {o : Outcome P}
    (stack : (s.queues.thread t).stack = .execute (.place q) (.running task tasks n) :: rest)
    (body : s.body t = b :: bodies) (statement : Statement acc q (s.players q) s.client b o)
    (h : s.statement t q o = some s') : Moves acc s t s' := by
  unfold State.statement at h
  split at h
  · obtain rfl := Option.some.inj h
    exact .statement stack body statement (.inl rfl)
  · next target job _ =>
    obtain ⟨queues, hstep, rfl⟩ := Option.map_eq_some_iff.1 h
    exact .statement stack body statement (.inr ⟨target, job, hstep⟩)

theorem moves_of_step {a : T × Op P} (h : step acc s a = some s') : Moves acc s a.1 s' := by
  unfold step at h
  split at h
  · exact .of_queueStep h trivial
  · exact .of_queueStep h trivial
  · exact .of_queueStep h trivial
  · exact .of_queueStep h trivial
  · next hstack =>
    obtain ⟨queues, hstep, rfl⟩ := Option.map_eq_some_iff.1 h
    exact .start hstack hstep
  · next hstack =>
    split at h
    · next hbody =>
      obtain ⟨queues, hstep, rfl⟩ := Option.map_eq_some_iff.1 h
      exact .finish hstack hbody hstep
    · cases h
  · next hrun hrunning =>
    refine .of_queueStep h ?_
    unfold Quiet
    split
    · next hstack => exact hrun _ _ _ _ _ hstack
    · next hstack => exact hrunning _ _ _ _ _ hstack
    · trivial
  · next hstack =>
    split at h
    · next pc bodies hbody =>
      obtain ⟨o, ho, h⟩ := Option.bind_eq_some_iff.1 h
      exact .of_statement hstack hbody (.inl ⟨rfl, _, _, ho⟩) h
    · cases h
  · next hstack =>
    split at h
    · next pc r bodies hbody => exact .of_statement hstack hbody (.inr ⟨r, rfl, rfl⟩) h
    · cases h
  · split_ifs at h with halive
    obtain rfl := Option.some.inj h
    exact .client fun hdead => by simpa [hdead] using halive
  · cases h

theorem queues_of_move (h : Moves acc s t s') :
    s'.queues = s.queues ∨ ∃ op, JobQueue.step s.queues (t, op) = some s'.queues := by
  cases h with
  | queue _ hstep => exact .inr ⟨_, hstep⟩
  | start _ hstep => exact .inr ⟨_, hstep⟩
  | finish _ _ hstep => exact .inr ⟨_, hstep⟩
  | statement _ _ _ call =>
    rcases call with rfl | ⟨target, job, hstep⟩
    · exact .inl rfl
    · exact .inr ⟨_, hstep⟩
  | client _ => exact .inl rfl

end Steps

section Running

variable {s s' : State P T} {t t' : T} {q : PlaceId}

section Shape

variable [Fintype T]

theorem running_eq (inv : JobQueue.Inv s.queues) (hq : q ∈ s.running t) : s.running t = [q] := by
  obtain ⟨-, task, tasks, n, base, hbase, hstack | ⟨_, _, _, hstack⟩⟩ :=
    stack_of_running (inv.shape t) hq
  · simp [State.running, hstack, hbase]
  · rw [State.running, hstack, List.filterMap_cons_none rfl]
    simp [hbase]

theorem exists_token (inv : JobQueue.Inv s.queues) (hq : q ∈ s.running t) :
    ∃ d, s.queues.HasToken (.place q) (.activation t d) := by
  obtain ⟨-, task, tasks, n, base, -, hstack | ⟨_, _, _, hstack⟩⟩ :=
    stack_of_running (inv.shape t) hq
  · exact ⟨0, .execute (.place q) (.running task tasks n), by rw [hstack]; rfl, rfl, rfl⟩
  · exact ⟨1, .execute (.place q) (.running task tasks n), by rw [hstack]; rfl, rfl, rfl⟩

/-- A thread that is at a statement of a job of `q` runs no other job. -/
theorem running_of_stack (inv : JobQueue.Inv s.queues) {task : Option (Job P)}
    {tasks : List (Option (Job P))} {n : ℕ} {rest : List (JobQueue.Frame Queue (Option (Job P)))}
    (hstack : (s.queues.thread t).stack = .execute (.place q) (.running task tasks n) :: rest) :
    s.running t = [q] :=
  running_eq inv (by simp [State.running, hstack])

/-- A thread whose innermost activation is not running a job of a place runs none. -/
theorem running_eq_nil (inv : JobQueue.Inv s.queues) {queue : Queue}
    {tasks : List (Option (Job P))} {n : ℕ} {rest : List (JobQueue.Frame Queue (Option (Job P)))}
    (hstack : (s.queues.thread t).stack = .execute queue (.run tasks n) :: rest) :
    s.running t = [] := by
  refine List.eq_nil_iff_forall_not_mem.2 fun q hq => ?_
  obtain ⟨-, task, tasks', n', base, -, h | ⟨_, _, _, h⟩⟩ := stack_of_running (inv.shape t) hq
  all_goals simp [hstack] at h

end Shape

section Queues

variable [DecidableEq T]

theorem running_of_queue {op : JobQueue.Op Queue (Option (Job P))}
    {queues : JobQueue.State Queue (Option (Job P)) T}
    (hstep : JobQueue.step s.queues (t, op) = some queues)
    (quiet : Quiet op (s.queues.thread t).stack) (t' : T) :
    State.running { s with queues := queues } t' = s.running t' := by
  by_cases ht : t' = t
  · rw [ht]
    exact running_of_quiet hstep quiet
  · rw [State.running, (JobQueue.step_frame hstep).1 t' ht]
    rfl

theorem running_of_ne {op : JobQueue.Op Queue (Option (Job P))}
    (hstep : JobQueue.step s.queues (t, op) = some s'.queues) (ht : t' ≠ t) :
    s'.running t' = s.running t' := by
  rw [State.running, State.running, (JobQueue.step_frame hstep).1 t' ht]

end Queues

end Running

/-! ## The invariant -/

section Invariant

variable [Fintype T] (acc : Accounts P)

/-- The invariant of the places with their threads. -/
structure Inv (s : State P T) : Prop where
  queues : JobQueue.Inv s.queues
  bodies : ∀ t, (s.body t).length = (s.running t).length
  keyed : ∀ q id p, (s.players q).find? id = some p → acc.playerId p = id
  fits : ∀ t, ∀ q ∈ s.running t, ∀ b ∈ s.body t, b.pc.Fits (s.players q) s.client

variable {acc} {s s' : State P T} {t t' : T} {q : PlaceId}

theorem Inv.body_eq (inv : Inv acc s) (hq : q ∈ s.running t) : ∃ b, s.body t = [b] := by
  have hlength := inv.bodies t
  rw [running_eq inv.queues hq] at hlength
  exact List.length_eq_one_iff.1 hlength

variable [DecidableEq T]

/-- One thread at most runs a job of the place. -/
theorem running_unique (inv : JobQueue.Inv s.queues) (hq : q ∈ s.running t)
    (hq' : q ∈ s.running t') : t = t' := by
  obtain ⟨d, hd⟩ := exists_token inv hq
  obtain ⟨d', hd'⟩ := exists_token inv hq'
  exact ((inv.queue _).activation_unique hd hd').1

/-- The rule for a step of thread `t`: the places whose jobs run on other threads keep their
members, so only the bodies of `t` remain to be looked at. -/
theorem Inv.of_thread (inv : Inv acc s) (t : T) (hqueues : JobQueue.Inv s'.queues)
    (hother : ∀ t', t' ≠ t → s'.running t' = s.running t' ∧ s'.body t' = s.body t')
    (hplayers : ∀ t', t' ≠ t → ∀ q ∈ s.running t', s'.players q = s.players q)
    (halive : ∀ p, (s.client p).alive = false → (s'.client p).alive = false)
    (hkeyed : ∀ q id p, (s'.players q).find? id = some p → acc.playerId p = id)
    (hbodies : (s'.body t).length = (s'.running t).length)
    (hfits : ∀ q ∈ s'.running t, ∀ b ∈ s'.body t, b.pc.Fits (s'.players q) s'.client) :
    Inv acc s' := by
  refine ⟨hqueues, fun t' => ?_, hkeyed, fun t' q hq b hb => ?_⟩
  · by_cases ht : t' = t
    · rwa [ht]
    · rw [(hother t' ht).1, (hother t' ht).2, inv.bodies]
  · by_cases ht : t' = t
    · subst ht
      exact hfits q hq b hb
    · rw [(hother t' ht).1] at hq
      rw [(hother t' ht).2] at hb
      rw [hplayers t' ht q hq]
      exact (inv.fits t' q hq b hb).mono halive

theorem Inv.move_start (inv : Inv acc s) {task : Option (Job P)} {tasks : List (Option (Job P))}
    {n : ℕ} {rest : List (JobQueue.Frame Queue (Option (Job P)))} {timeUp : Bool}
    {queues : JobQueue.State Queue (Option (Job P)) T}
    (hstack : (s.queues.thread t).stack = .execute (.place q) (.run (task :: tasks) n) :: rest)
    (hstep : JobQueue.step s.queues (t, .next timeUp) = some queues) :
    Inv acc { s.setBody t (⟨.start, none⟩ :: s.body t) with queues := queues } := by
  have hnil := running_eq_nil inv.queues hstack
  have hbody : s.body t = [] := List.length_eq_zero_iff.1 (by rw [inv.bodies, hnil]; rfl)
  have hown : Function.update s.body t (⟨.start, none⟩ :: s.body t) t = [⟨.start, none⟩] := by
    rw [Function.update_self, hbody]
  have hrunning : (queues.thread t).stack.filterMap placeOf = q :: s.running t := by
    have hstep' := hstep
    simp only [JobQueue.step, hstack, JobQueue.stepExecute, Option.some.injEq] at hstep'
    rw [← hstep', State.running, hstack]
    simp only [JobQueue.State.setStack, Function.update_self]
    rfl
  refine inv.of_thread t (inv.queues.step hstep) (fun t' ht => ⟨running_of_ne hstep ht, ?_⟩)
    (fun _ _ _ _ => rfl) (fun _ => id) inv.keyed ?_ fun q hq b hb => ?_
  · exact Function.update_of_ne ht _ _
  · exact (congrArg List.length hown).trans (by rw [State.running, hrunning, hnil]; rfl)
  · have hb' : b ∈ Function.update s.body t (⟨.start, none⟩ :: s.body t) t := hb
    rw [hown, List.mem_singleton] at hb'
    rw [hb']
    trivial

theorem Inv.move_finish (inv : Inv acc s) {task : Option (Job P)} {tasks : List (Option (Job P))}
    {n : ℕ} {rest : List (JobQueue.Frame Queue (Option (Job P)))} {timeUp : Bool} {b : Body P}
    {bodies : List (Body P)} {queues : JobQueue.State Queue (Option (Job P)) T}
    (hstack : (s.queues.thread t).stack = .execute (.place q) (.running task tasks n) :: rest)
    (hbody : s.body t = b :: bodies)
    (hstep : JobQueue.step s.queues (t, .next timeUp) = some queues) :
    Inv acc { s.setBody t bodies with queues := queues } := by
  have hrunning : s.running t = q :: (queues.thread t).stack.filterMap placeOf := by
    have hstep' := hstep
    simp only [JobQueue.step, hstack, JobQueue.stepExecute, Option.some.injEq] at hstep'
    rw [← hstep', State.running, hstack]
    simp only [JobQueue.State.setStack, Function.update_self]
    rfl
  have hlength := inv.bodies t
  rw [hbody, hrunning, List.length_cons, List.length_cons] at hlength
  have hnil : (queues.thread t).stack.filterMap placeOf = [] := by
    rw [running_of_stack inv.queues hstack] at hrunning
    exact (List.cons.inj hrunning).2.symm
  refine inv.of_thread t (inv.queues.step hstep) (fun t' ht => ⟨running_of_ne hstep ht, ?_⟩)
    (fun _ _ _ _ => rfl) (fun _ => id) inv.keyed ?_ fun q hq b hb => ?_
  · exact Function.update_of_ne ht _ _
  · exact (congrArg List.length (Function.update_self t bodies s.body)).trans
      (Nat.succ.inj hlength)
  · rw [State.running, hnil] at hq
    cases hq

variable [DecidableEq P]

theorem Inv.move_statement (inv : Inv acc s) {task : Option (Job P)} {tasks : List (Option (Job P))}
    {n : ℕ} {rest : List (JobQueue.Frame Queue (Option (Job P)))} {b : Body P}
    {bodies : List (Body P)} {o : Outcome P} {queues : JobQueue.State Queue (Option (Job P)) T}
    (hstack : (s.queues.thread t).stack = .execute (.place q) (.running task tasks n) :: rest)
    (hbody : s.body t = b :: bodies) (hstatement : Statement acc q (s.players q) s.client b o)
    (hqueues : JobQueue.Inv queues)
    (hrunning : ∀ t', (queues.thread t').stack.filterMap placeOf = s.running t') :
    Inv acc { s.apply t q o with queues := queues } := by
  have keeps := hstatement.keeps
  have hown := running_of_stack inv.queues hstack
  have hmem : q ∈ s.running t := hown ▸ List.mem_singleton_self q
  obtain ⟨b', hb'⟩ := inv.body_eq hmem
  obtain ⟨rfl, rfl⟩ := List.cons.inj (hbody.symm.trans hb')
  have hnew : Function.update s.body t (o.body :: (s.body t).tail) t = [o.body] := by
    rw [Function.update_self, hbody]
    rfl
  refine inv.of_thread t hqueues (fun t' ht => ⟨hrunning t', Function.update_of_ne ht _ _⟩)
    (fun t' ht q' hq' => ?_) (fun p hp => (keeps.alive p).trans hp) (fun q' => ?_) ?_
    fun q' hq' b' hb' => ?_
  · refine Function.update_of_ne ?_ _ _
    rintro rfl
    exact ht (running_unique inv.queues hq' hmem)
  · by_cases hq' : q' = q
    · subst hq'
      intro id p hp
      exact keeps.keyed (inv.keyed q') id p (by simpa [State.apply] using hp)
    · simpa [State.apply, hq'] using inv.keyed q'
  · exact (congrArg List.length hnew).trans (congrArg List.length ((hrunning t).trans hown)).symm
  · obtain rfl : q' = q := List.mem_singleton.1 (hown ▸ hrunning t ▸ hq')
    have hmember : b' ∈ Function.update s.body t (o.body :: (s.body t).tail) t := hb'
    rw [hnew, List.mem_singleton] at hmember
    subst hmember
    have hfits := keeps.fits (inv.fits t q' hmem b (by simp [hbody]))
    simpa [State.apply] using hfits

theorem Inv.move (inv : Inv acc s) (h : Moves acc s t s') : Inv acc s' := by
  cases h with
  | queue quiet hstep =>
    refine ⟨inv.queues.step hstep, fun t' => ?_, inv.keyed, fun t' q hq => ?_⟩
    · rw [running_of_queue hstep quiet]
      exact inv.bodies t'
    · rw [running_of_queue hstep quiet] at hq
      exact inv.fits t' q hq
  | start hstack hstep => exact inv.move_start hstack hstep
  | finish hstack hbody hstep => exact inv.move_finish hstack hbody hstep
  | statement hstack hbody hstatement call =>
    rcases call with rfl | ⟨target, job, hstep⟩
    · exact inv.move_statement hstack hbody hstatement inv.queues fun _ => rfl
    · exact inv.move_statement hstack hbody hstatement (inv.queues.step hstep)
        (running_of_queue hstep trivial)
  | @client p c halive =>
    have hdead : ∀ r, (s.client r).alive = false →
        (Function.update s.client p c r).alive = false := by
      intro r hr
      by_cases e : r = p
      · rw [e, Function.update_self]
        exact halive (e ▸ hr)
      · rwa [Function.update_of_ne e]
    exact ⟨inv.queues, inv.bodies, inv.keyed,
      fun t' q hq b hb => (inv.fits t' q hq b hb).mono hdead⟩

theorem inv_of_reachable (h : (system acc T).Reachable s) : Inv acc s := by
  refine h.invariant (fun s hs => ?_) fun s a s' inv hstep => inv.move (moves_of_step hstep)
  have hrunning : ∀ t, s.running t = [] := fun t => by rw [State.running, hs.queues]; rfl
  refine ⟨hs.queues ▸ JobQueue.inv_initial, fun t => ?_, hs.keyed, fun t q hq => ?_⟩
  · rw [hs.body, hrunning]
    rfl
  · rw [hrunning] at hq
    cases hq

/-! ## What cannot happen while a job runs -/

/-- No step of any thread changes `m_players` under a loop. -/
theorem Inv.players_of_move (inv : Inv acc s) (hq : q ∈ s.running t) {b : Body P}
    (hb : b ∈ s.body t) (hloop : b.pc.loop?.isSome) (h : Moves acc s t' s') :
    s'.players q = s.players q := by
  cases h with
  | @statement q' _ _ _ _ b' bodies o _ hstack hbody hstatement _ =>
    by_cases hq' : q = q'
    · subst hq'
      have hmem : q ∈ s.running t' := by simp [running_of_stack inv.queues hstack]
      obtain rfl := running_unique inv.queues hq hmem
      obtain ⟨b₀, hb₀⟩ := inv.body_eq hq
      obtain rfl : b = b₀ := List.mem_singleton.1 (hb₀ ▸ hb)
      obtain rfl : b' = b := (List.cons.inj (hbody.symm.trans hb₀)).1
      exact (Function.update_self _ _ _).trans (hstatement.keeps.same hloop)
    · exact Function.update_of_ne hq' _ _
  | _ => rfl

/-- While a job of `q` runs, no other job of `q` starts, and its thread starts no job at all. -/
theorem Inv.ran_of_move (inv : Inv acc s) (hq : q ∈ s.running t) (h : Moves acc s t' s') :
    s'.queues.ran (.place q) = s.queues.ran (.place q) ∧
      (t' = t → s'.queues.ran = s.queues.ran) := by
  rcases queues_of_move h with hsame | ⟨op, hstep⟩
  · rw [hsame]
    exact ⟨rfl, fun _ => rfl⟩
  rcases (JobQueue.step_frame hstep).2 with hran | ⟨queue, job, jobs, n, rest, hstack, hran⟩
  · rw [hran]
    exact ⟨rfl, fun _ => rfl⟩
  have ht : t' ≠ t := by
    rintro rfl
    rw [running_eq_nil inv.queues hstack] at hq
    cases hq
  refine ⟨hran _ ?_, fun e => absurd e ht⟩
  rintro rfl
  obtain ⟨d, hd⟩ := exists_token inv.queues hq
  have htoken : s.queues.HasToken (.place q) (.activation t' 0) :=
    ⟨.execute (.place q) (.run (job :: jobs) n), by rw [hstack]; rfl, rfl, rfl⟩
  exact ht ((inv.queues.queue _).activation_unique htoken hd).1

end Invariant

end BroadcastLoop

end DhNet
