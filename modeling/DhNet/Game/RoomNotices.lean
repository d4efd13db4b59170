import DhNet.Game.LobbyViews
import DhNet.Game.LocationProof
import DhNet.Game.SlotsProof

/-!
# What the members of a room are told about a player

`Room::Enter` makes the player a member and sets its pointer to the room before `Player::EnterRoom`
queues the `NotiRoomEnter`.  A `LeaveRoom` on another thread that comes in between queues the
`Leave` and the `NotiRoomExit` first, and may reset the pointer, so that the members are told of the
exit before the entry, or of the exit alone.

* `State.told`, `Place.pending`: the entries and exits of a player that a member has been told, and
  those whose broadcast is queued.
* `Punctual`: a player leaves only when its `Enter` is over, and its `Leave` does not start before
  the exit is queued.
* `Announces`: what an access of a call does to the notices.
* `room_notices_in_order`: in runs of such steps, a member that stays is told entries and exits in
  turn, and is told of the last one when the room has no more jobs.
-/

namespace DhNet

/-- What a notice tells about the player with this id: `true` that it enters the room, `false` that
it leaves it. -/
def Notice.passage (id : ℕ) : Notice → Option Bool
  | .notiRoomEnter playerId _ => if playerId = id then some true else none
  | .notiRoomExit playerId _ => if playerId = id then some false else none
  | _ => none

namespace Server

variable {P : Type*}

/-! ## Notices -/

/-- What a job is going to tell. -/
def Job.passage (id : ℕ) : Job P → Option Bool
  | .broadcast packet => packet.passage id
  | _ => none

/-- The entries and exits of a player whose broadcast has not run. -/
def Place.pending (place : Place P) (id : ℕ) : List Bool :=
  (place.starting ++ place.waiting).filterMap (Job.passage id)

/-- The `Leave` of this room is queued and the `NotiRoomExit` is not. -/
def Client.Notifies (c : Client) (room : ℕ) : Prop :=
  c.request = .leave .lobby (.notify room) ∨ c.disconnect = .leave .room (.notify room)

/-- The player has been announced to the room, and its exit has not. -/
def Inside (s : State P) (w : P → Whereabouts) (room : ℕ) (p : P) : Prop :=
  w p = .settled (some ⟨.room, room⟩) ∨ (s.client p).Notifies room

/-- The `Leave` of a player does not start before its `NotiRoomExit` is queued. -/
def Waits (s : State P) : Op P → Prop
  | .startJob ⟨.room, room⟩ =>
      ∀ p, (s.place ⟨.room, room⟩).waiting.head? = some (.exit p) → ¬ (s.client p).Notifies room
  | _ => True

instance Client.decidableNotifies (c : Client) (room : ℕ) : Decidable (c.Notifies room) :=
  inferInstanceAs (Decidable (_ ∨ _))

instance decidableWaits [DecidableEq P] [Fintype P] (s : State P) : (op : Op P) →
    Decidable (Waits s op)
  | .startJob ⟨.room, room⟩ => inferInstanceAs (Decidable (∀ p,
      (s.place ⟨.room, room⟩).waiting.head? = some (.exit p) → ¬ (s.client p).Notifies room))
  | .startJob ⟨.lobby, _⟩ | .loginResult _ _ | .reqRoomEnter _ | .reqRoomExit _ | .reqChat _ _ _
  | .disconnect _ | .destroy _ | .login _ _ | .request _ _ | .onDisconnected _ | .runJob _ =>
      .isTrue trivial

/-- Players are only moved when nothing is under way for them, and a `Leave` waits for the
`NotiRoomExit` behind it. -/
def Punctual (s : State P) (op : Op P) : Prop := Orderly s op ∧ Waits s op

/-- Entries and exits in turn. -/
def turns : ℕ → List Bool
  | 0 => []
  | n + 1 => turns n ++ [decide (n % 2 = 0)]

theorem count_turns (n : ℕ) :
    (turns n).count true = (n + 1) / 2 ∧ (turns n).count false = n / 2 := by
  induction n with
  | zero => exact ⟨rfl, rfl⟩
  | succ n ih =>
    obtain ⟨htrue, hfalse⟩ := ih
    rcases Nat.mod_two_eq_zero_or_one n with hn | hn
    · simp [turns, htrue, hfalse, hn]
      omega
    · simp [turns, htrue, hfalse, hn]
      omega

theorem getLast?_turns (n : ℕ) : (turns (n + 1)).getLast? = some (decide (n % 2 = 0)) :=
  List.getLast?_concat

section Member

variable [DecidableEq P]

/-- The entries and exits of a player that a member of a place has been told. -/
def State.told (s : State P) (target : PlaceId) (q : P) (id : ℕ) : List Bool :=
  (LobbyViews.received ((s.sent.filter fun m => m.1 = target).map Prod.snd) q).filterMap
    (Notice.passage id)

/-- What a member of a place has been told or is going to be told. -/
def State.tells (s : State P) (target : PlaceId) (q : P) (id : ℕ) : List Bool :=
  s.told target q id ++ (s.place target).pending id

/-- The player is a member of the place and its session exists. -/
structure State.Attends (acc : Accounts P) (s : State P) (target : PlaceId) (q : P) : Prop where
  member : (s.place target).players.find? (acc.playerId q) = some q
  alive : (s.client q).alive = true

instance State.decidableAttends (acc : Accounts P) (s : State P) (target : PlaceId) (q : P) :
    Decidable (s.Attends acc target q) :=
  decidable_of_iff ((s.place target).players.find? (acc.playerId q) = some q ∧
    (s.client q).alive = true) ⟨fun h => ⟨h.1, h.2⟩, fun h => ⟨h.member, h.alive⟩⟩

end Member

/-! ## Calls -/

/-- What an access of a call of the player may do to the notices: queue its `Leave`, queue the
`NotiRoomExit` behind it, or neither. -/
inductive Announces (acc : Accounts P) (p : P) (c c' : Client) : Effect P → Prop
  | leave {room : ℕ} (before : ∀ i, ¬ c.Notifies i) (after : ∀ i, c'.Notifies i ↔ i = room) :
      Announces acc p c c' (.doAsync ⟨.room, room⟩ (.exit p))
  | notify {room : ℕ} (name : List UInt8) (before : c.Notifies room)
      (after : ∀ i, ¬ c'.Notifies i) :
      Announces acc p c c'
        (.doAsync ⟨.room, room⟩ (.broadcast (.notiRoomExit (acc.playerId p) name)))
  | other {e : Effect P} (same : ∀ i, c'.Notifies i ↔ c.Notifies i)
      (leave : ∀ room q, e ≠ .doAsync ⟨.room, room⟩ (.exit q))
      (silent : ∀ room job, e = .doAsync ⟨.room, room⟩ job → ∀ id, job.passage id = none) :
      Announces acc p c c' e

section Calls

variable {acc : Accounts P} {p : P} {c c' : Client} {e : Effect P} {availableSlots : PlaceId → ℤ}
  {spurious : Bool}

theorem notifies_congr (hrequest : c'.request = c.request)
    (hdisconnect : c'.disconnect = c.disconnect) (i : ℕ) : c'.Notifies i ↔ c.Notifies i := by
  rw [Client.Notifies, hrequest, hdisconnect, Client.Notifies]

/-- An effect that queues nothing announces nothing. -/
theorem Announces.quiet (same : ∀ i, c'.Notifies i ↔ c.Notifies i)
    (h : ∀ target job, e ≠ .doAsync target job) : Announces acc p c c' e :=
  .other same (fun _ _ => h _ _) fun _ _ he => absurd he (h _ _)

theorem announces_of_onLoginResult {w : Whereabouts} (fits : c.Fits w)
    (h : onLoginResult p availableSlots spurious c = some (c', e)) : Announces acc p c c' e := by
  unfold onLoginResult at h
  cases hlogin : c.login with
  | idle =>
    simp only [hlogin] at h
    cases h
  | reject =>
    simp only [hlogin, Option.some.injEq, Prod.mk.injEq] at h
    obtain ⟨rfl, rfl⟩ := h
    refine .quiet (fun i => ?_) (by simp)
    cases hconnected : c.connected with
    | false => exact notifies_congr rfl rfl i
    | true => simp [Client.Notifies, fits.online.2 hconnected]
  | assignLobby search =>
    simp only [hlogin, Option.some.injEq] at h
    cases hnext : search.next maxLobbyCount (fun i => availableSlots ⟨.lobby, i⟩) spurious with
    | again | reserved | failed =>
      simp only [hnext, Prod.mk.injEq] at h
      obtain ⟨rfl, rfl⟩ := h
      exact .quiet (notifies_congr rfl rfl) (by simp)
  | _ =>
    simp only [hlogin, Option.some.injEq, Prod.mk.injEq] at h
    obtain ⟨rfl, rfl⟩ := h
    exact .other (notifies_congr rfl rfl) (by simp) (by simp)

/-- The accesses of `LeaveLobby` and `LeaveRoom`. -/
theorem announces_of_leave {kind : Kind} {pc : LeavePc}
    (before : ∀ i, c.Notifies i ↔ kind = .room ∧ pc = .notify i)
    (after : ∀ i, c'.Notifies i ↔ kind = .room ∧ (leave acc p kind c pc).2.2 = some (.notify i)) :
    Announces acc p c c' (leave acc p kind c pc).2.1 := by
  cases kind with
  | lobby =>
    refine .other (fun i => by simp [before, after]) ?_ ?_
    · cases pc <;> simp [leave]
    · cases pc <;> simp [leave]
  | room =>
    cases pc with
    | doAsync room =>
      exact .leave (fun i => by simp [before]) (fun i => by simp [after, leave, eq_comm])
    | notify room =>
      exact .notify _ (by simp [before]) (fun i => by simp [after, leave])
    | lock =>
      refine .quiet (fun i => ?_) (by simp [leave])
      cases hcurrent : c.current .room <;> simp [before, after, leave, hcurrent]
    | resetPointer | resetIndex =>
      exact .quiet (fun i => by simp [before, after, leave]) (by simp [leave])

theorem announces_of_handleRequest {w : Whereabouts} (fits : c.Fits w) {roomNum : ℕ}
    (h : handleRequest acc p roomNum availableSlots spurious c = some (c', e)) :
    Announces acc p c c' e := by
  unfold handleRequest at h
  cases hrequest : c.request with
  | idle =>
    simp only [hrequest] at h
    cases h
  | leave target pc =>
    simp only [hrequest, Option.some.injEq, Prod.mk.injEq] at h
    obtain ⟨hclient, rfl⟩ := h
    have hidle : c.disconnect = .idle := fits.disconnect_idle (.inr (.inl (by rw [hrequest]; rfl)))
    obtain ⟨current, currentIndex, hleft⟩ := leave_client acc p target.other c pc
    refine announces_of_leave (fun i => ?_) fun i => ?_
    · cases target <;> simp [Client.Notifies, hrequest, hidle, Kind.other]
    · rw [← hclient, Client.Notifies, hleft]
      cases target <;> cases (leave acc p _ c pc).2.2 <;> simp [hidle, Kind.other]
  | search target search =>
    simp only [hrequest, Option.some.injEq] at h
    cases hnext : search.next (target.places roomNum) (fun i => availableSlots ⟨target, i⟩)
      spurious with
    | again | reserved =>
      simp only [hnext, Prod.mk.injEq] at h
      obtain ⟨rfl, rfl⟩ := h
      exact .quiet (fun i => by simp [Client.Notifies, hrequest]) (by simp)
    | failed =>
      simp only [hnext, Prod.mk.injEq] at h
      obtain ⟨rfl, rfl⟩ := h
      refine .quiet (fun i => ?_) (by simp)
      cases target <;> simp [Client.Notifies, hrequest]
  | chatLock kind message =>
    simp only [hrequest, Option.some.injEq, Prod.mk.injEq] at h
    obtain ⟨rfl, rfl⟩ := h
    refine .quiet (fun i => ?_) (by simp)
    cases hcurrent : c.current kind <;> simp [Client.Notifies, hrequest]
  | chatAsync target message =>
    simp only [hrequest, Option.some.injEq, Prod.mk.injEq] at h
    obtain ⟨rfl, rfl⟩ := h
    refine .other (fun i => by simp [Client.Notifies, hrequest]) ?_ ?_
    · cases target.kind <;> simp
    · rintro room job ⟨⟩ id
      rfl
  | makeRoom =>
    simp only [hrequest, Option.some.injEq, Prod.mk.injEq] at h
    obtain ⟨rfl, rfl⟩ := h
    exact .quiet (fun i => by simp [Client.Notifies, hrequest]) (by simp)
  | doAsync target =>
    simp only [hrequest, Option.some.injEq, Prod.mk.injEq] at h
    obtain ⟨rfl, rfl⟩ := h
    refine .other (fun i => by simp [Client.Notifies, hrequest]) (by simp) ?_
    rintro room job ⟨⟩ id
    rfl

theorem announces_of_onDisconnected {w : Whereabouts} (fits : c.Fits w)
    (h : onDisconnected acc p c = some (c', e)) : Announces acc p c c' e := by
  have hactive : c.disconnect ≠ .idle := by
    intro hidle
    simp only [onDisconnected, hidle] at h
    cases h
  have hrequest : ∀ i, c.request ≠ .leave .lobby (.notify i) := by
    intro i hrequest
    have hstill := (fits.still hactive).2.1
    rw [hrequest] at hstill
    cases hstill
  unfold onDisconnected at h
  cases hdisconnect : c.disconnect with
  | idle | done =>
    simp only [hdisconnect] at h
    cases h
  | leave kind pc =>
    simp only [hdisconnect, Option.some.injEq, Prod.mk.injEq] at h
    obtain ⟨hclient, rfl⟩ := h
    obtain ⟨current, currentIndex, hleft⟩ := leave_client acc p kind c pc
    refine announces_of_leave (fun i => ?_) fun i => ?_
    · simp [Client.Notifies, hrequest, hdisconnect]
    · rw [← hclient, Client.Notifies, hleft]
      cases kind <;> cases (leave acc p _ c pc).2.2 <;> simp [hrequest]
  | hasPlayer =>
    simp only [hdisconnect, Option.some.injEq, Prod.mk.injEq] at h
    obtain ⟨rfl, rfl⟩ := h
    refine .quiet (fun i => ?_) (by simp)
    cases hplayer : c.hasPlayer <;> simp [Client.Notifies, hrequest, hdisconnect]
  | remove | reset =>
    simp only [hdisconnect, Option.some.injEq, Prod.mk.injEq] at h
    obtain ⟨rfl, rfl⟩ := h
    exact .quiet (fun i => by simp [Client.Notifies, hrequest, hdisconnect]) (by simp)

/-- A player whose `NotiRoomExit` is going to be queued has left its room already. -/
theorem Client.Fits.of_notifies {w : Whereabouts} (fits : c.Fits w) {room : ℕ}
    (h : c.Notifies room) : w = .settled none ∧ ∀ i, c.Notifies i → i = room := by
  rcases h with hrequest | hdisconnect
  · have hidle : c.disconnect = .idle := fits.disconnect_idle (.inr (.inl (by rw [hrequest]; rfl)))
    have hat := fits.request
    rw [hrequest] at hat
    obtain ⟨place, rfl, hlobby, hroom⟩ := hat
    refine ⟨congrArg _ (eq_none_of_indexIn hlobby hroom), ?_⟩
    simp [Client.Notifies, hrequest, hidle]
  · have hstill := (fits.still (by rw [hdisconnect]; exact nofun)).2.1
    have hat := fits.disconnect
    rw [hdisconnect] at hat
    obtain ⟨place, rfl, hlobby, hroom⟩ := hat
    refine ⟨congrArg _ (eq_none_of_indexIn hlobby hroom), ?_⟩
    rintro i (h | h)
    · rw [h] at hstill
      cases hstill
    · simpa [hdisconnect, eq_comm] using h

end Calls

/-! ## Queues -/

section Queues

variable {acc : Accounts P} {s : State P} {p q : P} {e : Effect P} {target : PlaceId} {id : ℕ}

theorem sent_apply (e : Effect P) : (s.apply acc p e).sent = s.sent := by cases e <;> rfl

theorem pending_doAsync (place : Place P) (job : Job P) (id : ℕ) :
    (place.doAsync job).pending id = place.pending id ++ (job.passage id).toList := by
  show (place.starting ++ (place.waiting ++ [job])).filterMap _ = _
  rw [← List.append_assoc, List.filterMap_append]
  cases h : job.passage id <;> simp [Place.pending, h]

/-- An effect other than a broadcast about the player queues nothing about it. -/
theorem pending_apply (silent : ∀ job, e = .doAsync target job → job.passage id = none) :
    ((s.apply acc p e).place target).pending id = (s.place target).pending id := by
  rcases place_apply acc s p e target with h | ⟨job, rfl, h⟩ | h
  · rw [h]
  · rw [h, pending_doAsync, silent job rfl, Option.toList_none, List.append_nil]
  · rw [h]
    rfl

/-- No effect takes a job out of a queue. -/
theorem mem_waiting_apply {job : Job P} (h : job ∈ (s.place target).waiting) :
    job ∈ ((s.apply acc p e).place target).waiting := by
  rcases place_apply acc s p e target with hplace | ⟨job', rfl, hplace⟩ | hplace
  · rwa [hplace]
  · rw [hplace]
    exact List.mem_append_left _ h
  · rwa [hplace]

theorem passage_of_mem_welcome {reg : Registry P} {lobby : ℕ} {players : SortedMap ℕ P} :
    ∀ m ∈ Lobby.welcome reg lobby players p, m.2.passage id = none := by
  intro m hm
  rcases List.mem_append.1 hm with hm | hm
  · obtain ⟨e, -, rfl⟩ := List.mem_map.1 hm
    rfl
  · obtain rfl := List.mem_singleton.1 hm
    rfl

theorem passage_of_mem_broadcast {reg : Registry P} {players : SortedMap ℕ P} {packet : Notice}
    (hpacket : packet.passage id = none) :
    ∀ m ∈ broadcast reg players packet, m.2.passage id = none := by
  intro m hm
  obtain ⟨e, -, rfl⟩ := List.mem_map.1 hm
  exact hpacket

/-- An access of a job that tells nothing about the player. -/
theorem pending_job {place place' : Place P} {job : Job P} {stage : Stage}
    (running : place.running = some (job, stage)) (hjob : stage = .body → job.passage id = none)
    (hwaiting : place'.waiting = place.waiting)
    (hnext : ∀ job, place'.running ≠ some (job, .body)) : place'.pending id = place.pending id := by
  have hstarting : place'.starting = [] := by
    unfold Place.starting
    split
    · next job hjob => exact absurd hjob (hnext job)
    · rfl
  have hsilent : place.starting.filterMap (Job.passage id) = [] := by
    unfold Place.starting
    rw [running]
    cases stage with
    | body => simp [hjob rfl]
    | _ => rfl
  rw [Place.pending, Place.pending, List.filterMap_append, List.filterMap_append, hstarting,
    hsilent, hwaiting]
  rfl

theorem pending_broadcast {place : Place P} {packet : Notice}
    (running : place.running = some (.broadcast packet, .body)) :
    place.pending id = (packet.passage id).toList ++
      place.waiting.filterMap (Job.passage id) := by
  rw [Place.pending, Place.starting, running]
  cases h : packet.passage id <;> simp [Job.passage, h]

variable [DecidableEq P]

/-- A player whose `Exit` or `Leave` waits is in the map. -/
theorem Present.has_of_exit {place : Place P} {w : Whereabouts} (h : Present p target place w)
    (hexit : .exit p ∈ place.waiting) : place.Has p := by
  by_contra hnot
  have hmem : false ∈ place.moves p :=
    List.mem_filterMap.2 ⟨_, List.mem_append_right _ hexit, if_pos rfl⟩
  rw [h.stays fun has => absurd has hnot, Whereabouts.enters] at hmem
  split_ifs at hmem <;> simp at hmem

end Queues

/-! ## The order of the notices -/

section Order

variable {acc : Accounts P} {s s' : State P} {w w' : P → Whereabouts} {p q : P} {room id : ℕ}

/-- A player with this id has been announced to the room, and its exit has not. -/
def Announced (acc : Accounts P) (s : State P) (w : P → Whereabouts) (room id : ℕ) : Prop :=
  ∃ p, acc.playerId p = id ∧ Inside s w room p

theorem announced_congr (h : ∀ p, Inside s' w' room p ↔ Inside s w room p) :
    Announced acc s' w' room id ↔ Announced acc s w room id :=
  exists_congr fun p => and_congr_right fun _ => h p

/-- The jobs announce the player whose `Enter` makes its last access, and nobody else. -/
theorem inside_of_settles {target : PlaceId} (settles : Settles s target w w')
    (notifies : ∀ p i, (s'.client p).Notifies i ↔ (s.client p).Notifies i) :
    Inside s' w' room p ↔ Inside s w room p ∨
      ⟨.room, room⟩ = target ∧ (s.place target).running = some (.enter p, .session) := by
  rw [Inside, Inside, settles, notifies, or_right_comm]

variable [DecidableEq P]

/-- All clients and places agree with the whereabouts of the players, a broadcast makes one access,
and a `Leave` waits until its `NotiRoomExit` is queued. -/
structure Ordered (acc : Accounts P) (s : State P) (w : P → Whereabouts) (room : ℕ) : Prop where
  located : Located acc s w
  body : ∀ target packet stage,
    (s.place target).running = some (.broadcast packet, stage) → stage = .body
  waits : ∀ p, (s.client p).Notifies room → .exit p ∈ (s.place ⟨.room, room⟩).waiting

/-- What a step does to the notices about a player: it adds the entry of a player that has not been
announced, the exit of one that has, or nothing. -/
inductive Passes (acc : Accounts P) (room id : ℕ) (q : P) (s : State P) (w : P → Whereabouts)
    (s' : State P) (w' : P → Whereabouts) : Prop
  | same (tells : s'.tells ⟨.room, room⟩ q id = s.tells ⟨.room, room⟩ q id)
      (announced : Announced acc s' w' room id ↔ Announced acc s w room id)
  | enter (tells : s'.tells ⟨.room, room⟩ q id = s.tells ⟨.room, room⟩ q id ++ [true])
      (before : ¬ Announced acc s w room id) (after : Announced acc s' w' room id)
  | exit (tells : s'.tells ⟨.room, room⟩ q id = s.tells ⟨.room, room⟩ q id ++ [false])
      (before : Announced acc s w room id) (after : ¬ Announced acc s' w' room id)

/-- A player that has been announced is in the map. -/
theorem Ordered.find_of_inside (inv : Ordered acc s w room) (inside : Inside s w room p) :
    (s.place ⟨.room, room⟩).players.find? (acc.playerId p) = some p := by
  rw [← inv.located.has_iff]
  rcases inside with hw | hnotifies
  · exact (inv.located.present p _).member (by rw [hw]; rfl)
  · exact (inv.located.present p _).has_of_exit (inv.waits p hnotifies)

/-- At most one player with this id has been announced. -/
theorem Ordered.eq_of_inside (inv : Ordered acc s w room) (inside : Inside s w room p)
    (inside' : Inside s w room q) (hid : acc.playerId q = acc.playerId p) : q = p := by
  have hfind := inv.find_of_inside inside'
  rw [hid, inv.find_of_inside inside] at hfind
  exact (Option.some.inj hfind).symm

/-- The access of a call of another client does not concern a player. -/
theorem inside_access {c' : Client} {e : Effect P} {w₀ : Whereabouts} (hq : q ≠ p) :
    Inside (s.access acc p (c', e)) (Function.update w p w₀) room q ↔ Inside s w room q := by
  rw [Inside, Inside, Function.update_of_ne hq, State.access, client_setClient, if_neg hq,
    client_apply]

theorem inside_access_self {c' : Client} {e : Effect P} {w₀ : Whereabouts} :
    Inside (s.access acc p (c', e)) (Function.update w p w₀) room p ↔
      w₀ = .settled (some ⟨.room, room⟩) ∨ c'.Notifies room := by
  rw [Inside, Function.update_self, State.access, client_setClient, if_pos rfl]

theorem told_access {c' : Client} {e : Effect P} {target : PlaceId} :
    (s.access acc p (c', e)).told target q id = s.told target q id := by
  rw [State.told, State.access, State.setClient, sent_apply, State.told]

theorem tells_access {c' : Client} {e : Effect P} {target : PlaceId}
    (silent : ∀ job, e = .doAsync target job → job.passage id = none) :
    (s.access acc p (c', e)).tells target q id = s.tells target q id := by
  show (s.access acc p (c', e)).told target q id ++ ((s.apply acc p e).place target).pending id = _
  rw [told_access, pending_apply silent, State.tells]

/-- A call makes its next access. -/
theorem Ordered.access (inv : Ordered acc s w room) {c' : Client} {e : Effect P}
    (moved : Moved p (s.client p) c' (w p) e) (announces : Announces acc p (s.client p) c' e) :
    Ordered acc (s.access acc p (c', e)) (Function.update w p ((w p).after e)) room := by
  refine ⟨inv.located.access moved, fun target packet stage hrunning => ?_, fun q hnotifies => ?_⟩
  · refine inv.body target packet stage (Eq.trans ?_ hrunning)
    show _ = ((s.apply acc p e).place target).running
    rcases place_apply acc s p e target with h | ⟨job, -, h⟩ | h <;> rw [h] <;> rfl
  show .exit q ∈ ((s.apply acc p e).place _).waiting
  rw [State.access, client_setClient] at hnotifies
  split_ifs at hnotifies with hq
  · subst hq
    cases announces with
    | leave before after =>
      rw [(after room).1 hnotifies]
      simp only [State.apply, place_setPlace, if_true]
      exact List.mem_append_right _ (List.mem_singleton_self _)
    | notify name before after => exact absurd hnotifies (after room)
    | other same leave silent => exact mem_waiting_apply (inv.waits q ((same room).1 hnotifies))
  · rw [client_apply] at hnotifies
    exact mem_waiting_apply (inv.waits q hnotifies)

theorem Ordered.passes_access (inv : Ordered acc s w room) {c' : Client} {e : Effect P}
    (moved : Moved p (s.client p) c' (w p) e) (announces : Announces acc p (s.client p) c' e) :
    Passes acc room id q s w (s.access acc p (c', e)) (Function.update w p ((w p).after e)) := by
  have hannounced : (Inside (s.access acc p (c', e)) (Function.update w p ((w p).after e)) room p ↔
      Inside s w room p) → (Announced acc (s.access acc p (c', e))
        (Function.update w p ((w p).after e)) room id ↔ Announced acc s w room id) := by
    intro hself
    refine announced_congr fun x => ?_
    by_cases hx : x = p
    · subst hx
      exact hself
    · exact inside_access hx
  cases announces with
  | @leave i before after =>
    obtain ⟨-, hw⟩ := moved.exit _ p rfl
    refine .same (tells_access fun job h => ?_) (hannounced ?_)
    · cases h
      rfl
    · rw [inside_access_self, Inside, hw, after]
      simp [Whereabouts.after, before, eq_comm]
  | @notify i name before after =>
    obtain ⟨hw, hroom⟩ := (inv.located.fits p).of_notifies before
    have hafter : ∀ e : Effect P, (w p).after e = w p → ¬ Inside (s.access acc p (c', e))
        (Function.update w p ((w p).after e)) room p := by
      intro e hstay
      rw [inside_access_self, hstay, hw]
      simp [after]
    by_cases hi : i = room
    · subst hi
      by_cases hid : acc.playerId p = id
      · refine .exit ?_ ⟨p, hid, .inr before⟩ ?_
        · show State.told _ _ _ _ ++ Place.pending (Function.update s.place _ _ _) _ = _
          rw [told_access, Function.update_self, pending_doAsync, ← List.append_assoc, State.tells,
            Job.passage, Notice.passage, if_pos hid]
          rfl
        · rintro ⟨x, hx, hinside⟩
          by_cases hxp : x = p
          · subst hxp
            exact hafter _ rfl hinside
          · exact hxp (inv.eq_of_inside (.inr before) ((inside_access hxp).1 hinside)
              (hx.trans hid.symm))
      · refine .same (tells_access fun job h => ?_) (exists_congr fun x =>
          and_congr_right fun hx => inside_access ?_)
        · cases h
          exact if_neg hid
        · rintro rfl
          exact hid hx
    · refine .same (tells_access fun job h => ?_) (hannounced ?_)
      · cases h
        exact absurd rfl hi
      · refine iff_of_false (hafter _ rfl) ?_
        rw [Inside, hw]
        rintro (h | h)
        · cases h
        · exact hi (hroom room h).symm
  | other same leave silent =>
    refine .same (tells_access fun job h => silent _ _ h _) (hannounced ?_)
    rw [inside_access_self, Inside, same]
    refine or_congr_left ?_
    cases e with
    | doAsync target job =>
      cases job with
      | enter x =>
        rw [(moved.enter target x rfl).2]
        simp [Whereabouts.after]
      | exit x =>
        obtain ⟨kind, index⟩ := target
        rw [(moved.exit _ x rfl).2]
        cases kind with
        | lobby => simp [Whereabouts.after]
        | room => exact absurd rfl (leave index x)
      | chat | broadcast => exact Iff.rfl
    | _ => exact Iff.rfl

/-! ## Jobs -/

theorem told_send (packets : List (P × Notice)) (target other : PlaceId) :
    (s.send target packets).told other q id = s.told other q id ++
      if target = other then (LobbyViews.received packets q).filterMap (Notice.passage id)
      else [] := by
  simp only [State.told, State.send, List.filter_append, List.map_append,
    LobbyViews.received_append, List.filterMap_append]
  congr 1
  split_ifs with h
  · subst h
    congr 2
    induction packets with
    | nil => rfl
    | cons m packets ih => simp [ih]
  · induction packets with
    | nil => rfl
    | cons m packets ih => simp [h, ih]

/-- Packets that tell nothing about the player. -/
theorem told_send_of_silent {packets : List (P × Notice)} {target other : PlaceId}
    (silent : ∀ m ∈ packets, m.2.passage id = none) :
    (s.send target packets).told other q id = s.told other q id := by
  have hnone : (LobbyViews.received packets q).filterMap (Notice.passage id) = [] := by
    refine List.filterMap_eq_nil_iff.2 fun packet hpacket => ?_
    obtain ⟨m, hm, rfl⟩ := List.mem_map.1 hpacket
    exact silent m (List.mem_filter.1 hm).1
  rw [told_send, hnone, ite_self, List.append_nil]

/-- A job of a place tells nothing about the player. -/
theorem tells_silent {place : Place P} {job : Job P} {stage : Stage} {target other : PlaceId}
    (hplace : s'.place = Function.update s.place target place)
    (hsent : s'.told other q id = s.told other q id)
    (running : (s.place target).running = some (job, stage))
    (hjob : stage = .body → job.passage id = none)
    (hwaiting : place.waiting = (s.place target).waiting)
    (hnext : ∀ job, place.running ≠ some (job, .body)) :
    s'.tells other q id = s.tells other q id := by
  rw [State.tells, State.tells, hsent, hplace, Function.update_apply]
  split_ifs with h
  · subst h
    rw [pending_job running hjob hwaiting hnext]
  · rfl

/-- A member whose session exists receives what its place broadcasts. -/
theorem Located.received_broadcast (inv : Located acc s w) {target : PlaceId} (packet : Notice)
    (attends : s.Attends acc target q) :
    LobbyViews.received (broadcast (s.registry acc) (s.place target).players packet) q =
      [packet] :=
  LobbyViews.received_broadcast (s.registry acc) packet
    (fun e he => inv.keyed target e.1 e.2 (SortedMap.find?_eq_some_iff.2 he))
    (SortedMap.find?_eq_some_iff.1 attends.member) attends.alive

/-- The jobs tell what was pending, but for the last access of an `Enter`. -/
theorem Located.tells_runJob (inv : Located acc s w) {target other : PlaceId}
    (hstep : runJob acc s target = some s') (attends : s.Attends acc other q)
    (body : ∀ packet stage, (s.place target).running = some (.broadcast packet, stage) →
      stage = .body)
    (hjob : ∀ p, (s.place target).running ≠ some (.enter p, .session)) :
    s'.tells other q id = s.tells other q id := by
  unfold runJob at hstep
  rcases hrunning : (s.place target).running with _ | ⟨job, stage⟩
  · simp only [hrunning] at hstep
    cases hstep
  have hrelease : stage = .release → s' = s.setPlace target { s.place target with
      availableSlots := (s.place target).availableSlots + 1, running := none } →
        s'.tells other q id = s.tells other q id := by
    rintro rfl rfl
    exact tells_silent rfl rfl hrunning nofun rfl nofun
  cases job with
  | enter p =>
    cases stage with
    | session => exact absurd hrunning (hjob p)
    | release =>
      simp only [hrunning, Option.some.injEq] at hstep
      exact hrelease rfl hstep.symm
    | body =>
      simp only [hrunning, Option.some.injEq] at hstep
      subst hstep
      refine tells_silent rfl rfl hrunning (fun _ => rfl) rfl ?_
      unfold enterBody
      split_ifs
      · exact nofun
      · split <;> exact nofun
    | _ =>
      simp only [hrunning, Option.some.injEq] at hstep
      subst hstep
      exact tells_silent rfl rfl hrunning nofun rfl nofun
  | exit p =>
    cases stage with
    | body =>
      simp only [hrunning] at hstep
      cases hfind : (s.place target).players.find? (acc.playerId p) with
      | none =>
        simp only [hfind, Option.some.injEq] at hstep
        subst hstep
        exact tells_silent rfl rfl hrunning (fun _ => rfl) rfl nofun
      | some q =>
        simp only [hfind, Option.some.injEq] at hstep
        subst hstep
        exact tells_silent rfl rfl hrunning (fun _ => rfl) rfl nofun
    | release =>
      simp only [hrunning, Option.some.injEq] at hstep
      cases hkind : target.kind with
      | lobby =>
        simp only [hkind] at hstep
        subst hstep
        exact tells_silent rfl (told_send_of_silent (passage_of_mem_broadcast rfl)) hrunning nofun
          rfl nofun
      | room =>
        simp only [hkind] at hstep
        exact hrelease rfl hstep.symm
    | _ =>
      simp only [hrunning] at hstep
      cases hstep
  | chat p message =>
    cases stage with
    | release =>
      simp only [hrunning, Option.some.injEq] at hstep
      exact hrelease rfl hstep.symm
    | _ =>
      simp only [hrunning, Option.some.injEq] at hstep
      subst hstep
      exact tells_silent rfl (told_send_of_silent (passage_of_mem_broadcast rfl)) hrunning
        (fun _ => rfl) rfl nofun
  | broadcast packet =>
    obtain rfl := body packet stage hrunning
    simp only [hrunning, Option.some.injEq] at hstep
    subst hstep
    by_cases hother : target = other
    · subst hother
      have hpending : ∀ packets, (((s.goOn target (s.place target).players none).send target
          packets).place target).pending id =
            (s.place target).waiting.filterMap (Job.passage id) := by
        simp [State.send, State.goOn, place_setPlace, Place.pending, Place.starting]
      have htold : (s.goOn target (s.place target).players none).told target q id =
        s.told target q id := rfl
      rw [State.tells, told_send, if_pos rfl, inv.received_broadcast packet attends, State.tells,
        pending_broadcast hrunning, hpending, htold, List.append_assoc]
      cases h : packet.passage id <;> simp [h]
    · have hplace : ∀ packets, ((s.goOn target (s.place target).players none).send target
          packets).place other = s.place other := by
        simp [State.send, State.goOn, place_setPlace, Ne.symm hother]
      have htold : (s.goOn target (s.place target).players none).told other q id =
        s.told other q id := rfl
      rw [State.tells, told_send, if_neg hother, List.append_nil, hplace, htold, State.tells]

/-- The jobs take nothing out of a queue, and their next access is not that of a broadcast. -/
theorem queue_jobStep {target : PlaceId} (h : JobStep acc s target s') (other : PlaceId) :
    (∀ job ∈ (s.place other).waiting, job ∈ (s'.place other).waiting) ∧
      ∀ packet stage, (s'.place other).running = some (.broadcast packet, stage) →
        (s.place other).running = some (.broadcast packet, stage) := by
  have hupdate : ∀ place : Place P, place.waiting = (s.place target).waiting →
      (∀ packet stage, place.running ≠ some (.broadcast packet, stage)) →
      (∀ job ∈ (s.place other).waiting,
        job ∈ (Function.update s.place target place other).waiting) ∧
      ∀ packet stage, (Function.update s.place target place other).running =
          some (.broadcast packet, stage) →
        (s.place other).running = some (.broadcast packet, stage) := by
    intro place hwaiting hrunning
    rw [Function.update_apply]
    split_ifs with hother
    · subst hother
      rw [hwaiting]
      exact ⟨fun _ => id, fun packet stage h => absurd h (hrunning packet stage)⟩
    · exact ⟨fun _ => id, fun _ _ => id⟩
  cases h with
  | @entered p running alive =>
    have hreturn := hupdate { s.place target with running := none } rfl nofun
    unfold State.entered
    cases target.kind with
    | lobby => exact hreturn
    | room =>
      cases (State.client (s.goOn target (s.place target).players none) p).current .room with
      | none => exact hreturn
      | some index =>
        simp only [place_setPlace]
        split_ifs with hother
        · subst hother
          exact ⟨fun job hjob => List.mem_append_left _ (hreturn.1 job hjob), hreturn.2⟩
        · exact hreturn
  | _ => exact hupdate _ rfl nofun

/-- The last access of an `Enter` queues the entry of its player. -/
theorem tells_entered {target : PlaceId}
    (running : (s.place target).running = some (.enter p, .session))
    (hcurrent : (s.client p).current target.kind = some target.index) :
    ((s.goOn target (s.place target).players none).entered acc target p).tells ⟨.room, room⟩ q id =
      s.tells ⟨.room, room⟩ q id ++
        if ⟨.room, room⟩ = target ∧ acc.playerId p = id then [true] else [] := by
  have hreturn : (s.goOn target (s.place target).players none).tells ⟨.room, room⟩ q id =
      s.tells ⟨.room, room⟩ q id :=
    tells_silent rfl rfl running nofun rfl nofun
  obtain ⟨kind, index⟩ := target
  cases kind with
  | lobby =>
    rw [if_neg (by simp), List.append_nil, ← hreturn]
    exact congrArg (· ++ _) (told_send_of_silent passage_of_mem_welcome)
  | room =>
    have hpointer : State.client (s.goOn ⟨.room, index⟩ (s.place ⟨.room, index⟩).players none) p =
      s.client p := rfl
    simp only [State.entered, hpointer, hcurrent]
    rw [← hreturn, State.tells, State.tells, List.append_assoc]
    refine congrArg₂ (· ++ ·) rfl ?_
    rw [place_setPlace]
    split_ifs with hroom hid hid
    · rw [pending_doAsync, hroom, Job.passage, Notice.passage, if_pos hid.2]
      rfl
    · rw [pending_doAsync, hroom, Job.passage, Notice.passage, if_neg fun h => hid ⟨hroom, h⟩]
      rfl
    · exact absurd hid.1 hroom
    · rw [List.append_nil]

theorem Ordered.runJob (inv : Ordered acc s w room) {target : PlaceId}
    (hstep : runJob acc s target = some s') :
    ∃ w', Ordered acc s' w' room ∧
      ∀ q id, s.Attends acc ⟨.room, room⟩ q → Passes acc room id q s w s' w' := by
  have hjob := jobStep_of_runJob acc hstep
  obtain ⟨w', located', settles⟩ := inv.located.jobStep hjob
  have hnotifies : ∀ p i, (s'.client p).Notifies i ↔ (s.client p).Notifies i := by
    intro p i
    obtain ⟨current, currentIndex, hclient⟩ := client_of_jobStep hjob p
    rw [hclient]
    exact notifies_congr rfl rfl i
  have hinside : ∀ p, Inside s' w' room p ↔ Inside s w room p ∨
      ⟨.room, room⟩ = target ∧ (s.place target).running = some (.enter p, .session) :=
    fun p => inside_of_settles settles hnotifies
  refine ⟨w', ⟨located', fun other packet stage hrunning => ?_, fun p hp => ?_⟩,
    fun q id attends => ?_⟩
  · exact inv.body other packet stage ((queue_jobStep hjob other).2 packet stage hrunning)
  · exact (queue_jobStep hjob _).1 _ (inv.waits p ((hnotifies p room).1 hp))
  by_cases hsession : ∃ p, (s.place target).running = some (.enter p, .session)
  · obtain ⟨p, running⟩ := hsession
    have hw : w p = .joining target .session := inv.located.joining running nofun nofun
    have fits := inv.located.fits p
    rw [hw] at fits
    have hcurrent : (s.client p).current target.kind = some target.index :=
      ((fits.points_of_moves rfl).pointer _ nofun).trans (indexIn_some target)
    have halive : (s.client p).alive = true :=
      fits.alive_of_connected (fits.connected (.inr (.inr rfl)))
    simp only [Server.runJob, running, halive, if_true, Option.some.injEq] at hstep
    have htells : s'.tells ⟨.room, room⟩ q id = s.tells ⟨.room, room⟩ q id ++
        if ⟨.room, room⟩ = target ∧ acc.playerId p = id then [true] else [] := by
      rw [← hstep]
      exact tells_entered running hcurrent
    simp only [running, Option.some.injEq, Prod.mk.injEq, Job.enter.injEq, and_true] at hinside
    split_ifs at htells with hid
    · obtain ⟨hroom, rfl⟩ := hid
      refine .enter htells ?_ ⟨p, rfl, (hinside p).2 (.inr ⟨hroom, rfl⟩)⟩
      rintro ⟨x, hx, inside⟩
      have hfind := inv.find_of_inside inside
      have hp := inv.located.has_iff.1 ((inv.located.present p target).member (by rw [hw]; rfl))
      rw [hx, hroom, hp] at hfind
      obtain rfl := Option.some.inj hfind
      rcases inside with hsettled | hnotify
      · rw [hw] at hsettled
        cases hsettled
      · cases (fits.of_notifies hnotify).1
    · refine .same (htells.trans (List.append_nil _)) (exists_congr fun x =>
        and_congr_right fun hx => (hinside x).trans (or_iff_left ?_))
      rintro ⟨hroom, rfl⟩
      exact hid ⟨hroom, hx⟩
  · refine .same (inv.located.tells_runJob hstep attends (inv.body target) fun p running =>
      hsession ⟨p, running⟩) (announced_congr fun p => (hinside p).trans (or_iff_left ?_))
    rintro ⟨-, running⟩
    exact hsession ⟨p, running⟩

/-! ## Runs -/

/-- Beginning a call changes no place, and begins before the `Leave` of the call. -/
theorem Located.frame_of_begin (inv : Located acc s w) {op : Op P} (begins : op.Begins)
    (hstep : Server.step acc s op = some s') :
    s'.place = s.place ∧ s'.sent = s.sent ∧
      ∀ q i, (s'.client q).Notifies i ↔ (s.client q).Notifies i := by
  have hset : ∀ {p : P} {c : Client}, s.setClient p c = s' →
      (∀ i, c.Notifies i ↔ (s.client p).Notifies i) → s'.place = s.place ∧ s'.sent = s.sent ∧
        ∀ q i, (s'.client q).Notifies i ↔ (s.client q).Notifies i := by
    rintro p c rfl hc
    refine ⟨rfl, rfl, fun q i => ?_⟩
    rw [client_setClient]
    split_ifs with hq
    · subst hq
      exact hc i
    · exact Iff.rfl
  have hrequest : ∀ {p : P} {pc : RequestPc}, (∀ i, pc ≠ .leave .lobby (.notify i)) →
      s.startRequest p pc = some s' → s'.place = s.place ∧ s'.sent = s.sent ∧
        ∀ q i, (s'.client q).Notifies i ↔ (s.client q).Notifies i := by
    intro p pc hpc h
    obtain ⟨⟨-, -, hidle⟩, heq⟩ := Option.ite_none_right_eq_some.1 h
    exact hset (Option.some.inj heq) fun i => by simp [Client.Notifies, hidle, hpc]
  cases op with
  | loginResult p ok =>
    obtain ⟨-, heq⟩ := Option.ite_none_right_eq_some.1 hstep
    exact hset (Option.some.inj heq) (notifies_congr rfl rfl)
  | reqRoomEnter p => exact hrequest (by simp) hstep
  | reqRoomExit p => exact hrequest (by simp) hstep
  | reqChat p kind message => exact hrequest (by simp) hstep
  | disconnect p =>
    obtain ⟨hconnected, heq⟩ := Option.ite_none_right_eq_some.1 hstep
    refine hset (Option.some.inj heq) fun i => ?_
    simp [Client.Notifies, (inv.fits p).online.2 hconnected]
  | destroy p =>
    obtain ⟨-, heq⟩ := Option.ite_none_right_eq_some.1 hstep
    exact hset (Option.some.inj heq) (notifies_congr rfl rfl)
  | _ => cases begins

theorem Ordered.begin (inv : Ordered acc s w room) {op : Op P} (begins : op.Begins)
    (orderly : Orderly s op) (hstep : Server.step acc s op = some s') :
    Ordered acc s' w room ∧ ∀ q id, Passes acc room id q s w s' w := by
  obtain ⟨hplace, hsent, hnotifies⟩ := inv.located.frame_of_begin begins hstep
  refine ⟨⟨inv.located.begin begins orderly hstep, ?_, fun p hp => ?_⟩,
    fun q id => .same ?_ ?_⟩
  · rw [hplace]
    exact inv.body
  · rw [hplace]
    exact inv.waits p ((hnotifies p room).1 hp)
  · rw [State.tells, State.told, hplace, hsent, State.tells, State.told]
  · exact announced_congr fun p => or_congr_right (hnotifies p room)

theorem Ordered.startJob (inv : Ordered acc s w room) {target : PlaceId} {job : Job P}
    {waiting : List (Job P)} (idle : (s.place target).running = none)
    (hwaiting : (s.place target).waiting = job :: waiting)
    (late : ∀ p, job = .exit p → target = ⟨.room, room⟩ → ¬ (s.client p).Notifies room) :
    let s' := s.setPlace target
      { s.place target with waiting := waiting, running := some (job, .body) }
    Ordered acc s' w room ∧ ∀ q id, Passes acc room id q s w s' w := by
  intro s'
  refine ⟨⟨inv.located.startJob idle hwaiting, fun other packet stage h => ?_, fun p hp => ?_⟩,
    fun q id => .same ?_ Iff.rfl⟩
  · rw [place_setPlace] at h
    split_ifs at h
    · cases h
      rfl
    · exact inv.body other packet stage h
  · have hexit := inv.waits p hp
    rw [place_setPlace]
    split_ifs with hroom
    · subst hroom
      rw [hwaiting] at hexit
      rcases List.mem_cons.1 hexit with hjob | hexit
      · exact absurd hp (late p hjob.symm rfl)
      · exact hexit
    · exact hexit
  · refine congrArg (s.told ⟨.room, room⟩ q id ++ ·) ?_
    rw [place_setPlace]
    split_ifs with hroom
    · subst hroom
      simp [Place.pending, Place.starting, idle, hwaiting]
    · rfl

theorem Ordered.step (inv : Ordered acc s w room) {op : Op P} (punctual : Punctual s op)
    (hstep : Server.step acc s op = some s') :
    ∃ w', Ordered acc s' w' room ∧
      ∀ q id, s.Attends acc ⟨.room, room⟩ q → Passes acc room id q s w s' w' := by
  cases op with
  | login p spurious =>
    obtain ⟨⟨c', e⟩, hlogin, rfl⟩ := Option.map_eq_some_iff.1 hstep
    have moved := moved_of_onLoginResult (inv.located.fits p) hlogin
    have announces : Announces acc p (s.client p) c' e :=
      announces_of_onLoginResult (inv.located.fits p) hlogin
    exact ⟨_, inv.access moved announces, fun _ _ _ => inv.passes_access moved announces⟩
  | request p spurious =>
    obtain ⟨⟨c', e⟩, hrequest, rfl⟩ := Option.map_eq_some_iff.1 hstep
    have moved := moved_of_handleRequest (inv.located.fits p) hrequest
    have announces := announces_of_handleRequest (inv.located.fits p) hrequest
    exact ⟨_, inv.access moved announces, fun _ _ _ => inv.passes_access moved announces⟩
  | onDisconnected p =>
    obtain ⟨⟨c', e⟩, hdisconnected, rfl⟩ := Option.map_eq_some_iff.1 hstep
    have moved := moved_of_onDisconnected (inv.located.fits p) hdisconnected
    have announces := announces_of_onDisconnected (inv.located.fits p) hdisconnected
    exact ⟨_, inv.access moved announces, fun _ _ _ => inv.passes_access moved announces⟩
  | startJob target =>
    simp only [Server.step] at hstep
    split at hstep
    · next job waiting idle hwaiting =>
      obtain rfl := Option.some.inj hstep
      have late : ∀ p, job = .exit p → target = ⟨.room, room⟩ →
          ¬ (s.client p).Notifies room := by
        rintro p rfl rfl
        exact punctual.2 p (by rw [hwaiting]; rfl)
      obtain ⟨inv', passes⟩ := inv.startJob idle hwaiting late
      exact ⟨w, inv', fun q id _ => passes q id⟩
    · cases hstep
  | runJob target => exact inv.runJob hstep
  | _ =>
    obtain ⟨inv', passes⟩ := inv.begin (by trivial) punctual.1 hstep
    exact ⟨w, inv', fun q id _ => passes q id⟩

theorem Ordered.initial : Ordered acc .initial (fun _ : P => .settled none) room where
  located := .initial
  body := nofun
  waits p h := by rcases h with h | h <;> cases h

theorem ordered_of_reach (room : ℕ) (h : (system acc).Reach Punctual s) :
    ∃ w, Ordered acc s w room := by
  refine h.invariant (P := fun s => ∃ w, Ordered acc s w room) ?_ ?_
  · rintro s rfl
    exact ⟨_, .initial⟩
  · rintro s op s' - ⟨w, inv⟩ punctual hstep
    obtain ⟨w', inv', -⟩ := inv.step punctual hstep
    exact ⟨w', inv'⟩

/-- Entries and exits in turn, the last one an entry if the player is announced. -/
def InTurn (acc : Accounts P) (s : State P) (w : P → Whereabouts) (room id : ℕ)
    (heard : List Bool) : Prop :=
  ∃ n, heard = turns n ∧ (n % 2 = 1 ↔ Announced acc s w room id)

theorem Passes.inTurn (passes : Passes acc room id q s w s' w') {before heard : List Bool}
    (inTurn : InTurn acc s w room id heard)
    (htells : s.tells ⟨.room, room⟩ q id = before ++ heard) :
    ∃ heard', InTurn acc s' w' room id heard' ∧
      s'.tells ⟨.room, room⟩ q id = before ++ heard' := by
  obtain ⟨n, rfl, hn⟩ := inTurn
  cases passes with
  | same tells announced => exact ⟨_, ⟨n, rfl, hn.trans announced.symm⟩, tells.trans htells⟩
  | enter tells absent present =>
    have hn : n % 2 = 0 := by
      have := mt hn.1 absent
      omega
    refine ⟨_, ⟨n + 1, rfl, iff_of_true (by omega) present⟩, ?_⟩
    rw [tells, htells, turns, hn, List.append_assoc]
    rfl
  | exit tells present absent =>
    have hn : n % 2 = 1 := hn.2 present
    refine ⟨_, ⟨n + 1, rfl, iff_of_false (by omega) absent⟩, ?_⟩
    rw [tells, htells, turns, hn, List.append_assoc]
    rfl

/-- While a member attends, the entries and exits of a player are told in turn. -/
theorem Ordered.tells_of_reach {s₀ : State P} {w₀ : P → Whereabouts}
    (inv₀ : Ordered acc s₀ w₀ room) (absent₀ : ¬ Announced acc s₀ w₀ room id)
    (h : (systemFrom acc (· = s₀)).Reach
      (fun s op => Punctual s op ∧ s.Attends acc ⟨.room, room⟩ q) s) :
    ∃ w heard, Ordered acc s w room ∧ InTurn acc s w room id heard ∧
      s.tells ⟨.room, room⟩ q id = s₀.tells ⟨.room, room⟩ q id ++ heard := by
  refine h.invariant (P := fun s => ∃ w heard, Ordered acc s w room ∧
    InTurn acc s w room id heard ∧
      s.tells ⟨.room, room⟩ q id = s₀.tells ⟨.room, room⟩ q id ++ heard) ?_ ?_
  · rintro _ rfl
    exact ⟨w₀, [], inv₀, ⟨0, rfl, iff_of_false nofun absent₀⟩, (List.append_nil _).symm⟩
  · rintro s op s' - ⟨w, heard, inv, inTurn, htells⟩ ⟨punctual, attends⟩ hstep
    obtain ⟨w', inv', passes⟩ := inv.step punctual hstep
    obtain ⟨heard', inTurn', htells'⟩ := (passes q id attends).inTurn inTurn htells
    exact ⟨w', heard', inv', inTurn', htells'⟩

/-- In a room without jobs, the players in the map are those that have been announced. -/
theorem Ordered.announced_iff (inv : Ordered acc s w room)
    (waiting : (s.place ⟨.room, room⟩).waiting = [])
    (running : (s.place ⟨.room, room⟩).running = none) :
    Announced acc s w room id ↔ (s.place ⟨.room, room⟩).players.find? id ≠ none := by
  constructor
  · rintro ⟨p, rfl, inside⟩
    rw [inv.find_of_inside inside]
    exact nofun
  · intro hfind
    obtain ⟨p, hp⟩ := Option.ne_none_iff_exists'.1 hfind
    have hpresent := inv.located.present p ⟨.room, room⟩
    have hplace : (w p).place = some ⟨.room, room⟩ := by
      by_contra hne
      have hmoves := hpresent.leaves ⟨id, hp⟩ hne
      simp [Place.moves, Place.starting, waiting, running] at hmoves
    refine ⟨p, (inv.located.keyed _ id p hp).symm, .inl ?_⟩
    cases hw : w p with
    | settled place =>
      rw [hw] at hplace
      exact congrArg _ hplace
    | entering target =>
      rw [hw] at hplace
      cases hplace
    | joining target stage =>
      rw [hw] at hplace
      obtain rfl := Option.some.inj hplace
      rw [((hpresent.joins stage).1 hw).1] at running
      cases running

/-- In a punctual run, a member that attends from a moment on at which a player is not in the room
and nothing is queued about it is told of its entries and exits in turn: whenever the room has no
job, as many exits as entries and last an exit if the player is not in the map, and last an entry if
it is. -/
theorem room_notices_in_order {s₀ : State P} (h₀ : (system acc).Reach Punctual s₀)
    (absent₀ : (s₀.place ⟨.room, room⟩).players.find? (acc.playerId p) = none)
    (silent₀ : (s₀.place ⟨.room, room⟩).pending (acc.playerId p) = [])
    (h : (systemFrom acc (· = s₀)).Reach
      (fun s op => Punctual s op ∧ s.Attends acc ⟨.room, room⟩ q) s)
    (waiting : (s.place ⟨.room, room⟩).waiting = [])
    (running : (s.place ⟨.room, room⟩).running = none) :
    ∃ heard, s.told ⟨.room, room⟩ q (acc.playerId p) =
        s₀.told ⟨.room, room⟩ q (acc.playerId p) ++ heard ∧
      ((s.place ⟨.room, room⟩).players.find? (acc.playerId p) = none →
        heard.count true = heard.count false ∧ heard.getLast? ≠ some true) ∧
      ((s.place ⟨.room, room⟩).players.find? (acc.playerId p) ≠ none →
        heard.getLast? = some true) := by
  obtain ⟨w₀, inv₀⟩ := ordered_of_reach room h₀
  have hannounced₀ : ¬ Announced acc s₀ w₀ room (acc.playerId p) := by
    rintro ⟨x, hx, inside⟩
    rw [← hx, inv₀.find_of_inside inside] at absent₀
    cases absent₀
  obtain ⟨w, heard, inv, ⟨n, rfl, hn⟩, htells⟩ := inv₀.tells_of_reach hannounced₀ h
  have hpending : (s.place ⟨.room, room⟩).pending (acc.playerId p) = [] := by
    rw [Place.pending, Place.starting, waiting, running]
    rfl
  rw [State.tells, hpending, State.tells, silent₀, List.append_nil, List.append_nil] at htells
  rw [inv.announced_iff waiting running] at hn
  obtain ⟨hentries, hexits⟩ := count_turns n
  refine ⟨turns n, htells, fun hnone => ⟨?_, ?_⟩, fun hsome => ?_⟩
  · have := mt hn.1 (not_not.2 hnone)
    omega
  · have hodd := mt hn.1 (not_not.2 hnone)
    cases n with
    | zero => simp [turns]
    | succ n =>
      rw [getLast?_turns, decide_eq_false (by omega)]
      simp
  · have hodd := hn.2 hsome
    obtain ⟨m, rfl⟩ : ∃ m, n = m + 1 := ⟨n - 1, by omega⟩
    rw [getLast?_turns, decide_eq_true (by omega)]

/-- Two sessions with the accounts 0 and 1. -/
def twoAccounts : Accounts (Fin 2) := ⟨Fin.val, fun _ => [65]⟩

/-- A player enters the room of another one and leaves it again. -/
theorem room_notices_in_order_enter_exit :
    ∃ s₀ s : State (Fin 2), (system twoAccounts).Reach Punctual s₀ ∧
      (systemFrom twoAccounts (· = s₀)).Reach (fun s op =>
        Punctual s op ∧ s.Attends twoAccounts ⟨.room, 0⟩ 1) s ∧
      s.told ⟨.room, 0⟩ 1 0 = [true, false] ∧
      ∃ heard, s.told ⟨.room, 0⟩ 1 0 = s₀.told ⟨.room, 0⟩ 1 0 ++ heard ∧
        heard.count true = heard.count false ∧ heard.getLast? ≠ some true := by
  -- The run is cut where a player is moved, as it is there that nothing may be under way.
  obtain ⟨s₁, hrun₁, hquiescent₁, hclient₁, s₂, hstep₂, s₀, hrun₀, habsent₀, hsilent₀, hattends₀,
      hquiescent₀, hclient₀, s₃, hstep₃, s₄, hrun₄, hattends₄, hquiescent₄, hclient₄, s₅, hstep₅,
      s, hrun, hwaiting, hrunning, habsent, htold⟩ :
      ∃ s₁ : State (Fin 2), (system twoAccounts).runWhen (fun s op => decide (Waits s op)) .initial
        (List.flatten [
          .loginResult 1 true :: List.replicate 12 (.login 1 false),
          .startJob ⟨.lobby, 0⟩ :: List.replicate 4 (.runJob ⟨.lobby, 0⟩)]) = some s₁ ∧
      s₁.Quiescent ∧ ((s₁.client 1).connected = true ∧ (s₁.client 1).current .room = none ∧
        (s₁.client 1).login = .idle ∧ (s₁.client 1).request = .idle) ∧
      ∃ s₂, step twoAccounts s₁ (.reqRoomEnter 1) = some s₂ ∧
      ∃ s₀, (system twoAccounts).runWhen (fun s op => decide (Waits s op)) s₂
        (List.flatten [
          List.replicate 7 (.request 1 false),
          .startJob ⟨.lobby, 0⟩ :: List.replicate 2 (.runJob ⟨.lobby, 0⟩),
          .startJob ⟨.room, 0⟩ :: List.replicate 4 (.runJob ⟨.room, 0⟩),
          [.startJob ⟨.room, 0⟩, .runJob ⟨.room, 0⟩],
          .loginResult 0 true :: List.replicate 12 (.login 0 false),
          .startJob ⟨.lobby, 0⟩ :: List.replicate 4 (.runJob ⟨.lobby, 0⟩)]) = some s₀ ∧
      (s₀.place ⟨.room, 0⟩).players.find? 0 = none ∧ (s₀.place ⟨.room, 0⟩).pending 0 = [] ∧
      s₀.Attends twoAccounts ⟨.room, 0⟩ 1 ∧
      s₀.Quiescent ∧ ((s₀.client 0).connected = true ∧ (s₀.client 0).current .room = none ∧
        (s₀.client 0).login = .idle ∧ (s₀.client 0).request = .idle) ∧
      ∃ s₃, step twoAccounts s₀ (.reqRoomEnter 0) = some s₃ ∧
      ∃ s₄, (systemFrom twoAccounts (· = s₀)).runWhen
        (fun s op => decide (Waits s op ∧ s.Attends twoAccounts ⟨.room, 0⟩ 1)) s₃
        (List.flatten [
          List.replicate 7 (.request 0 false),
          .startJob ⟨.lobby, 0⟩ :: List.replicate 2 (.runJob ⟨.lobby, 0⟩),
          .startJob ⟨.room, 0⟩ :: List.replicate 4 (.runJob ⟨.room, 0⟩),
          [.startJob ⟨.room, 0⟩, .runJob ⟨.room, 0⟩]]) = some s₄ ∧
      s₄.Attends twoAccounts ⟨.room, 0⟩ 1 ∧
      s₄.Quiescent ∧ ((s₄.client 0).connected = true ∧ (s₄.client 0).current .lobby = none ∧
        (s₄.client 0).login = .idle ∧ (s₄.client 0).request = .idle) ∧
      ∃ s₅, step twoAccounts s₄ (.reqRoomExit 0) = some s₅ ∧
      ∃ s, (systemFrom twoAccounts (· = s₀)).runWhen
        (fun s op => decide (Waits s op ∧ s.Attends twoAccounts ⟨.room, 0⟩ 1)) s₅
        (List.flatten [
          List.replicate 5 (.request 0 false),
          .startJob ⟨.room, 0⟩ :: List.replicate 2 (.runJob ⟨.room, 0⟩),
          [.startJob ⟨.room, 0⟩, .runJob ⟨.room, 0⟩]]) = some s ∧
      (s.place ⟨.room, 0⟩).waiting = [] ∧ (s.place ⟨.room, 0⟩).running = none ∧
      (s.place ⟨.room, 0⟩).players.find? 0 = none ∧ s.told ⟨.room, 0⟩ 1 0 = [true, false] := by
    refine Transition.System.exists_final (by decide +kernel) ⟨?_, by decide +kernel,
      Transition.System.exists_final (by decide +kernel)
        (Transition.System.exists_final (by decide +kernel)
      ⟨by decide +kernel, by decide +kernel, by decide +kernel, ?_, by decide +kernel,
      Transition.System.exists_final (by decide +kernel)
        (Transition.System.exists_final (by decide +kernel)
      ⟨by decide +kernel, ?_, by decide +kernel,
      Transition.System.exists_final (by decide +kernel)
        (Transition.System.exists_final (by decide +kernel)
      ⟨by decide +kernel, by decide +kernel, by decide +kernel, by decide +kernel⟩)⟩)⟩)⟩
    all_goals rintro ⟨_ | _, _ | _⟩ <;> exact ⟨rfl, rfl⟩
  have hreach₁ : (system twoAccounts).Reach Punctual s₁ :=
    Transition.System.reach_of_runWhen_of (.init rfl) (by simp [Punctual, Orderly]) hrun₁
  have horderly₁ : Orderly s₁ (.reqRoomEnter 1) :=
    ⟨hclient₁.1, not_moving_of_quiescent hquiescent₁ hclient₁.2.2, hclient₁.2.1⟩
  have hreach₀ : (system twoAccounts).Reach Punctual s₀ :=
    Transition.System.reach_of_runWhen_of (hreach₁.step ⟨horderly₁, trivial⟩ hstep₂)
      (by simp [Punctual, Orderly]) hrun₀
  have horderly₀ : Orderly s₀ (.reqRoomEnter 0) :=
    ⟨hclient₀.1, not_moving_of_quiescent hquiescent₀ hclient₀.2.2, hclient₀.2.1⟩
  have hreach₄ : (systemFrom twoAccounts (· = s₀)).Reach
      (fun s op => Punctual s op ∧ s.Attends twoAccounts ⟨.room, 0⟩ 1) s₄ :=
    Transition.System.reach_of_runWhen_of
      (.step (.init rfl) ⟨⟨horderly₀, trivial⟩, hattends₀⟩ hstep₃)
      (by simp +contextual [Punctual, Orderly]) hrun₄
  have horderly₄ : Orderly s₄ (.reqRoomExit 0) :=
    ⟨hclient₄.1, not_moving_of_quiescent hquiescent₄ hclient₄.2.2, hclient₄.2.1⟩
  have hreach : (systemFrom twoAccounts (· = s₀)).Reach
      (fun s op => Punctual s op ∧ s.Attends twoAccounts ⟨.room, 0⟩ 1) s :=
    Transition.System.reach_of_runWhen_of
      (hreach₄.step ⟨⟨horderly₄, trivial⟩, hattends₄⟩ hstep₅)
      (by simp +contextual [Punctual, Orderly]) hrun
  obtain ⟨heard, hheard, hnone, -⟩ := room_notices_in_order (p := 0) hreach₀ habsent₀ hsilent₀
    hreach hwaiting hrunning
  exact ⟨s₀, s, hreach₀, hreach, htold, heard, hheard, hnone habsent⟩

/-- The player is asked to leave between `SetCurrentRoom` and the end of `Room::Enter`: the members
are told that it leaves and never that it entered. -/
theorem room_exit_without_enter :
    ∃ s₀ s : State (Fin 2), (system twoAccounts).Reachable s₀ ∧
      (s₀.place ⟨.room, 0⟩).players.find? 0 = none ∧ (s₀.place ⟨.room, 0⟩).pending 0 = [] ∧
      (systemFrom twoAccounts (· = s₀)).Reach (fun s _ =>
        s.Attends twoAccounts ⟨.room, 0⟩ 1) s ∧
      s.Quiescent ∧ (s.place ⟨.room, 0⟩).players.find? 0 = none ∧
      s₀.told ⟨.room, 0⟩ 1 0 = [] ∧ s.told ⟨.room, 0⟩ 1 0 = [false] := by
  obtain ⟨s₀, hrun₀, habsent₀, hsilent₀, htold₀, s, hrun, hfacts⟩ :
      ∃ s₀ : State (Fin 2), (system twoAccounts).run .initial
        (List.flatten [
          .loginResult 1 true :: List.replicate 12 (.login 1 false),
          .startJob ⟨.lobby, 0⟩ :: List.replicate 4 (.runJob ⟨.lobby, 0⟩),
          .reqRoomEnter 1 :: List.replicate 7 (.request 1 false),
          .startJob ⟨.lobby, 0⟩ :: List.replicate 2 (.runJob ⟨.lobby, 0⟩),
          .startJob ⟨.room, 0⟩ :: List.replicate 4 (.runJob ⟨.room, 0⟩),
          [.startJob ⟨.room, 0⟩, .runJob ⟨.room, 0⟩]]) = some s₀ ∧
      (s₀.place ⟨.room, 0⟩).players.find? 0 = none ∧ (s₀.place ⟨.room, 0⟩).pending 0 = [] ∧
      s₀.told ⟨.room, 0⟩ 1 0 = [] ∧
      ∃ s, (systemFrom twoAccounts (· = s₀)).runWhen
        (fun s _ => decide (s.Attends twoAccounts ⟨.room, 0⟩ 1)) s₀
        (List.flatten [
          .loginResult 0 true :: List.replicate 12 (.login 0 false),
          .startJob ⟨.lobby, 0⟩ :: List.replicate 4 (.runJob ⟨.lobby, 0⟩),
          .reqRoomEnter 0 :: List.replicate 7 (.request 0 false),
          .startJob ⟨.lobby, 0⟩ :: List.replicate 2 (.runJob ⟨.lobby, 0⟩),
          .startJob ⟨.room, 0⟩ :: List.replicate 3 (.runJob ⟨.room, 0⟩),
          .reqRoomExit 0 :: List.replicate 5 (.request 0 false),
          [.runJob ⟨.room, 0⟩],
          .startJob ⟨.room, 0⟩ :: List.replicate 2 (.runJob ⟨.room, 0⟩),
          [.startJob ⟨.room, 0⟩, .runJob ⟨.room, 0⟩],
          List.replicate 9 (.request 0 false),
          .startJob ⟨.lobby, 0⟩ :: List.replicate 4 (.runJob ⟨.lobby, 0⟩)]) = some s ∧
      s.Quiescent ∧ (s.place ⟨.room, 0⟩).players.find? 0 = none ∧
      s.told ⟨.room, 0⟩ 1 0 = [false] := by
    refine Transition.System.exists_final (by decide +kernel) ⟨by decide +kernel, by decide +kernel,
      by decide +kernel, Transition.System.exists_final (by decide +kernel) ⟨?_, by decide +kernel,
      by decide +kernel⟩⟩
    rintro ⟨_ | _, _ | _⟩ <;> exact ⟨rfl, rfl⟩
  obtain ⟨hquiescent, habsent, htold⟩ := hfacts
  exact ⟨s₀, s, Transition.System.reachable_of_run (.init rfl) hrun₀, habsent₀, hsilent₀,
    Transition.System.reach_of_runWhen_of (.init rfl) (fun _ _ _ => of_decide_eq_true) hrun,
    hquiescent, habsent, htold₀, htold⟩

end Order

end Server

end DhNet
