import DhNet.Game.LocationProof
import DhNet.Game.SlotsProof

/-!
# A player that is logged in is somewhere

A player that moves leaves its old place before it has a new one, and when `AssignLobby` returns
`nullptr` there is no new one.  The login result and `LeaveRoomAndReenterLobby` then return without
an `Enter`, although `ResLogin` has been sent or the `Leave` is queued.

* `Place.WillHave`: the player is in the map when the jobs of the place are done.
* `Accommodates`: `AssignLobby` finds a slot, and the jobs of a player find no other player under
  its account id.
* `WillHave.jobStep`: the jobs of a place keep what it will have.
* `no_player_nowhere`: in a run of such steps, whenever no job waits or runs, a player whose calls
  have returned is in a lobby or a room.

No order of the moves is assumed: each of them ends with an `Enter`, which is queued behind the
`Exit` or `Leave` of the earlier ones.
-/

namespace DhNet

namespace Server

variable {P : Type*}

/-! ## Players at rest -/

/-- The session is connected, its login has been confirmed, and no call is moving its player. -/
structure Client.Resting (c : Client) : Prop where
  connected : c.connected = true
  hasPlayer : c.hasPlayer = true
  login : c.login = .idle
  request : c.request.moves = false

/-- `AssignLobby` has not got past the last lobby. -/
def Search.InLobbies : Search → Prop
  | .scan i _ => i < maxLobbyCount
  | _ => True

/-- The lobby that a login result looks for, if it does, is not missed. -/
def LoginPc.InLobbies : LoginPc → Prop
  | .assignLobby search => search.InLobbies
  | _ => True

/-- The lobby that a request looks for, if it does, is not missed. -/
def RequestPc.InLobbies : RequestPc → Prop
  | .search .lobby place => place.InLobbies
  | _ => True

/-- The player of the `Enter`, `Exit` or `Leave` that is about to start. -/
def Place.mover (place : Place P) : Option P :=
  match place.running with
  | some (.enter p, .body) | some (.exit p, .body) => some p
  | _ => none

/-- `AssignLobby` does not get past the last lobby, and an `Enter`, `Exit` or `Leave` finds nobody
else under the account id of its player. -/
def Accommodates (acc : Accounts P) (s : State P) : Op P → Prop
  | .login p _ => (s.client p).login.InLobbies
  | .request p _ => (s.client p).request.InLobbies
  | .runJob target => ∀ p ∈ (s.place target).mover,
      ∀ q ∈ (s.place target).players.find? (acc.playerId p), q = p
  | _ => True

instance : (search : Search) → Decidable search.InLobbies
  | .scan i _ => inferInstanceAs (Decidable (i < maxLobbyCount))
  | .count _ _ _ | .best _ _ => isTrue trivial

instance : (login : LoginPc) → Decidable login.InLobbies
  | .assignLobby search => inferInstanceAs (Decidable search.InLobbies)
  | .idle | .isConnected _ | .reject | .setPlayer | .add | .doAsync _ => isTrue trivial

instance : (request : RequestPc) → Decidable request.InLobbies
  | .search .lobby search => inferInstanceAs (Decidable search.InLobbies)
  | .search .room _ | .idle | .leave _ _ | .makeRoom | .doAsync _ | .chatLock _ _
  | .chatAsync _ _ => isTrue trivial

instance [DecidableEq P] (acc : Accounts P) (s : State P) :
    (op : Op P) → Decidable (Accommodates acc s op)
  | .login p _ => inferInstanceAs (Decidable (s.client p).login.InLobbies)
  | .request p _ => inferInstanceAs (Decidable (s.client p).request.InLobbies)
  | .runJob target => inferInstanceAs (Decidable (∀ p ∈ (s.place target).mover,
      ∀ q ∈ (s.place target).players.find? (acc.playerId p), q = p))
  | .loginResult _ _ | .reqRoomEnter _ | .reqRoomExit _ | .reqChat _ _ _ | .disconnect _
  | .destroy _ | .onDisconnected _ | .startJob _ => isTrue trivial

/-- What an access of a call of the player may do to a player at rest. -/
structure Rests (p : P) (c c' : Client) (e : Effect P) : Prop where
  home : c'.Resting → (∃ target, e = .doAsync target (.enter p)) ∨
    c.Resting ∧ ∀ target, e ≠ .doAsync target (.exit p)
  exit : ∀ target q, e = .doAsync target (.exit q) → q = p
  online : c'.connected = true → c.connected = true ∧ c'.disconnect = c.disconnect
  alive : c'.alive = c.alive

theorem Search.scan_of_failed {places : ℕ} {availableSlots : ℕ → ℤ} {spurious : Bool}
    {search : Search} (h : search.next places availableSlots spurious = .failed) :
    ∃ i pc, search = .scan i pc ∧ places ≤ i := by
  cases search with
  | count i fullest bestCount =>
    simp only [Search.next] at h
    split_ifs at h
    cases fullest <;> cases h
  | best i pc =>
    simp only [Search.next] at h
    cases hout : tryReserveSlot (availableSlots i) spurious pc <;> simp only [hout] at h <;> cases h
  | scan i pc =>
    simp only [Search.next] at h
    split_ifs at h with hi
    · cases hout : tryReserveSlot (availableSlots i) spurious pc <;> simp only [hout] at h <;>
        cases h
    · exact ⟨i, pc, rfl, not_lt.1 hi⟩

section Calls

variable {acc : Accounts P} {p : P} {c c' : Client} {e : Effect P} {availableSlots : PlaceId → ℤ}
  {spurious : Bool}

theorem rests_of_onLoginResult
    (h : onLoginResult p availableSlots spurious c = some (c', e))
    (slot : c.login.InLobbies) : Rests p c c' e := by
  unfold onLoginResult at h
  cases hlogin : c.login with
  | idle =>
    simp only [hlogin] at h
    cases h
  | isConnected ok =>
    simp only [hlogin, Option.some.injEq, Prod.mk.injEq] at h
    obtain ⟨rfl, rfl⟩ := h
    refine ⟨fun resting => ?_, nofun, fun h => ⟨h, rfl⟩, rfl⟩
    have hidle := resting.login
    simp only [show c.connected = true from resting.connected] at hidle
    cases ok <;> cases hidle
  | reject =>
    simp only [hlogin, Option.some.injEq, Prod.mk.injEq] at h
    obtain ⟨rfl, rfl⟩ := h
    exact ⟨fun resting => (nomatch resting.connected), nofun, nofun, rfl⟩
  | setPlayer | add =>
    simp only [hlogin, Option.some.injEq, Prod.mk.injEq] at h
    obtain ⟨rfl, rfl⟩ := h
    exact ⟨fun resting => (nomatch resting.login), nofun, fun h => ⟨h, rfl⟩, rfl⟩
  | assignLobby search =>
    simp only [hlogin, Option.some.injEq] at h
    cases hnext : search.next maxLobbyCount (fun i => availableSlots ⟨.lobby, i⟩) spurious with
    | again search | reserved lobby =>
      simp only [hnext, Prod.mk.injEq] at h
      obtain ⟨rfl, rfl⟩ := h
      exact ⟨fun resting => (nomatch resting.login), nofun, fun h => ⟨h, rfl⟩, rfl⟩
    | failed =>
      obtain ⟨i, pc, rfl, hi⟩ := Search.scan_of_failed hnext
      rw [hlogin] at slot
      exact absurd slot (not_lt.2 hi)
  | doAsync lobby =>
    simp only [hlogin, Option.some.injEq, Prod.mk.injEq] at h
    obtain ⟨rfl, rfl⟩ := h
    exact ⟨fun _ => .inl ⟨_, rfl⟩, nofun, fun h => ⟨h, rfl⟩, rfl⟩

/-- `LeaveLobby` and `LeaveRoom` queue no `Exit` or `Leave` of another player. -/
theorem exit_of_leave {kind : Kind} {pc : LeavePc} {target : PlaceId} {q : P}
    (h : (leave acc p kind c pc).2.1 = .doAsync target (.exit q)) : q = p := by
  cases pc with
  | doAsync index =>
    cases h
    rfl
  | _ => cases h

theorem rests_of_handleRequest {roomNum : ℕ}
    (h : handleRequest acc p roomNum availableSlots spurious c = some (c', e))
    (slot : c.request.InLobbies) : Rests p c c' e := by
  unfold handleRequest at h
  cases hrequest : c.request with
  | idle =>
    simp only [hrequest] at h
    cases h
  | leave target pc =>
    simp only [hrequest, Option.some.injEq, Prod.mk.injEq] at h
    obtain ⟨rfl, rfl⟩ := h
    obtain ⟨current, currentIndex, hclient⟩ := leave_client acc p target.other c pc
    refine ⟨fun resting => ?_, fun _ _ => exit_of_leave, fun hconnected => ?_, ?_⟩
    · have hstill := resting.request
      cases hnext : (leave acc p target.other c pc).2.2 <;> simp only [hnext] at hstill <;>
        cases hstill
    · rw [hclient] at hconnected ⊢
      exact ⟨hconnected, rfl⟩
    · rw [hclient]
  | search target search =>
    simp only [hrequest, Option.some.injEq] at h
    cases hnext : search.next (target.places roomNum) (fun i => availableSlots ⟨target, i⟩)
      spurious with
    | again search | reserved index =>
      simp only [hnext, Prod.mk.injEq] at h
      obtain ⟨rfl, rfl⟩ := h
      exact ⟨fun resting => (nomatch resting.request), nofun, fun h => ⟨h, rfl⟩, rfl⟩
    | failed =>
      simp only [hnext, Prod.mk.injEq] at h
      obtain ⟨rfl, rfl⟩ := h
      cases target with
      | lobby =>
        obtain ⟨i, pc, rfl, hi⟩ := Search.scan_of_failed hnext
        rw [hrequest] at slot
        exact absurd slot (not_lt.2 hi)
      | room => exact ⟨fun resting => (nomatch resting.request), nofun, fun h => ⟨h, rfl⟩, rfl⟩
  | makeRoom =>
    simp only [hrequest, Option.some.injEq, Prod.mk.injEq] at h
    obtain ⟨rfl, rfl⟩ := h
    exact ⟨fun resting => (nomatch resting.request), nofun, fun h => ⟨h, rfl⟩, rfl⟩
  | doAsync target =>
    simp only [hrequest, Option.some.injEq, Prod.mk.injEq] at h
    obtain ⟨rfl, rfl⟩ := h
    exact ⟨fun _ => .inl ⟨_, rfl⟩, nofun, fun h => ⟨h, rfl⟩, rfl⟩
  | chatLock kind message =>
    simp only [hrequest, Option.some.injEq, Prod.mk.injEq] at h
    obtain ⟨rfl, rfl⟩ := h
    refine ⟨fun resting => .inr ⟨⟨resting.connected, resting.hasPlayer, resting.login, ?_⟩, nofun⟩,
      nofun, fun h => ⟨h, rfl⟩, rfl⟩
    rw [hrequest]
    rfl
  | chatAsync target message =>
    simp only [hrequest, Option.some.injEq, Prod.mk.injEq] at h
    obtain ⟨rfl, rfl⟩ := h
    refine ⟨fun resting => .inr ⟨⟨resting.connected, resting.hasPlayer, resting.login, ?_⟩, ?_⟩,
      ?_, fun h => ⟨h, rfl⟩, rfl⟩
    · rw [hrequest]
      rfl
    · cases target.kind <;> exact nofun
    · cases target.kind <;> exact nofun

theorem rests_of_onDisconnected (h : onDisconnected acc p c = some (c', e))
    (online : c.connected = true → c.disconnect = .idle) : Rests p c c' e := by
  have hoffline : c.connected = false := by
    by_contra hconnected
    have hidle := online (Bool.eq_true_of_not_eq_false hconnected)
    simp only [onDisconnected, hidle] at h
    cases h
  unfold onDisconnected at h
  cases hdisconnect : c.disconnect with
  | idle | done =>
    simp only [hdisconnect] at h
    cases h
  | leave kind pc =>
    simp only [hdisconnect, Option.some.injEq, Prod.mk.injEq] at h
    obtain ⟨rfl, rfl⟩ := h
    obtain ⟨current, currentIndex, hclient⟩ := leave_client acc p kind c pc
    refine ⟨fun resting => ?_, fun _ _ => exit_of_leave, fun hconnected => ?_, ?_⟩
    · have hconnected := resting.connected
      rw [hclient] at hconnected
      exact nomatch hoffline.symm.trans hconnected
    · rw [hclient] at hconnected
      exact nomatch hoffline.symm.trans hconnected
    · rw [hclient]
  | _ =>
    simp only [hdisconnect, Option.some.injEq, Prod.mk.injEq] at h
    obtain ⟨rfl, rfl⟩ := h
    exact ⟨fun resting => (nomatch hoffline.symm.trans resting.connected), nofun,
      fun hconnected => (nomatch hoffline.symm.trans hconnected), rfl⟩

end Calls

/-! ## What a place will have -/

variable [DecidableEq P]

/-- The player is in the map when the jobs of the place are done: its last move there is an `Enter`,
or it has none and is in the map already. -/
def Place.WillHave (place : Place P) (p : P) : Prop :=
  match (place.moves p).getLast? with
  | some enters => enters = true
  | none => place.Has p

section Places

variable {p : P} {place place' : Place P}

theorem willHave_of_moves (h : place.moves p ≠ []) :
    place.WillHave p ↔ (place.moves p).getLast h = true := by
  unfold Place.WillHave
  rw [List.getLast?_eq_some_getLast h]

theorem willHave_of_nil (h : place.moves p = []) : place.WillHave p ↔ place.Has p := by
  unfold Place.WillHave
  rw [h, List.getLast?_nil]

theorem willHave_enter : (place.doAsync (.enter p)).WillHave p := by
  unfold Place.WillHave
  rw [moves_doAsync, Job.move, if_pos rfl, Option.toList_some, List.getLast?_concat]

namespace Place.WillHave

theorem frame (h : place.WillHave p) (moves : place'.moves p = place.moves p)
    (has : place.Has p → place'.Has p) : place'.WillHave p := by
  unfold Place.WillHave at h ⊢
  rw [moves]
  cases hlast : (place.moves p).getLast? with
  | none =>
    rw [hlast] at h
    exact has h
  | some enters =>
    rw [hlast] at h
    exact h

/-- Queueing a job other than the `Exit` or `Leave` of the player. -/
theorem doAsync (h : place.WillHave p) {job : Job P} (stays : job ≠ .exit p) :
    (place.doAsync job).WillHave p := by
  cases hmove : job.move p with
  | none =>
    refine h.frame ?_ id
    rw [moves_doAsync, hmove, Option.toList_none, List.append_nil]
  | some enters =>
    cases job with
    | enter q =>
      obtain ⟨rfl, -⟩ := Option.ite_none_right_eq_some.1 hmove
      exact willHave_enter
    | exit q =>
      obtain ⟨rfl, -⟩ := Option.ite_none_right_eq_some.1 hmove
      exact absurd rfl stays
    | _ => cases hmove

/-- An access of the job that runs: an `Enter` of the player has to bring it in, and any other job
must not take it out. -/
theorem jobStep (h : place.WillHave p) {job : Job P} {stage : Stage}
    (running : place.running = some (job, stage)) (hwaiting : place'.waiting = place.waiting)
    (hstarting : place'.starting = [])
    (enters : stage = .body → job = .enter p → place'.Has p)
    (stays : (stage = .body → job ≠ .exit p) → place.Has p → place'.Has p) :
    place'.WillHave p := by
  have hmoves' : place'.moves p = place.waiting.filterMap (Job.move p) := by
    rw [Place.moves, hstarting, hwaiting, List.nil_append]
  by_cases hstill : place.Still p
  · refine h.frame (by rw [hmoves', moves_of_still hstill]) (stays ?_)
    rintro rfl rfl
    have hmove := hstill _ running
    rw [Job.move, if_pos rfl] at hmove
    cases hmove
  -- The job is a move of the player that is about to start.
  obtain ⟨rfl, enter, hmove⟩ : stage = .body ∧ ∃ enter, job.move p = some enter := by
    simp only [Place.Still, not_forall] at hstill
    obtain ⟨job', hrunning, hmove⟩ := hstill
    rw [running] at hrunning
    cases hrunning
    exact ⟨rfl, Option.ne_none_iff_exists'.1 hmove⟩
  have hmoves : place.moves p = enter :: place'.moves p := by
    rw [moves_of_body running, hmove, hmoves']
    rfl
  by_cases hnil : place'.moves p = []
  · rw [willHave_of_nil hnil]
    rw [willHave_of_moves (by rw [hmoves]; exact List.cons_ne_nil _ _)] at h
    simp only [hmoves, hnil, List.getLast_singleton] at h
    subst h
    refine enters rfl ?_
    cases job with
    | enter q =>
      obtain ⟨rfl, -⟩ := Option.ite_none_right_eq_some.1 hmove
      rfl
    | exit q => cases (Option.ite_none_right_eq_some.1 hmove).2
    | _ => cases hmove
  · rw [willHave_of_moves hnil]
    rw [willHave_of_moves (by rw [hmoves]; exact List.cons_ne_nil _ _)] at h
    simp only [hmoves, List.getLast_cons hnil] at h
    exact h

end Place.WillHave

end Places

/-! ## The invariant -/

section Invariant

variable {acc : Accounts P} {s s' : State P} {p : P} {target other : PlaceId}

/-- A connected session is not being disconnected, and every player at rest has a place that will
have it. -/
structure Homed (s : State P) : Prop where
  online : ∀ p, (s.client p).connected = true →
    (s.client p).disconnect = .idle ∧ (s.client p).alive = true
  home : ∀ p, (s.client p).Resting → ∃ target, (s.place target).WillHave p

theorem Homed.initial : Homed (.initial : State P) where
  online _ _ := ⟨rfl, rfl⟩
  home _ resting := nomatch resting.hasPlayer

/-- An access of the job that runs on one of the places. -/
theorem Place.WillHave.update (h : (s.place other).WillHave p) {place : Place P} {job : Job P}
    {stage : Stage} (hplace : s'.place = Function.update s.place target place)
    (running : (s.place target).running = some (job, stage))
    (hwaiting : place.waiting = (s.place target).waiting)
    (hnext : ∀ job, place.running ≠ some (job, .body))
    (enters : stage = .body → job = .enter p → place.Has p)
    (stays : (stage = .body → job ≠ .exit p) → (s.place target).Has p → place.Has p) :
    (s'.place other).WillHave p := by
  rw [hplace, Function.update_apply]
  split_ifs with hother
  · subst hother
    refine h.jobStep running hwaiting ?_ enters stays
    unfold Place.starting
    split
    · next job hjob => exact absurd hjob (hnext job)
    · rfl
  · exact h

/-- The jobs keep what the places will have, if a job finds nobody else under the account id of its
player. -/
theorem Place.WillHave.of_jobStep (h : JobStep acc s target s')
    (inserted : (s.place target).Inserted acc)
    (full : ∀ q, (s.place target).running = some (.enter q, .body) →
      (s.place target).players.size < target.kind.capacity)
    (own : Accommodates acc s (.runJob target)) (alive : (s.client p).alive = true)
    (will : (s.place other).WillHave p) : (s'.place other).WillHave p := by
  cases h with
  | @refused q running why =>
    refine will.update rfl running rfl nofun ?_ fun _ => id
    rintro - ⟨⟩
    rcases why with ⟨hkind, hfull⟩ | hfound
    · have hlt := full p running
      rw [hkind] at hlt
      exact absurd hfull (not_le.2 hlt)
    · obtain ⟨q, hq⟩ := Option.isSome_iff_exists.1 hfound
      obtain rfl := own p (by rw [Place.mover, running]; rfl) q hq
      exact ⟨_, hq⟩
  | @inserted q running absent =>
    refine will.update rfl running rfl nofun ?_ ?_
    · rintro - ⟨⟩
      exact ⟨_, SortedMap.find?_insert.trans (if_pos rfl)⟩
    · rintro - ⟨id, hid⟩
      refine ⟨id, SortedMap.find?_insert.trans ((if_neg ?_).trans hid)⟩
      rintro rfl
      exact nomatch absent.symm.trans hid
  | @pointer q running => exact will.update rfl running rfl nofun nofun fun _ => id
  | @index q running => exact will.update rfl running rfl nofun nofun fun _ => id
  | @entered q running halive =>
    have hreturn : ((s.goOn target (s.place target).players none).place other).WillHave p :=
      will.update rfl running rfl nofun nofun fun _ => id
    unfold State.entered
    cases target.kind with
    | lobby => exact hreturn
    | room =>
      cases (State.client (s.goOn target (s.place target).players none) q).current .room with
      | none => exact hreturn
      | some index =>
        simp only [place_setPlace]
        split_ifs with hother
        · subst hother
          exact hreturn.doAsync nofun
        · exact hreturn
  | @dead q running dead =>
    refine will.update rfl running rfl nofun nofun ?_
    rintro - ⟨id, hid⟩
    refine ⟨id, SortedMap.find?_erase.trans ((if_neg ?_).trans hid)⟩
    rintro rfl
    obtain rfl : q = p := Option.some.inj ((inserted q _ running nofun nofun).symm.trans hid)
    exact nomatch dead.symm.trans alive
  | @absent q running absent => exact will.update rfl running rfl nofun nofun fun _ => id
  | @erased q r running found =>
    refine will.update rfl running rfl nofun nofun ?_
    rintro hne ⟨id, hid⟩
    refine ⟨id, SortedMap.find?_erase.trans ((if_neg ?_).trans hid)⟩
    rintro rfl
    obtain rfl := own q (by rw [Place.mover, running]; rfl) p hid
    exact hne rfl rfl
  | @released job running packets =>
    exact will.update rfl running rfl nofun nofun fun _ => id
  | @sent job stage running henter hexit hstage packets =>
    exact will.update rfl running rfl nofun (fun _ h => absurd h (henter p)) fun _ => id

/-- The effects of a client keep what a place will have, but for an `Exit` or `Leave`. -/
theorem Place.WillHave.apply {q : P} (will : (s.place target).WillHave q) {e : Effect P}
    (stays : ∀ other, e ≠ .doAsync other (.exit q)) :
    ((s.apply acc p e).place target).WillHave q := by
  rcases place_apply acc s p e target with h | ⟨job, rfl, h⟩ | h
  · rw [h]
    exact will
  · rw [h]
    refine will.doAsync ?_
    rintro rfl
    exact stays _ rfl
  · rw [h]
    exact will.frame rfl id

/-- A call of a client makes its next access. -/
theorem Homed.access (inv : Homed s) {c' : Client} {e : Effect P}
    (rests : Rests p (s.client p) c' e) : Homed (s.access acc p (c', e)) where
  online q := by
    rw [State.access, client_setClient]
    split_ifs with hq
    · intro hconnected
      obtain ⟨hold, hdisconnect⟩ := rests.online hconnected
      rw [hdisconnect, rests.alive]
      exact inv.online p hold
    · rw [client_apply]
      exact inv.online q
  home q resting := by
    rw [State.access, client_setClient] at resting
    split_ifs at resting with hq
    · subst hq
      rcases rests.home resting with ⟨target, rfl⟩ | ⟨hold, hstays⟩
      · refine ⟨target, ?_⟩
        show (Function.update s.place target _ target).WillHave q
        rw [Function.update_self]
        exact willHave_enter
      · obtain ⟨target, will⟩ := inv.home q hold
        exact ⟨target, will.apply hstays⟩
    · rw [client_apply] at resting
      obtain ⟨target, will⟩ := inv.home q resting
      refine ⟨target, will.apply fun other hexit => hq (rests.exit other q hexit)⟩

/-- A call of a client begins, or its session object is destroyed. -/
theorem Homed.setClient (inv : Homed s) {c : Client}
    (online : c.connected = true → c.disconnect = .idle ∧ c.alive = true)
    (home : c.Resting → (s.client p).Resting) : Homed (s.setClient p c) where
  online q := by
    rw [client_setClient]
    split_ifs
    · exact online
    · exact inv.online q
  home q resting := by
    rw [client_setClient] at resting
    split_ifs at resting with hq
    · subst hq
      exact inv.home q (home resting)
    · exact inv.home q resting

theorem Homed.startRequest (inv : Homed s) {pc : RequestPc}
    (hstep : s.startRequest p pc = some s') : Homed s' := by
  obtain ⟨⟨-, -, hidle⟩, heq⟩ := Option.ite_none_right_eq_some.1 hstep
  obtain rfl := Option.some.inj heq
  refine inv.setClient (inv.online p) fun resting =>
    ⟨resting.connected, resting.hasPlayer, resting.login, ?_⟩
  rw [hidle]
  rfl

theorem Homed.step (inv : Homed s) (reach : (system acc).Reachable s) {op : Op P}
    (accommodates : Accommodates acc s op) (hstep : Server.step acc s op = some s') :
    Homed s' := by
  cases op with
  | loginResult p ok =>
    obtain ⟨-, heq⟩ := Option.ite_none_right_eq_some.1 hstep
    obtain rfl := Option.some.inj heq
    exact inv.setClient (inv.online p) fun resting => nomatch resting.login
  | reqRoomEnter p | reqRoomExit p | reqChat p kind message => exact inv.startRequest hstep
  | disconnect p =>
    obtain ⟨-, heq⟩ := Option.ite_none_right_eq_some.1 hstep
    obtain rfl := Option.some.inj heq
    exact inv.setClient nofun fun resting => nomatch resting.connected
  | destroy p =>
    obtain ⟨⟨hdone, -⟩, heq⟩ := Option.ite_none_right_eq_some.1 hstep
    obtain rfl := Option.some.inj heq
    have hoffline : ∀ hconnected : (s.client p).connected = true, False :=
      fun hconnected => nomatch hdone.symm.trans (inv.online p hconnected).1
    exact inv.setClient (fun hconnected => (hoffline hconnected).elim)
      fun resting => (hoffline resting.connected).elim
  | login p spurious =>
    obtain ⟨⟨c', e⟩, hlogin, rfl⟩ := Option.map_eq_some_iff.1 hstep
    exact inv.access (rests_of_onLoginResult hlogin accommodates)
  | request p spurious =>
    obtain ⟨⟨c', e⟩, hrequest, rfl⟩ := Option.map_eq_some_iff.1 hstep
    exact inv.access (rests_of_handleRequest hrequest accommodates)
  | onDisconnected p =>
    obtain ⟨⟨c', e⟩, hdisconnected, rfl⟩ := Option.map_eq_some_iff.1 hstep
    exact inv.access (rests_of_onDisconnected hdisconnected fun h => (inv.online p h).1)
  | startJob target =>
    simp only [Server.step] at hstep
    split at hstep
    · next job waiting idle hwaiting =>
      obtain rfl := Option.some.inj hstep
      refine ⟨inv.online, fun p resting => ?_⟩
      obtain ⟨other, will⟩ := inv.home p resting
      refine ⟨other, ?_⟩
      rw [place_setPlace]
      split_ifs with hother
      · subst hother
        refine will.frame ?_ id
        simp [Place.moves, Place.starting, idle, hwaiting]
      · exact will
    · cases hstep
  | runJob target =>
    have hjob := jobStep_of_runJob acc hstep
    obtain ⟨holders, stocked⟩ := stocked_of_reachable reach
    refine ⟨fun p => ?_, fun p resting => ?_⟩
    · obtain ⟨current, currentIndex, hclient⟩ := client_of_jobStep hjob p
      rw [hclient]
      exact inv.online p
    · obtain ⟨current, currentIndex, hclient⟩ := client_of_jobStep hjob p
      rw [hclient] at resting
      obtain ⟨other, will⟩ := inv.home p
        ⟨resting.connected, resting.hasPlayer, resting.login, resting.request⟩
      exact ⟨other, .of_jobStep hjob (stocked.inserted target)
        (fun q running => stocked.size_lt running) accommodates
        (inv.online p resting.connected).2 will⟩

theorem homed_of_reach (h : (system acc).Reach (Accommodates acc) s) : Homed s := by
  refine h.invariant ?_ ?_
  · rintro s rfl
    exact .initial
  · intro s op s' reach inv accommodates hstep
    exact inv.step reach.reachable accommodates hstep

/-- In a run in which `AssignLobby` always finds a slot and no job finds another player under the
account id of its own, whenever no job waits or runs, every connected player whose login has been
confirmed and whose calls have returned is in a lobby or a room. -/
theorem no_player_nowhere (h : (system acc).Reach (Accommodates acc) s) (quiescent : s.Quiescent)
    (resting : (s.client p).Resting) : ∃ target, (s.place target).Has p := by
  obtain ⟨target, will⟩ := (homed_of_reach h).home p resting
  refine ⟨target, (willHave_of_nil ?_).1 will⟩
  simp [Place.moves, Place.starting, (quiescent target).1, (quiescent target).2]

/-- A player that has logged in, gone on to a room and come back to the lobby. -/
theorem no_player_nowhere_back_in_lobby :
    ∃ s : State (Fin 1), (system ⟨fun _ => 5, fun _ => [65]⟩).Reach
        (Accommodates ⟨fun _ => 5, fun _ => [65]⟩) s ∧ s.roomNum = 1 ∧
      ∃ target, (s.place target).Has 0 := by
  obtain ⟨s, hrun, hroomNum, hquiescent, hresting⟩ : ∃ s : State (Fin 1),
      (system ⟨fun _ => 5, fun _ => [65]⟩).runWhen
        (fun s op => decide (Accommodates ⟨fun _ => 5, fun _ => [65]⟩ s op)) .initial
        (List.flatten [
          .loginResult 0 true :: List.replicate 12 (.login 0 false),
          .startJob ⟨.lobby, 0⟩ :: List.replicate 4 (.runJob ⟨.lobby, 0⟩),
          .reqRoomEnter 0 :: List.replicate 7 (.request 0 false),
          .startJob ⟨.lobby, 0⟩ :: List.replicate 2 (.runJob ⟨.lobby, 0⟩),
          .startJob ⟨.room, 0⟩ :: List.replicate 4 (.runJob ⟨.room, 0⟩),
          [.startJob ⟨.room, 0⟩, .runJob ⟨.room, 0⟩],
          .reqRoomExit 0 :: List.replicate 14 (.request 0 false),
          .startJob ⟨.room, 0⟩ :: List.replicate 2 (.runJob ⟨.room, 0⟩),
          [.startJob ⟨.room, 0⟩, .runJob ⟨.room, 0⟩],
          .startJob ⟨.lobby, 0⟩ :: List.replicate 4 (.runJob ⟨.lobby, 0⟩)]) = some s ∧
        s.roomNum = 1 ∧ s.Quiescent ∧ (s.client 0).Resting := by
    refine Transition.System.exists_final (by decide +kernel) ⟨rfl, ?_, rfl, rfl, rfl, rfl⟩
    rintro ⟨_ | _, _ | _⟩ <;> exact ⟨rfl, rfl⟩
  have hreach := (Transition.System.reach_of_runWhen (.init rfl) hrun).mono
    fun _ _ => of_decide_eq_true
  exact ⟨s, hreach, hroomNum, no_player_nowhere hreach hquiescent hresting⟩

end Invariant

end Server

end DhNet
