import DhNet.Game.SlotsProof
import DhNet.Game.LocationProof

/-!
# What the sessions do to each other

`PlayerSystem`, the lobbies and the rooms know a player by its account.  A session whose account no
other session has is safe from the others: whatever they do and whatever jobs run, it stays in
`PlayerSystem` and in every place that it has not left itself.  Two sessions with one account share
the entry in `PlayerSystem`, and the first of them that ends removes it.

* `Spares`: what a step of others leaves to a session.
* `spares_of_step`, `spares_of_run`: every step and every run of others spares it.
* `sessions_undisturbed`: a session with an account of its own.
-/

namespace DhNet

namespace Server

variable {P : Type*}

/-- The session that an operation is about; a job is of none. -/
def Op.session : Op P → Option P
  | .loginResult p _ | .reqRoomEnter p | .reqRoomExit p | .reqChat p _ _ | .disconnect p
  | .destroy p | .login p _ | .request p _ | .onDisconnected p => some p
  | .startJob _ | .runJob _ => none

/-- An `Exit` or `Leave` of the player waits or runs. -/
def Place.Leaves (place : Place P) (q : P) : Prop :=
  .exit q ∈ place.waiting ∨ ∃ stage, place.running = some (.exit q, stage)

/-- A place keeps a player that is not leaving and whose session exists. -/
structure Place.Spares (acc : Accounts P) (q : P) (alive : Bool) (place place' : Place P) :
    Prop where
  leaves : place'.Leaves q → place.Leaves q
  member : ¬ place.Leaves q → alive = true →
    place.players.find? (acc.playerId q) = some q → place'.players.find? (acc.playerId q) = some q

/-- A client but for its pointers, which the jobs set, and its requests. -/
def Client.status (c : Client) : Client :=
  { c with current := fun _ => none, currentIndex := fun _ => -1, request := .idle }

/-- What a step of others leaves to a session: its status, its entry in `PlayerSystem`, and its
places. -/
structure Spares (acc : Accounts P) (q : P) (s s' : State P) : Prop where
  status : (s'.client q).status = (s.client q).status
  listed : s'.playerSystem (acc.playerId q) = s.playerSystem (acc.playerId q)
  place : ∀ target, (s.place target).Spares acc q (s.client q).alive (s'.place target)

theorem Place.Spares.refl {acc : Accounts P} {q : P} {alive : Bool} (place : Place P) :
    place.Spares acc q alive place := ⟨id, fun _ _ => id⟩

theorem Spares.refl (acc : Accounts P) (q : P) (s : State P) : Spares acc q s s :=
  ⟨rfl, rfl, fun _ => .refl _⟩

theorem Spares.alive {acc : Accounts P} {q : P} {s s' : State P} (h : Spares acc q s s') :
    (s'.client q).alive = (s.client q).alive := by
  change (s'.client q).status.alive = _
  rw [h.status]
  rfl

theorem Spares.trans {acc : Accounts P} {q : P} {s s' s'' : State P} (h : Spares acc q s s')
    (h' : Spares acc q s' s'') : Spares acc q s s'' where
  status := h'.status.trans h.status
  listed := h'.listed.trans h.listed
  place target :=
    ⟨fun hleaves => (h.place target).leaves ((h'.place target).leaves hleaves),
      fun hstays halive hmember => (h'.place target).member
        (fun hleaves => hstays ((h.place target).leaves hleaves)) (h.alive.trans halive)
        ((h.place target).member hstays halive hmember)⟩

/-! ## The calls of other sessions -/

section Calls

variable {acc : Accounts P} {s : State P} {p q : P} {target : PlaceId}

/-- A call queues an `Exit` or `Leave` only for its own player. -/
def Effect.Own (p : P) : Effect P → Prop
  | .doAsync _ (.exit r) => r = p
  | _ => True

theorem own_leave (kind : Kind) (c : Client) (pc : LeavePc) :
    (leave acc p kind c pc).2.1.Own p := by
  cases pc <;> simp [leave, Effect.Own]

theorem own_of_onLoginResult {availableSlots : PlaceId → ℤ} {spurious : Bool} {c c' : Client}
    {e : Effect P} (h : onLoginResult p availableSlots spurious c = some (c', e)) : e.Own p := by
  unfold onLoginResult at h
  cases hlogin : c.login with
  | idle => simp [hlogin] at h
  | assignLobby search =>
    simp only [hlogin, Option.some.injEq] at h
    cases hsearch : search.next maxLobbyCount (fun i => availableSlots ⟨.lobby, i⟩) spurious <;>
      simp only [hsearch, Prod.mk.injEq] at h <;> obtain ⟨-, rfl⟩ := h <;> trivial
  | _ =>
    simp only [hlogin, Option.some.injEq, Prod.mk.injEq] at h
    obtain ⟨-, rfl⟩ := h
    trivial

theorem own_of_handleRequest {roomNum : ℕ} {availableSlots : PlaceId → ℤ} {spurious : Bool}
    {c c' : Client} {e : Effect P}
    (h : handleRequest acc p roomNum availableSlots spurious c = some (c', e)) : e.Own p := by
  unfold handleRequest at h
  cases hrequest : c.request with
  | idle => simp [hrequest] at h
  | leave target pc =>
    simp only [hrequest, Option.some.injEq, Prod.mk.injEq] at h
    obtain ⟨-, rfl⟩ := h
    exact own_leave target.other c pc
  | search target search =>
    simp only [hrequest, Option.some.injEq] at h
    cases hsearch : search.next (target.places roomNum) (fun i => availableSlots ⟨target, i⟩)
        spurious <;>
      simp only [hsearch, Prod.mk.injEq] at h <;> obtain ⟨-, rfl⟩ := h <;> trivial
  | chatAsync target message =>
    obtain ⟨kind, index⟩ := target
    simp only [hrequest, Option.some.injEq, Prod.mk.injEq] at h
    obtain ⟨-, rfl⟩ := h
    cases kind <;> trivial
  | _ =>
    simp only [hrequest, Option.some.injEq, Prod.mk.injEq] at h
    obtain ⟨-, rfl⟩ := h
    trivial

theorem own_of_onDisconnected {c c' : Client} {e : Effect P}
    (h : onDisconnected acc p c = some (c', e)) : e.Own p := by
  unfold onDisconnected at h
  cases hdisconnect : c.disconnect with
  | idle | done => simp [hdisconnect] at h
  | leave kind pc =>
    simp only [hdisconnect, Option.some.injEq, Prod.mk.injEq] at h
    obtain ⟨-, rfl⟩ := h
    exact own_leave kind c pc
  | _ =>
    simp only [hdisconnect, Option.some.injEq, Prod.mk.injEq] at h
    obtain ⟨-, rfl⟩ := h
    trivial

theorem spares_setPlace {place : Place P}
    (h : (s.place target).Spares acc q (s.client q).alive place) :
    Spares acc q s (s.setPlace target place) := by
  refine ⟨rfl, rfl, fun other => ?_⟩
  rw [place_setPlace]
  split_ifs with hother
  · subst hother
    exact h
  · exact .refl _

theorem spares_send {packets : List (P × Notice)} : Spares acc q s (s.send target packets) :=
  ⟨rfl, rfl, fun _ => .refl _⟩

theorem Place.spares_doAsync {alive : Bool} (place : Place P) {job : Job P} (h : job ≠ .exit q) :
    place.Spares acc q alive (place.doAsync job) := by
  refine ⟨fun hleaves => hleaves.imp_left fun hmem => ?_, fun _ _ => id⟩
  rcases List.mem_append.1 hmem with hmem | hmem
  · exact hmem
  · exact absurd (List.mem_singleton.1 hmem).symm h

/-- A job goes on or returns without touching the entry of `q`. -/
theorem Place.spares_goOn {alive : Bool} {place : Place P} {players : SortedMap ℕ P}
    {running : Option (Job P × Stage)} {slots : ℤ}
    (hrunning : ∀ stage, running = some (.exit q, stage) → ∃ stage, place.running =
      some (.exit q, stage))
    (hplayers : ¬ place.Leaves q → alive = true → place.players.find? (acc.playerId q) = some q →
      players.find? (acc.playerId q) = some q) :
    place.Spares acc q alive { place with
      players := players, availableSlots := slots, running := running } :=
  ⟨fun hleaves => hleaves.imp_right fun ⟨stage, h⟩ => hrunning stage h, hplayers⟩

theorem spares_apply {e : Effect P} (hown : e.Own p) (hne : p ≠ q)
    (haccount : acc.playerId p ≠ acc.playerId q) : Spares acc q s (s.apply acc p e) := by
  cases e with
  | none => exact .refl _ _ _
  | doAsync target job =>
    refine spares_setPlace ((s.place target).spares_doAsync ?_)
    rintro rfl
    exact hne hown.symm
  | reserve target => exact spares_setPlace ⟨id, fun _ _ => id⟩
  | makeRoom =>
    have h : Spares acc q s (s.setPlace ⟨.room, s.roomNum⟩ (s.place ⟨.room, s.roomNum⟩).reserve) :=
      spares_setPlace ⟨id, fun _ _ => id⟩
    exact ⟨h.status, h.listed, h.place⟩
  | addPlayer | removePlayer =>
    refine ⟨rfl, ?_, fun target => .refl _⟩
    simp [State.apply, Ne.symm haccount]

theorem spares_entered : Spares acc q s (s.entered acc target p) := by
  unfold State.entered
  cases target.kind with
  | lobby => exact spares_send
  | room =>
    cases (s.client p).current .room with
    | none => exact .refl _ _ _
    | some index => exact spares_setPlace (Place.spares_doAsync _ (by simp))

end Calls

section Steps

variable [DecidableEq P] {acc : Accounts P} {s s' : State P} {p q : P} {target : PlaceId}

theorem spares_setClient {c : Client} (h : p = q → c.status = (s.client p).status) :
    Spares acc q s (s.setClient p c) := by
  refine ⟨?_, rfl, fun _ => .refl _⟩
  rcases eq_or_ne q p with rfl | hne
  · simpa [State.setClient] using h rfl
  · simp [State.setClient, hne]

theorem spares_access {c : Client} {e : Effect P} (hown : e.Own p) (hne : p ≠ q)
    (haccount : acc.playerId p ≠ acc.playerId q) : Spares acc q s (s.access acc p (c, e)) :=
  (spares_apply hown hne haccount).trans (spares_setClient fun h => absurd h hne)

/-! ## The jobs -/

theorem spares_of_jobStep (hdistinct : ∀ r, r ≠ q → acc.playerId r ≠ acc.playerId q)
    (h : JobStep acc s target s') : Spares acc q s s' := by
  -- What a job erases is the entry of `q` only if it is a job of `q`.
  have herase : ∀ (players : SortedMap ℕ P) (p : P), p ≠ q →
      players.find? (acc.playerId q) = some q →
      (players.erase (acc.playerId p)).find? (acc.playerId q) = some q := by
    intro players p hne hmember
    rw [SortedMap.find?_erase, if_neg (hdistinct p hne).symm]
    exact hmember
  -- A job goes on, or returns, and leaves the map as it is.
  have hkeep : ∀ (slots : ℤ) (running : Option (Job P × Stage)),
      (∀ stage, running ≠ some (.exit q, stage)) → Spares acc q s (s.setPlace target
        { s.place target with availableSlots := slots, running := running }) :=
    fun slots running hne => spares_setPlace
      (Place.spares_goOn (fun stage h => absurd h (hne stage)) fun _ _ => id)
  cases h with
  | refused running why => exact hkeep _ _ nofun
  | @inserted p running absent =>
    refine spares_setPlace (Place.spares_goOn nofun fun _ _ hmember => ?_)
    rw [SortedMap.find?_insert]
    split_ifs with hsame
    · rw [← hsame, hmember] at absent
      cases absent
    · exact hmember
  | @pointer p running =>
    exact (hkeep _ (some (.enter p, .index)) nofun).trans (spares_setClient fun _ => rfl)
  | @index p running =>
    exact (hkeep _ (some (.enter p, .session)) nofun).trans (spares_setClient fun _ => rfl)
  | entered running alive => exact (hkeep _ none nofun).trans spares_entered
  | @dead p running dead =>
    refine spares_setPlace (Place.spares_goOn nofun fun _ alive => herase _ p ?_)
    rintro rfl
    rw [dead] at alive
    cases alive
  | absent running absent => exact hkeep _ none nofun
  | @erased p r running found =>
    refine spares_setPlace (Place.spares_goOn ?_ fun hstays _ => herase _ p ?_)
    · rintro stage ⟨⟩
      exact ⟨_, running⟩
    · rintro rfl
      exact hstays (.inr ⟨_, running⟩)
  | released running packets => exact (hkeep _ none nofun).trans spares_send
  | sent running enter exit stage packets => exact (hkeep _ none nofun).trans spares_send

/-! ## Whole runs -/

theorem spares_startRequest {pc : RequestPc} (hne : p ≠ q) (h : s.startRequest p pc = some s') :
    Spares acc q s s' := by
  obtain ⟨-, heq⟩ := Option.ite_none_right_eq_some.1 h
  obtain rfl := Option.some.inj heq
  exact spares_setClient fun h => absurd h hne

theorem spares_of_step (hdistinct : ∀ r, r ≠ q → acc.playerId r ≠ acc.playerId q) {op : Op P}
    (hother : op.session ≠ some q) (hstep : step acc s op = some s') : Spares acc q s s' := by
  have hclient : ∀ {p : P} {c : Client} {e : Effect P}, p ≠ q → e.Own p →
      Spares acc q s (s.access acc p (c, e)) :=
    fun {p _ _} hne hown => spares_access hown hne (hdistinct p hne)
  cases op with
  | loginResult p ok =>
    obtain ⟨-, heq⟩ := Option.ite_none_right_eq_some.1 hstep
    obtain rfl := Option.some.inj heq
    exact spares_setClient fun h => absurd (congrArg some h) hother
  | reqRoomEnter p => exact spares_startRequest (fun h => hother (congrArg some h)) hstep
  | reqRoomExit p => exact spares_startRequest (fun h => hother (congrArg some h)) hstep
  | reqChat p kind message => exact spares_startRequest (fun h => hother (congrArg some h)) hstep
  | disconnect p =>
    obtain ⟨-, heq⟩ := Option.ite_none_right_eq_some.1 hstep
    obtain rfl := Option.some.inj heq
    exact spares_setClient fun h => absurd (congrArg some h) hother
  | destroy p =>
    obtain ⟨-, heq⟩ := Option.ite_none_right_eq_some.1 hstep
    obtain rfl := Option.some.inj heq
    exact spares_setClient fun h => absurd (congrArg some h) hother
  | login p spurious =>
    obtain ⟨⟨c', e⟩, hlogin, rfl⟩ := Option.map_eq_some_iff.1 hstep
    exact hclient (fun h => hother (congrArg some h)) (own_of_onLoginResult hlogin)
  | request p spurious =>
    obtain ⟨⟨c', e⟩, hrequest, rfl⟩ := Option.map_eq_some_iff.1 hstep
    exact hclient (fun h => hother (congrArg some h)) (own_of_handleRequest hrequest)
  | onDisconnected p =>
    obtain ⟨⟨c', e⟩, hdisconnected, rfl⟩ := Option.map_eq_some_iff.1 hstep
    exact hclient (fun h => hother (congrArg some h)) (own_of_onDisconnected hdisconnected)
  | startJob target =>
    simp only [step] at hstep
    split at hstep
    · next job waiting idle hwaiting =>
      obtain rfl := Option.some.inj hstep
      refine spares_setPlace ⟨fun hleaves => .inl ?_, fun _ _ => id⟩
      rw [hwaiting]
      rcases hleaves with hmem | ⟨stage, hrunning⟩
      · exact List.mem_cons_of_mem _ hmem
      · cases hrunning
        exact List.mem_cons_self
    · cases hstep
  | runJob target => exact spares_of_jobStep hdistinct (jobStep_of_runJob acc hstep)

theorem spares_of_run (hdistinct : ∀ r, r ≠ q → acc.playerId r ≠ acc.playerId q) {ops : List (Op P)}
    (hothers : ∀ op ∈ ops, op.session ≠ some q) (hrun : (system acc).run s ops = some s') :
    Spares acc q s s' := by
  induction ops generalizing s with
  | nil =>
    obtain rfl : s = s' := by simpa [Transition.System.run] using hrun
    exact .refl _ _ _
  | cons op ops ih =>
    obtain ⟨u, hstep, hrest⟩ := Option.bind_eq_some_iff.1 hrun
    exact (spares_of_step hdistinct (hothers op List.mem_cons_self) hstep).trans
      (ih (fun op hop => hothers op (List.mem_cons_of_mem _ hop)) hrest)

end Steps

/-! ## Players in `PlayerSystem` -/

section Entries

/-- What is true of a session whose account no other session has, and of the entry of that account
in `PlayerSystem`: a connected session exists, its login result was processed before it has a
player, and the entry is its player once the login result is past `Add`. -/
structure Client.Enrolled (c : Client) (q : P) (entry : Option P) : Prop where
  alive : c.connected = true → c.alive = true ∧ c.disconnect = .idle
  processed : c.login ≠ .idle ∨ c.hasPlayer = true → c.loginProcessed = true
  own : ∀ r ∈ entry, r = q
  listed : c.connected = true → c.hasPlayer = true → c.login ≠ .add → entry = some q

variable {acc : Accounts P} {q : P} {c c' : Client} {entry : Option P}

theorem Client.Enrolled.of_status (h : c.Enrolled q entry) (hstatus : c'.status = c.status) :
    c'.Enrolled q entry := by
  have henrolled : c.status.Enrolled q entry := ⟨h.alive, h.processed, h.own, h.listed⟩
  rw [← hstatus] at henrolled
  exact ⟨henrolled.alive, henrolled.processed, henrolled.own, henrolled.listed⟩

/-- A session that is not connected any more. -/
theorem Client.Enrolled.of_disconnected (h : c.Enrolled q entry) {entry' : Option P}
    (hconnected : c'.connected = false) (hprocessed : c'.login ≠ .idle ∨ c'.hasPlayer = true →
      c.login ≠ .idle ∨ c.hasPlayer = true) (hsame : c'.loginProcessed = c.loginProcessed)
    (hentry : ∀ r ∈ entry', r = q) : c'.Enrolled q entry' where
  alive hc := by rw [hconnected] at hc; cases hc
  processed hc := hsame ▸ h.processed (hprocessed hc)
  own := hentry
  listed hc := by rw [hconnected] at hc; cases hc

/-- The entry after an effect of the session itself. -/
def Effect.onEntry (q : P) (entry : Option P) : Effect P → Option P
  | .addPlayer => some (entry.getD q)
  | .removePlayer => Option.none
  | _ => entry

theorem playerSystem_apply (acc : Accounts P) (s : State P) (q : P) (e : Effect P) :
    (s.apply acc q e).playerSystem (acc.playerId q) =
      e.onEntry q (s.playerSystem (acc.playerId q)) := by
  cases e <;> simp [State.apply, State.setPlace, Effect.onEntry]

theorem enrolled_of_onLoginResult {availableSlots : PlaceId → ℤ} {spurious : Bool} {e : Effect P}
    (h : c.Enrolled q entry)
    (hlogin : onLoginResult q availableSlots spurious c = some (c', e)) :
    c'.Enrolled q (e.onEntry q entry) := by
  unfold onLoginResult at hlogin
  have hprocessed : c.login ≠ .idle → c.loginProcessed = true := fun hne => h.processed (.inl hne)
  cases hpc : c.login with
  | idle => simp [hpc] at hlogin
  | isConnected ok =>
    simp only [hpc, Option.some.injEq, Prod.mk.injEq] at hlogin
    obtain ⟨rfl, rfl⟩ := hlogin
    exact ⟨h.alive, fun _ => hprocessed (by simp [hpc]), h.own,
      fun hc hp _ => h.listed hc hp (by simp [hpc])⟩
  | reject =>
    simp only [hpc, Option.some.injEq, Prod.mk.injEq] at hlogin
    obtain ⟨rfl, rfl⟩ := hlogin
    exact ⟨nofun, fun _ => hprocessed (by simp [hpc]), h.own, nofun⟩
  | setPlayer =>
    simp only [hpc, Option.some.injEq, Prod.mk.injEq] at hlogin
    obtain ⟨rfl, rfl⟩ := hlogin
    exact ⟨h.alive, fun _ => hprocessed (by simp [hpc]), h.own,
      fun _ _ hne => absurd rfl hne⟩
  | add =>
    simp only [hpc, Option.some.injEq, Prod.mk.injEq] at hlogin
    obtain ⟨rfl, rfl⟩ := hlogin
    have hentry : entry.getD q = q := by
      cases hentry : entry with
      | none => rfl
      | some r => exact h.own r hentry
    refine ⟨h.alive, fun _ => hprocessed (by simp [hpc]), fun r hr => ?_, fun _ _ _ => ?_⟩
    · rw [Effect.onEntry, hentry] at hr
      exact (Option.some.inj hr).symm
    · rw [Effect.onEntry, hentry]
  | assignLobby search =>
    simp only [hpc, Option.some.injEq] at hlogin
    cases hsearch : search.next maxLobbyCount (fun i => availableSlots ⟨.lobby, i⟩) spurious <;>
      simp only [hsearch, Prod.mk.injEq] at hlogin <;> obtain ⟨rfl, rfl⟩ := hlogin <;>
      exact ⟨h.alive, fun _ => hprocessed (by simp [hpc]), h.own,
        fun hc hp _ => h.listed hc hp (by simp [hpc])⟩
  | doAsync lobby =>
    simp only [hpc, Option.some.injEq, Prod.mk.injEq] at hlogin
    obtain ⟨rfl, rfl⟩ := hlogin
    exact ⟨h.alive, fun _ => hprocessed (by simp [hpc]), h.own,
      fun hc hp _ => h.listed hc hp (by simp [hpc])⟩

theorem status_leave (kind : Kind) (c : Client) (pc : LeavePc) :
    (leave acc q kind c pc).1.status = c.status ∧
      (leave acc q kind c pc).2.1.onEntry q entry = entry := by
  cases pc <;> exact ⟨rfl, rfl⟩

theorem enrolled_of_handleRequest {roomNum : ℕ} {availableSlots : PlaceId → ℤ} {spurious : Bool}
    {e : Effect P} (h : c.Enrolled q entry)
    (hrequest : handleRequest acc q roomNum availableSlots spurious c = some (c', e)) :
    c'.Enrolled q (e.onEntry q entry) := by
  suffices hsame : c'.status = c.status ∧ e.onEntry q entry = entry by
    rw [hsame.2]
    exact h.of_status hsame.1
  unfold handleRequest at hrequest
  cases hpc : c.request with
  | idle => simp [hpc] at hrequest
  | leave target pc =>
    simp only [hpc, Option.some.injEq, Prod.mk.injEq] at hrequest
    obtain ⟨rfl, rfl⟩ := hrequest
    exact status_leave target.other c pc
  | search target search =>
    simp only [hpc, Option.some.injEq] at hrequest
    cases hsearch : search.next (target.places roomNum) (fun i => availableSlots ⟨target, i⟩)
        spurious <;>
      simp only [hsearch, Prod.mk.injEq] at hrequest <;> obtain ⟨rfl, rfl⟩ := hrequest <;>
      exact ⟨rfl, rfl⟩
  | _ =>
    simp only [hpc, Option.some.injEq, Prod.mk.injEq] at hrequest
    obtain ⟨rfl, rfl⟩ := hrequest
    exact ⟨rfl, rfl⟩

theorem enrolled_of_onDisconnected {e : Effect P} (h : c.Enrolled q entry)
    (hdisconnected : onDisconnected acc q c = some (c', e)) :
    c'.Enrolled q (e.onEntry q entry) := by
  unfold onDisconnected at hdisconnected
  have hconnected : c.disconnect ≠ .idle → c.connected = false := by
    intro hne
    by_contra hc
    exact hne (h.alive (by simpa using hc)).2
  cases hpc : c.disconnect with
  | idle | done => simp [hpc] at hdisconnected
  | leave kind pc =>
    simp only [hpc, Option.some.injEq, Prod.mk.injEq] at hdisconnected
    obtain ⟨rfl, rfl⟩ := hdisconnected
    cases pc <;> exact h.of_disconnected (hconnected (by simp [hpc])) id rfl h.own
  | hasPlayer =>
    simp only [hpc, Option.some.injEq, Prod.mk.injEq] at hdisconnected
    obtain ⟨rfl, rfl⟩ := hdisconnected
    exact h.of_disconnected (hconnected (by simp [hpc])) id rfl h.own
  | remove =>
    simp only [hpc, Option.some.injEq, Prod.mk.injEq] at hdisconnected
    obtain ⟨rfl, rfl⟩ := hdisconnected
    exact h.of_disconnected (hconnected (by simp [hpc])) id rfl nofun
  | reset =>
    simp only [hpc, Option.some.injEq, Prod.mk.injEq] at hdisconnected
    obtain ⟨rfl, rfl⟩ := hdisconnected
    exact h.of_disconnected (hconnected (by simp [hpc])) (.imp_right nofun) rfl h.own

end Entries

section Runs

variable [DecidableEq P] {acc : Accounts P} {s s' : State P} {q : P} {c : Client}

/-- The client of `q` and the entry of its account in `PlayerSystem`. -/
def Enrolled (acc : Accounts P) (q : P) (s : State P) : Prop :=
  (s.client q).Enrolled q (s.playerSystem (acc.playerId q))

theorem Enrolled.access {e : Effect P}
    (h : c.Enrolled q (e.onEntry q (s.playerSystem (acc.playerId q)))) :
    Enrolled acc q (s.access acc q (c, e)) := by
  have hentry := playerSystem_apply acc s q e
  unfold Enrolled State.access State.setClient
  simp only [Function.update_self, hentry]
  exact h

theorem Enrolled.setClient (h : c.Enrolled q (s.playerSystem (acc.playerId q))) :
    Enrolled acc q (s.setClient q c) := by
  unfold Enrolled State.setClient
  simp only [Function.update_self]
  exact h

theorem Enrolled.step_own (h : Enrolled acc q s) {op : Op P} (hown : op.session = some q)
    (hstep : step acc s op = some s') : Enrolled acc q s' := by
  have hrequest : ∀ {pc : RequestPc}, s.startRequest q pc = some s' → Enrolled acc q s' := by
    intro pc hstart
    obtain ⟨-, heq⟩ := Option.ite_none_right_eq_some.1 hstart
    obtain rfl := Option.some.inj heq
    exact Enrolled.setClient (Client.Enrolled.of_status h rfl)
  cases op with
  | loginResult p ok =>
    obtain rfl : p = q := Option.some.inj hown
    obtain ⟨⟨-, hfirst⟩, heq⟩ := Option.ite_none_right_eq_some.1 hstep
    obtain rfl := Option.some.inj heq
    have hnone : (s.client p).hasPlayer ≠ true := by
      intro hplayer
      have hprocessed := Client.Enrolled.processed h (.inr hplayer)
      rw [hfirst] at hprocessed
      cases hprocessed
    exact Enrolled.setClient ⟨h.alive, fun _ => rfl, h.own, fun _ hplayer => absurd hplayer hnone⟩
  | reqRoomEnter p =>
    obtain rfl : p = q := Option.some.inj hown
    exact hrequest hstep
  | reqRoomExit p =>
    obtain rfl : p = q := Option.some.inj hown
    exact hrequest hstep
  | reqChat p kind message =>
    obtain rfl : p = q := Option.some.inj hown
    exact hrequest hstep
  | disconnect p =>
    obtain rfl : p = q := Option.some.inj hown
    obtain ⟨-, heq⟩ := Option.ite_none_right_eq_some.1 hstep
    obtain rfl := Option.some.inj heq
    exact Enrolled.setClient (h.of_disconnected rfl id rfl h.own)
  | destroy p =>
    obtain rfl : p = q := Option.some.inj hown
    obtain ⟨⟨hdone, -, -⟩, heq⟩ := Option.ite_none_right_eq_some.1 hstep
    obtain rfl := Option.some.inj heq
    have hconnected : (s.client p).connected = false := by
      by_contra hc
      have hidle := (Client.Enrolled.alive h (by simpa using hc)).2
      rw [hdone] at hidle
      cases hidle
    exact Enrolled.setClient (h.of_disconnected hconnected id rfl h.own)
  | login p spurious =>
    obtain rfl : p = q := Option.some.inj hown
    obtain ⟨⟨c', e⟩, hlogin, rfl⟩ := Option.map_eq_some_iff.1 hstep
    exact Enrolled.access (enrolled_of_onLoginResult h hlogin)
  | request p spurious =>
    obtain rfl : p = q := Option.some.inj hown
    obtain ⟨⟨c', e⟩, hhandle, rfl⟩ := Option.map_eq_some_iff.1 hstep
    exact Enrolled.access (enrolled_of_handleRequest h hhandle)
  | onDisconnected p =>
    obtain rfl : p = q := Option.some.inj hown
    obtain ⟨⟨c', e⟩, hdisconnected, rfl⟩ := Option.map_eq_some_iff.1 hstep
    exact Enrolled.access (enrolled_of_onDisconnected h hdisconnected)
  | startJob target => cases hown
  | runJob target => cases hown

theorem enrolled_of_reachable (hdistinct : ∀ r, r ≠ q → acc.playerId r ≠ acc.playerId q)
    (hreach : (system acc).Reachable s) : Enrolled acc q s := by
  refine hreach.invariant ?_ fun s op s' hinv hstep => ?_
  · rintro s rfl
    exact ⟨fun _ => ⟨rfl, rfl⟩, by simp [State.initial, Client.initial], nofun, nofun⟩
  · by_cases hown : op.session = some q
    · exact hinv.step_own hown hstep
    · have hspares := spares_of_step hdistinct hown hstep
      unfold Enrolled
      rw [hspares.listed]
      exact Client.Enrolled.of_status hinv hspares.status

/-- Whatever other sessions do and whatever jobs run, a connected player whose account no other
session has stays in `PlayerSystem` and in every place that it has not asked to leave. -/
theorem sessions_undisturbed (hreach : (system acc).Reachable s)
    (hdistinct : ∀ r, r ≠ q → acc.playerId r ≠ acc.playerId q)
    (hconnected : (s.client q).connected = true) (hplayer : (s.client q).hasPlayer = true)
    (hadded : (s.client q).login ≠ .add) (hstays : ∀ target, ¬ (s.place target).Leaves q)
    {ops : List (Op P)} (hothers : ∀ op ∈ ops, op.session ≠ some q)
    (hrun : (system acc).run s ops = some s') :
    s'.playerSystem (acc.playerId q) = some q ∧
    ∀ target, (s.place target).players.find? (acc.playerId q) = some q →
      (s'.place target).players.find? (acc.playerId q) = some q := by
  have henrolled := enrolled_of_reachable hdistinct hreach
  have hspares := spares_of_run hdistinct hothers hrun
  refine ⟨hspares.listed.trans (henrolled.listed hconnected hplayer hadded),
    fun target => (hspares.place target).member (hstays target) (henrolled.alive hconnected).1⟩

/-- A player with an account of its own is in the first lobby when another player's session ends. -/
theorem sessions_undisturbed_in_lobby : ∃ s s' : State (Fin 2),
    (s.client 0).hasPlayer = true ∧ (s.place ⟨.lobby, 0⟩).Has 1 ∧
    (s'.client 0).disconnect = .done ∧ s'.playerSystem 6 = some 1 ∧
    (s'.place ⟨.lobby, 0⟩).players.find? 6 = some 1 := by
  obtain ⟨s, hrun, hother, hmember, hconnected, hplayer, hlogin, hstays, s', hrun', hdone⟩ :
      ∃ s : State (Fin 2), (system ⟨fun p => p.val + 5, fun _ => [65]⟩).run .initial
          (List.flatten [
            .loginResult 1 true :: List.replicate 12 (.login 1 false),
            .startJob ⟨.lobby, 0⟩ :: List.replicate 4 (.runJob ⟨.lobby, 0⟩),
            .loginResult 0 true :: List.replicate 3 (.login 0 false)]) = some s ∧
        (s.client 0).hasPlayer = true ∧ (s.place ⟨.lobby, 0⟩).players.find? 6 = some 1 ∧
        (s.client 1).connected = true ∧ (s.client 1).hasPlayer = true ∧
        (s.client 1).login = .idle ∧ (∀ target, ¬ (s.place target).Leaves 1) ∧
        ∃ s', (system ⟨fun p => p.val + 5, fun _ => [65]⟩).run s
          (.disconnect 0 :: List.replicate 9 (.onDisconnected 0)) = some s' ∧
        (s'.client 0).disconnect = .done := by
    refine Transition.System.exists_final (by decide +kernel) ⟨by decide +kernel, by decide +kernel,
      by decide +kernel, by decide +kernel, by decide +kernel, ?_,
      Transition.System.exists_final (by decide +kernel) (by decide +kernel)⟩
    rintro ⟨_ | _, _ | _⟩ (h | ⟨_, h⟩) <;> cases h
  have hreach := Transition.System.reachable_of_run (.init rfl) hrun
  obtain ⟨hlisted, hplaces⟩ := sessions_undisturbed hreach (q := 1) (by decide) hconnected hplayer
    (by simp [hlogin]) hstays (by simp [Op.session]) hrun'
  exact ⟨s, s', hother, ⟨6, hmember⟩, hdone, hlisted, hplaces _ hmember⟩

/-- Both sessions have one account.  The second player is not inserted, and when its session ends
the first one, which is connected and in the lobby, is not found any more. -/
theorem same_account_removes_player : ∃ s s' : State (Fin 2),
    (system ⟨fun _ => 5, fun _ => [65]⟩).Reachable s ∧ s.Quiescent ∧
    (∀ p, (s.client p).connected = true ∧ (s.client p).hasPlayer = true ∧
      (s.client p).login = .idle ∧ (s.client p).request = .idle) ∧
    s.playerSystem 5 = some 1 ∧
    (system ⟨fun _ => 5, fun _ => [65]⟩).run s
      (.disconnect 0 :: List.replicate 9 (.onDisconnected 0)) = some s' ∧
    s'.Quiescent ∧ (s'.client 1).connected = true ∧ (s'.client 1).hasPlayer = true ∧
    s'.playerSystem 5 = none := by
  obtain ⟨s, hrun, hquiescent, hclients, hlisted, s', hrun', hfacts⟩ : ∃ s : State (Fin 2),
      (system ⟨fun _ => 5, fun _ => [65]⟩).run .initial
        (List.flatten [
          .loginResult 1 true :: List.replicate 12 (.login 1 false),
          .startJob ⟨.lobby, 0⟩ :: List.replicate 4 (.runJob ⟨.lobby, 0⟩),
          .loginResult 0 true :: List.replicate 12 (.login 0 false),
          .startJob ⟨.lobby, 0⟩ :: List.replicate 2 (.runJob ⟨.lobby, 0⟩)]) = some s ∧
      s.Quiescent ∧
      (∀ p, (s.client p).connected = true ∧ (s.client p).hasPlayer = true ∧
        (s.client p).login = .idle ∧ (s.client p).request = .idle) ∧
      s.playerSystem 5 = some 1 ∧
      ∃ s', (system ⟨fun _ => 5, fun _ => [65]⟩).run s
        (.disconnect 0 :: List.replicate 9 (.onDisconnected 0)) = some s' ∧
      s'.Quiescent ∧ (s'.client 1).connected = true ∧ (s'.client 1).hasPlayer = true ∧
      s'.playerSystem 5 = none := by
    refine Transition.System.exists_final (by decide +kernel) ⟨?_, by decide +kernel,
      by decide +kernel, Transition.System.exists_final (by decide +kernel)
        ⟨?_, by decide +kernel, by decide +kernel, by decide +kernel⟩⟩
    all_goals rintro ⟨_ | _, _ | _⟩ <;> exact ⟨rfl, rfl⟩
  exact ⟨s, s', Transition.System.reachable_of_run (.init rfl) hrun, hquiescent, hclients, hlisted,
    hrun', hfacts⟩

end Runs

end Server

end DhNet
