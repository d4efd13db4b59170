import DhNet.Game.Homes
import DhNet.Game.LobbyAssignment

/-!
# The lobbies are full

What `AssignLobby` does when nobody interferes, and what becomes of a player that leaves its room
when there is no slot left in the lobbies.

* `assignLobby_reserves`, `assignLobby_fails`: run alone, `AssignLobby` reserves a slot if there is
  one, and otherwise returns `nullptr`.
* `Crowd.login`: as long as there is a slot, one more session can log in and enter a lobby.
* `room_exit_to_nowhere`: with 250 players in the lobbies, a player that leaves its room is nowhere.
-/

namespace DhNet

namespace Server

/-! ## `AssignLobby` alone -/

section Search

variable {availableSlots : ℕ → ℤ}

/-- An access of `AssignLobby` that is not the last one, without a spurious failure. -/
def Search.Goes (availableSlots : ℕ → ℤ) (search search' : Search) : Prop :=
  search.next maxLobbyCount availableSlots false = .again search'

open Relation

/-- Without spurious failures a call alone comes to its last access. -/
theorem Search.Alone.goes {search : Search} (alone : search.Alone maxLobbyCount availableSlots) :
    ∃ last, ReflTransGen (Search.Goes availableSlots) search last ∧
      last.Alone maxLobbyCount availableSlots ∧
      ∀ search', last.next maxLobbyCount availableSlots false ≠ .again search' := by
  induction hleft : search.left maxLobbyCount using Nat.strong_induction_on
    generalizing search with
  | h left ih =>
    have hnext := alone.next false
    cases houtcome : search.next maxLobbyCount availableSlots false with
    | again search' =>
      rw [houtcome] at hnext
      obtain ⟨last, hgoes, hlast⟩ := ih _ (hleft ▸ hnext.2 rfl) hnext.1 rfl
      exact ⟨last, .head houtcome hgoes, hlast⟩
    | reserved i => exact ⟨search, .refl, alone, fun _ h => nomatch houtcome.symm.trans h⟩
    | failed => exact ⟨search, .refl, alone, fun _ h => nomatch houtcome.symm.trans h⟩

/-- `AssignLobby` returns `nullptr` if no lobby has a slot. -/
theorem assignLobby_fails (full : ∀ i < maxLobbyCount, availableSlots i ≤ 0) :
    ∃ search, ReflTransGen (Search.Goes availableSlots) (.start .lobby) search ∧
      search.next maxLobbyCount availableSlots false = .failed := by
  obtain ⟨last, hgoes, alone, hlast⟩ := (Search.Alone.start maxLobbyCount availableSlots).goes
  have hnext := alone.next false
  refine ⟨last, hgoes, ?_⟩
  cases houtcome : last.next maxLobbyCount availableSlots false with
  | again search' => exact absurd houtcome (hlast search')
  | reserved i =>
    rw [houtcome] at hnext
    exact absurd hnext.2.1 (not_lt.2 (full i hnext.1))
  | failed => rfl

/-- `AssignLobby` reserves a slot if a lobby has one. -/
theorem assignLobby_reserves (free : ∃ i, i < maxLobbyCount ∧ 0 < availableSlots i) :
    ∃ search i, ReflTransGen (Search.Goes availableSlots) (.start .lobby) search ∧
      search.next maxLobbyCount availableSlots false = .reserved i ∧ i < maxLobbyCount ∧
      0 < availableSlots i := by
  obtain ⟨last, hgoes, alone, hlast⟩ := (Search.Alone.start maxLobbyCount availableSlots).goes
  have hnext := alone.next false
  cases houtcome : last.next maxLobbyCount availableSlots false with
  | again search' => exact absurd houtcome (hlast search')
  | reserved i =>
    rw [houtcome] at hnext
    exact ⟨last, i, hgoes, houtcome, hnext.1, hnext.2.1⟩
  | failed =>
    rw [houtcome] at hnext
    obtain ⟨i, hi, hslot⟩ := free
    exact absurd hslot (not_lt.2 (hnext i hi))

end Search

/-! ## Calls and jobs alone -/

section Alone

open Relation

variable {P : Type*} [DecidableEq P] {acc : Accounts P} {s s' : State P} {p : P} {c c' : Client}
  {e : Effect P} {target : PlaceId} {start : State P → Prop}

theorem access_setClient (s : State P) (c : Client) (r : Client × Effect P) :
    (s.setClient p c).access acc p r = (s.apply acc p r.2).setClient p r.1 := by
  obtain ⟨c', e⟩ := r
  cases e <;> simp [State.access, State.apply, State.setClient, State.setPlace]

theorem reachable_login (reach : (systemFrom acc start).Reachable (s.setClient p c))
    (h : onLoginResult p (fun target => (s.place target).availableSlots) false c =
      some (c', e)) :
    (systemFrom acc start).Reachable ((s.apply acc p e).setClient p c') := by
  refine reach.step (a := .login p false) ?_
  show (onLoginResult p _ false ((s.setClient p c).client p)).map _ = _
  rw [client_setClient, if_pos rfl]
  exact (congrArg _ h).trans (congrArg some (access_setClient s c (c', e)))

theorem reachable_request (reach : (systemFrom acc start).Reachable (s.setClient p c))
    (h : handleRequest acc p s.roomNum (fun target => (s.place target).availableSlots) false c =
      some (c', e)) :
    (systemFrom acc start).Reachable ((s.apply acc p e).setClient p c') := by
  refine reach.step (a := .request p false) ?_
  show (handleRequest acc p _ _ false ((s.setClient p c).client p)).map _ = _
  rw [client_setClient, if_pos rfl]
  exact (congrArg _ h).trans (congrArg some (access_setClient s c (c', e)))

/-- `AssignLobby` in a login result. -/
theorem reachable_login_search {search search' : Search}
    (reach : (systemFrom acc start).Reachable
      (s.setClient p { c with login := .assignLobby search }))
    (goes : ReflTransGen (Search.Goes fun i => (s.place ⟨.lobby, i⟩).availableSlots) search
      search') :
    (systemFrom acc start).Reachable (s.setClient p { c with login := .assignLobby search' }) := by
  induction goes with
  | refl => exact reach
  | @tail search₁ search₂ _ hgoes ih =>
    refine reachable_login ih (e := .none) ?_
    have hnext : search₁.next maxLobbyCount (fun i => (s.place ⟨.lobby, i⟩).availableSlots)
      false = .again search₂ := hgoes
    simp only [onLoginResult, hnext]

/-- `AssignLobby` in a request. -/
theorem reachable_request_search {search search' : Search}
    (reach : (systemFrom acc start).Reachable
      (s.setClient p { c with request := .search .lobby search }))
    (goes : ReflTransGen (Search.Goes fun i => (s.place ⟨.lobby, i⟩).availableSlots) search
      search') :
    (systemFrom acc start).Reachable
      (s.setClient p { c with request := .search .lobby search' }) := by
  induction goes with
  | refl => exact reach
  | @tail search₁ search₂ _ hgoes ih =>
    refine reachable_request ih (e := .none) ?_
    have hnext : search₁.next maxLobbyCount (fun i => (s.place ⟨.lobby, i⟩).availableSlots)
      false = .again search₂ := hgoes
    simp only [handleRequest, Kind.places, hnext]

/-- The client of a session that has logged in, at this point of its login result. -/
def Client.loggedIn (login : LoginPc) : Client :=
  { Client.initial with loginProcessed := true, hasPlayer := true, login := login }

/-- A session logs in while a lobby has a slot. -/
theorem reachable_login_reserved (reach : (systemFrom acc start).Reachable s)
    (fresh : s.client p = .initial)
    (free : ∃ i, i < maxLobbyCount ∧ 0 < (s.place ⟨.lobby, i⟩).availableSlots) :
    ∃ i < maxLobbyCount, ∃ s' : State P,
      (systemFrom acc start).Reachable (s'.setClient p (.loggedIn .idle)) ∧
      s'.client = s.client ∧ s'.place = Function.update s.place ⟨.lobby, i⟩
        ((s.place ⟨.lobby, i⟩).reserve.doAsync (.enter p)) := by
  have hresult : (systemFrom acc start).Reachable (s.setClient p { Client.initial with
      loginProcessed := true, login := .isConnected true }) := by
    refine reach.step (a := .loginResult p true) ?_
    simp [systemFrom, Server.step, fresh, Client.initial]
  have hassign : (systemFrom acc start).Reachable ((s.apply acc p .addPlayer).setClient p
      (.loggedIn (.assignLobby (.start .lobby)))) :=
    reachable_login (reachable_login (reachable_login hresult rfl) rfl) rfl
  obtain ⟨search, i, hgoes, hreserved, hi, -⟩ := assignLobby_reserves free
  have hfound : (systemFrom acc start).Reachable ((s.apply acc p .addPlayer).setClient p
      (.loggedIn (.assignLobby search))) :=
    reachable_login_search (c := .loggedIn .idle) hassign hgoes
  have hreserve : (systemFrom acc start).Reachable (((s.apply acc p .addPlayer).apply acc p
      (.reserve ⟨.lobby, i⟩)).setClient p (.loggedIn (.doAsync i))) := by
    refine reachable_login hfound ?_
    have hreserved' : search.next maxLobbyCount (fun i =>
        ((s.apply acc p .addPlayer).place ⟨.lobby, i⟩).availableSlots) false = .reserved i :=
      hreserved
    simp only [onLoginResult, Client.loggedIn, hreserved']
  refine ⟨i, hi, _, reachable_login hreserve rfl, rfl, ?_⟩
  simp [State.apply, State.setPlace]

/-- The last access of the `Enter` of a lobby. -/
theorem reachable_entered (reach : (systemFrom acc start).Reachable s)
    (lobby : target.kind = .lobby)
    (running : (s.place target).running = some (.enter p, .session))
    (alive : (s.client p).alive = true) :
    ∃ packets, (systemFrom acc start).Reachable
      ((s.goOn target (s.place target).players none).send target packets) := by
  refine ⟨Lobby.welcome (s.registry acc) target.index
    ((s.goOn target (s.place target).players none).place target).players p,
    reach.step (a := .runJob target) ?_⟩
  show runJob acc s target = _
  simp only [runJob, running, if_pos alive, State.entered, lobby]
  rfl

/-- The `Enter` of a lobby runs on its own. -/
theorem reachable_enter (target : PlaceId) (reach : (systemFrom acc start).Reachable s)
    (lobby : target.kind = .lobby)
    (idle : (s.place target).running = none) (waiting : (s.place target).waiting = [.enter p])
    (absent : (s.place target).players.find? (acc.playerId p) = none)
    (alive : (s.client p).alive = true) :
    ∃ s' : State P, (systemFrom acc start).Reachable s' ∧ (∀ q ≠ p, s'.client q = s.client q) ∧
      s'.place = Function.update s.place target { s.place target with
        players := (s.place target).players.insert (acc.playerId p) p
        waiting := [] } := by
  have hstart : (systemFrom acc start).Reachable (s.setPlace target
      { s.place target with waiting := [], running := some (.enter p, .body) }) := by
    refine reach.step (a := .startJob target) ?_
    simp [systemFrom, Server.step, idle, waiting]
  have hbody : (systemFrom acc start).Reachable (s.setPlace target { s.place target with
      players := (s.place target).players.insert (acc.playerId p) p
      waiting := []
      running := some (.enter p, .pointer) }) := by
    refine hstart.step (a := .runJob target) ?_
    simp [systemFrom, Server.step, runJob, State.setPlace, State.goOn, enterBody, lobby,
      State.registry, absent]
  have hpointer : (systemFrom acc start).Reachable ((s.setPlace target { s.place target with
      players := (s.place target).players.insert (acc.playerId p) p
      waiting := []
      running := some (.enter p, .index) }).setClient p
        ((s.client p).setCurrent target.kind (some target.index))) := by
    refine hbody.step (a := .runJob target) ?_
    simp [systemFrom, Server.step, runJob, State.setPlace, State.goOn, State.setClient]
  have hindex : (systemFrom acc start).Reachable ((s.setPlace target { s.place target with
      players := (s.place target).players.insert (acc.playerId p) p
      waiting := []
      running := some (.enter p, .session) }).setClient p
        (((s.client p).setCurrent target.kind (some target.index)).setIndex target.kind
          target.index)) := by
    refine hpointer.step (a := .runJob target) ?_
    simp [systemFrom, Server.step, runJob, State.setPlace, State.goOn, State.setClient]
  obtain ⟨packets, hentered⟩ := reachable_entered (p := p) hindex lobby
    (by simp [State.setPlace, State.setClient])
    (by simp [State.setClient, Client.setCurrent, Client.setIndex, alive])
  refine ⟨_, hentered, fun q hq => ?_, ?_⟩
  · simp [State.send, State.goOn, State.setPlace, State.setClient, hq]
  · simp [State.send, State.goOn, State.setPlace, State.setClient, idle]

/-- `LeaveRoomAndReenterLobby` while no lobby has a slot: the `Leave` is queued, and no `Enter`. -/
theorem reachable_leave_room {i : ℕ} (current : c.current .room = some i)
    (full : ∀ j < maxLobbyCount, (s.place ⟨.lobby, j⟩).availableSlots ≤ 0)
    (reach : (systemFrom acc start).Reachable
      (s.setClient p { c with request := .leave .lobby .lock })) :
    ∃ (s' : State P) (packet : Notice), (systemFrom acc start).Reachable (s'.setClient p
        { (c.setCurrent .room none).setIndex .room (-1) with request := .idle }) ∧
      s'.place = Function.update s.place ⟨.room, i⟩ { s.place ⟨.room, i⟩ with
        waiting := (s.place ⟨.room, i⟩).waiting ++ [.exit p, .broadcast packet] } := by
  have hlock : (systemFrom acc start).Reachable
      (s.setClient p { c with request := .leave .lobby (.doAsync i) }) := by
    refine reachable_request (e := .none) reach ?_
    simp [handleRequest, leave, Kind.other, current]
  have hexit : (systemFrom acc start).Reachable
      ((s.apply acc p (.doAsync ⟨.room, i⟩ (.exit p))).setClient p
        { c with request := .leave .lobby (.notify i) }) := reachable_request hlock rfl
  obtain ⟨packet, hnotify⟩ : ∃ packet, (systemFrom acc start).Reachable
      (((s.apply acc p (.doAsync ⟨.room, i⟩ (.exit p))).apply acc p
        (.doAsync ⟨.room, i⟩ (.broadcast packet))).setClient p
        { c with request := .leave .lobby .resetPointer }) := ⟨_, reachable_request hexit rfl⟩
  have hpointer : (systemFrom acc start).Reachable
      (((s.apply acc p (.doAsync ⟨.room, i⟩ (.exit p))).apply acc p
        (.doAsync ⟨.room, i⟩ (.broadcast packet))).setClient p
        { c.setCurrent .room none with request := .leave .lobby .resetIndex }) :=
    reachable_request (e := .none) hnotify rfl
  obtain ⟨s', hsearch, hplace⟩ : ∃ s' : State P, (systemFrom acc start).Reachable (s'.setClient p
      { (c.setCurrent .room none).setIndex .room (-1) with
        request := .search .lobby (.start .lobby) }) ∧
      s'.place = Function.update s.place ⟨.room, i⟩ { s.place ⟨.room, i⟩ with
        waiting := (s.place ⟨.room, i⟩).waiting ++ [.exit p, .broadcast packet] } := by
    refine ⟨_, reachable_request (e := .none) hpointer rfl, ?_⟩
    simp [State.apply, State.setPlace, Place.doAsync]
  have hslots : ∀ j, (s'.place ⟨.lobby, j⟩).availableSlots =
      (s.place ⟨.lobby, j⟩).availableSlots := by
    intro j
    rw [hplace, Function.update_of_ne (by simp)]
  obtain ⟨search, hgoes, hfailed⟩ := assignLobby_fails fun j hj => (hslots j).trans_le (full j hj)
  refine ⟨s', packet, ?_, hplace⟩
  refine reachable_request (e := .none) (reachable_request_search hsearch hgoes) ?_
  simp only [handleRequest, Kind.places, hfailed]

theorem reachable_broadcast (target : PlaceId) (packet : Notice)
    (reach : (systemFrom acc start).Reachable s)
    (running : (s.place target).running = some (.broadcast packet, .body)) :
    ∃ packets, (systemFrom acc start).Reachable
      ((s.goOn target (s.place target).players none).send target packets) := by
  refine ⟨broadcast (s.registry acc) (s.place target).players packet,
    reach.step (a := .runJob target) ?_⟩
  show runJob acc s target = _
  simp only [runJob, running]

/-- The `Leave` of a room and the broadcast behind it run on their own. -/
theorem reachable_leave_jobs (target : PlaceId) (reach : (systemFrom acc start).Reachable s)
    (room : target.kind = .room) (idle : (s.place target).running = none) {packet : Notice} {q : P}
    (waiting : (s.place target).waiting = [.exit p, .broadcast packet])
    (found : (s.place target).players.find? (acc.playerId p) = some q) :
    ∃ s' : State P, (systemFrom acc start).Reachable s' ∧ s'.client = s.client ∧
      s'.place = Function.update s.place target
        ⟨(s.place target).players.erase (acc.playerId p), (s.place target).availableSlots + 1, [],
          none⟩ := by
  have hstart : (systemFrom acc start).Reachable (s.setPlace target { s.place target with
      waiting := [.broadcast packet]
      running := some (.exit p, .body) }) := by
    refine reach.step (a := .startJob target) ?_
    simp [systemFrom, Server.step, idle, waiting]
  have herased : (systemFrom acc start).Reachable (s.setPlace target { s.place target with
      players := (s.place target).players.erase (acc.playerId p)
      waiting := [.broadcast packet]
      running := some (.exit p, .release) }) := by
    refine hstart.step (a := .runJob target) ?_
    simp [systemFrom, Server.step, runJob, State.setPlace, State.goOn, found]
  have hreleased : (systemFrom acc start).Reachable (s.setPlace target
      ⟨(s.place target).players.erase (acc.playerId p), (s.place target).availableSlots + 1,
        [.broadcast packet], none⟩) := by
    refine herased.step (a := .runJob target) ?_
    simp [systemFrom, Server.step, runJob, State.setPlace, room]
  have hbroadcast : (systemFrom acc start).Reachable (s.setPlace target
      ⟨(s.place target).players.erase (acc.playerId p), (s.place target).availableSlots + 1,
        [], some (.broadcast packet, .body)⟩) := by
    refine hreleased.step (a := .startJob target) ?_
    simp [systemFrom, Server.step, State.setPlace]
  obtain ⟨packets, hsent⟩ := reachable_broadcast target packet hbroadcast
    (by simp only [State.setPlace, Function.update_self])
  refine ⟨_, hsent, rfl, ?_⟩
  simp [State.send, State.goOn, State.setPlace]

end Alone

/-! ## A crowd in the lobbies -/

section Crowd

/-- Every session logs in with an account of its own. -/
def ownAccounts : Accounts ℕ := ⟨id, fun _ => [65]⟩

variable {guest : Client} {room : Place ℕ} {n : ℕ} {s : State ℕ}

/-- Nothing is under way, session 0 and the first room are as given, and the sessions from 1 to `n`
take a slot each in the lobbies. -/
structure Crowd (guest : Client) (room : Place ℕ) (n : ℕ) (s : State ℕ) : Prop where
  reachable : (system ownAccounts).Reachable s
  quiescent : s.Quiescent
  guest : s.client 0 = guest
  room : s.place ⟨.room, 0⟩ = room
  fresh : ∀ q, n < q → s.client q = .initial
  members : ∀ target ≠ ⟨.room, 0⟩, ∀ id q, (s.place target).players.find? id = some q →
    id = q ∧ 0 < q ∧ q ≤ n
  slots : ∑ i ∈ Finset.range maxLobbyCount, (s.place ⟨.lobby, i⟩).availableSlots =
    maxLobbyCount * maxLobbyPlayers - n

/-- One more session logs in and enters a lobby. -/
theorem Crowd.login (crowd : Crowd guest room n s) (hn : n < maxLobbyCount * maxLobbyPlayers) :
    ∃ s', Crowd guest room (n + 1) s' := by
  have hfree : ∃ i, i < maxLobbyCount ∧ 0 < (s.place ⟨.lobby, i⟩).availableSlots := by
    by_contra hnone
    have hsum : ∑ i ∈ Finset.range maxLobbyCount, (s.place ⟨.lobby, i⟩).availableSlots ≤ 0 := by
      refine Finset.sum_nonpos fun i hi => ?_
      by_contra hpos
      exact hnone ⟨i, Finset.mem_range.1 hi, not_le.1 hpos⟩
    have hslots := crowd.slots
    omega
  obtain ⟨i, hi, s₁, hreach, hclient, hplace⟩ :=
    reachable_login_reserved crowd.reachable (crowd.fresh (n + 1) (Nat.lt_succ_self n)) hfree
  have hlobby : s₁.place ⟨.lobby, i⟩ = (s.place ⟨.lobby, i⟩).reserve.doAsync (.enter (n + 1)) := by
    rw [hplace, Function.update_self]
  have habsent : (s.place ⟨.lobby, i⟩).players.find? (n + 1) = none := by
    cases hfind : (s.place ⟨.lobby, i⟩).players.find? (n + 1) with
    | none => rfl
    | some q =>
      have hmember := crowd.members ⟨.lobby, i⟩ (by simp) (n + 1) q hfind
      omega
  obtain ⟨hwaiting, hrunning⟩ := crowd.quiescent ⟨.lobby, i⟩
  obtain ⟨s', hreach', hclient', hplace'⟩ := reachable_enter ⟨.lobby, i⟩ hreach rfl
    (by rw [State.setClient, hlobby]; exact hrunning)
    (by rw [State.setClient, hlobby, Place.doAsync, Place.reserve, hwaiting]; rfl)
    (by rw [State.setClient, hlobby]; exact habsent)
    (by rw [client_setClient, if_pos rfl]; rfl)
  have hothers : ∀ q ≠ n + 1, s'.client q = s.client q := by
    intro q hq
    rw [hclient' q hq, client_setClient, if_neg hq, hclient]
  have hplaces : s'.place = Function.update s.place ⟨.lobby, i⟩
      ⟨(s.place ⟨.lobby, i⟩).players.insert (n + 1) (n + 1),
        (s.place ⟨.lobby, i⟩).availableSlots - 1, [], none⟩ := by
    rw [hplace', State.setClient, hlobby, hplace, Function.update_idem]
    simp [Place.doAsync, Place.reserve, hrunning, ownAccounts]
  refine ⟨s', hreach', fun target => ?_, ?_, ?_, fun q hq => ?_, fun target ht id q hfind => ?_,
    ?_⟩
  · rw [hplaces, Function.update_apply]
    split_ifs
    · exact ⟨rfl, rfl⟩
    · exact crowd.quiescent target
  · exact (hothers 0 (Nat.succ_ne_zero n).symm).trans crowd.guest
  · rw [hplaces, Function.update_of_ne (by simp)]
    exact crowd.room
  · exact (hothers q hq.ne').trans (crowd.fresh q (by omega))
  · rw [hplaces, Function.update_apply] at hfind
    split_ifs at hfind with hj
    · rw [SortedMap.find?_insert] at hfind
      split_ifs at hfind with hid
      · cases hfind
        exact ⟨hid, Nat.succ_pos n, le_rfl⟩
      · have hmember := crowd.members ⟨.lobby, i⟩ (by simp) id q hfind
        omega
    · have hmember := crowd.members target ht id q hfind
      omega
  · have hterm : ∀ j, (s'.place ⟨.lobby, j⟩).availableSlots =
        (s.place ⟨.lobby, j⟩).availableSlots - if j = i then 1 else 0 := by
      intro j
      rw [hplaces, Function.update_apply]
      by_cases hj : j = i
      · simp [hj]
      · simp [hj]
    have hslots := crowd.slots
    simp only [hterm, Finset.sum_sub_distrib, Finset.sum_ite_eq', Finset.mem_range, if_pos hi]
    push_cast
    omega

/-- Sessions log in one after the other. -/
theorem Crowd.grow (crowd : Crowd guest room 0 s) (hn : n ≤ maxLobbyCount * maxLobbyPlayers) :
    ∃ s', Crowd guest room n s' := by
  induction n with
  | zero => exact ⟨s, crowd⟩
  | succ n ih =>
    obtain ⟨s', crowd'⟩ := ih (Nat.le_of_succ_le hn)
    exact crowd'.login hn

/-- Session 0 logs in and enters a room. -/
theorem crowd_guest : ∃ s, Crowd (s.client 0) (s.place ⟨.room, 0⟩) 0 s ∧ (s.client 0).Resting ∧
    (s.client 0).alive = true ∧ (s.client 0).request = .idle ∧
    (s.client 0).current .room = some 0 ∧
    (s.place ⟨.room, 0⟩).players = SortedMap.empty.insert 0 0 := by
  obtain ⟨s, hrun, hquiescent, hfresh, hmembers, hslots, hguest⟩ : ∃ s : State ℕ,
      (system ownAccounts).run .initial (List.flatten [
        .loginResult 0 true :: List.replicate 12 (.login 0 false),
        .startJob ⟨.lobby, 0⟩ :: List.replicate 4 (.runJob ⟨.lobby, 0⟩),
        .reqRoomEnter 0 :: List.replicate 7 (.request 0 false),
        .startJob ⟨.lobby, 0⟩ :: List.replicate 2 (.runJob ⟨.lobby, 0⟩),
        .startJob ⟨.room, 0⟩ :: List.replicate 4 (.runJob ⟨.room, 0⟩),
        [.startJob ⟨.room, 0⟩, .runJob ⟨.room, 0⟩]]) = some s ∧ s.Quiescent ∧
      (∀ q, 0 < q → s.client q = .initial) ∧
      (∀ target ≠ ⟨.room, 0⟩, (s.place target).players = .empty) ∧
      (∑ i ∈ Finset.range maxLobbyCount, (s.place ⟨.lobby, i⟩).availableSlots =
        maxLobbyCount * maxLobbyPlayers) ∧
      (s.client 0).Resting ∧ (s.client 0).alive = true ∧ (s.client 0).request = .idle ∧
      (s.client 0).current .room = some 0 ∧
      (s.place ⟨.room, 0⟩).players = SortedMap.empty.insert 0 0 := by
    refine Transition.System.exists_final (by decide +kernel)
      ⟨?_, ?_, ?_, ?_, ⟨rfl, rfl, rfl, rfl⟩, rfl, rfl, rfl, rfl⟩
    · rintro ⟨_ | _, _ | _⟩ <;> exact ⟨rfl, rfl⟩
    · rintro (_ | q) hq
      · cases hq
      · rfl
    · rintro ⟨_ | _, _ | i⟩ ht
      · rfl
      · rfl
      · exact absurd rfl ht
      · rfl
    · decide +kernel
  refine ⟨s, ⟨Transition.System.reachable_of_run (.init rfl) hrun, hquiescent, rfl, rfl, hfresh,
    fun target ht id q hfind => ?_, ?_⟩, hguest⟩
  · rw [hmembers target ht] at hfind
    cases hfind
  · rw [hslots]
    simp

/-- Session 0 is in a room and the lobbies are full when it sends its request to leave the room.
`AssignLobby` finds no slot, but the `Leave` is queued already: when the jobs are done, the player
is connected and logged in and in no lobby or room. -/
theorem room_exit_to_nowhere : ∃ s s₁ s' : State ℕ,
    (system ownAccounts).Reachable s ∧ s.Quiescent ∧ (s.place ⟨.room, 0⟩).Has 0 ∧
    (∀ i < maxLobbyCount, (s.place ⟨.lobby, i⟩).availableSlots = 0) ∧
    step ownAccounts s (.reqRoomExit 0) = some s₁ ∧
    (systemFrom ownAccounts (· = s₁)).Reachable s' ∧ (system ownAccounts).Reachable s' ∧
    s'.Quiescent ∧ (s'.client 0).Resting ∧ ∀ target, ¬ (s'.place target).Has 0 := by
  obtain ⟨s₀, crowd₀, hresting, halive, hrequest, hcurrent, hplayers⟩ := crowd_guest
  obtain ⟨s, crowd⟩ := crowd₀.grow le_rfl
  have hfull : ∀ i < maxLobbyCount, (s.place ⟨.lobby, i⟩).availableSlots = 0 := by
    obtain ⟨_, stocked⟩ := stocked_of_reachable crowd.reachable
    have hslots := crowd.slots
    rw [Nat.cast_mul, sub_self, Finset.sum_eq_zero_iff_of_nonneg fun i _ => stocked.available _]
      at hslots
    exact fun i hi => hslots i (Finset.mem_range.2 hi)
  have hmember : (s.place ⟨.room, 0⟩).players.find? 0 = some 0 := by
    rw [crowd.room, hplayers]
    rfl
  obtain ⟨hwaiting, hrunning⟩ := crowd.quiescent ⟨.room, 0⟩
  have hstep : step ownAccounts s (.reqRoomExit 0) = some (s.setClient 0
      { s₀.client 0 with request := .leave .lobby .lock }) := by
    simp only [Server.step, State.startRequest, crowd.guest, halive, hresting.hasPlayer, hrequest,
      and_self, if_true]
  have hreach₁ : (systemFrom ownAccounts (· = s.setClient 0
      { s₀.client 0 with request := .leave .lobby .lock })).Reachable (s.setClient 0
        { s₀.client 0 with request := .leave .lobby .lock }) := .init rfl
  obtain ⟨s₂, packet, hreach₂, hplace₂⟩ := reachable_leave_room hcurrent
    (fun i hi => (hfull i hi).le) hreach₁
  have hroom : s₂.place ⟨.room, 0⟩ = { s.place ⟨.room, 0⟩ with
      waiting := [.exit 0, .broadcast packet] } := by
    rw [hplace₂, Function.update_self, hwaiting]
    rfl
  obtain ⟨s', hreach', hclient', hplace'⟩ := reachable_leave_jobs ⟨.room, 0⟩ hreach₂ rfl
    (by rw [State.setClient, hroom]; exact hrunning) (by rw [State.setClient, hroom])
    (by rw [State.setClient, hroom]; exact hmember)
  have hplaces : s'.place = Function.update s.place ⟨.room, 0⟩
      ⟨(s.place ⟨.room, 0⟩).players.erase 0, (s.place ⟨.room, 0⟩).availableSlots + 1, [],
        none⟩ := by
    rw [hplace', State.setClient, hroom, hplace₂, Function.update_idem]
    rfl
  refine ⟨s, _, s', crowd.reachable, crowd.quiescent, ⟨0, hmember⟩, hfull, hstep, hreach',
    reachable_of_systemFrom _ (crowd.reachable.step (a := .reqRoomExit 0) hstep) hreach',
    fun target => ?_, ?_, ?_⟩
  · rw [hplaces, Function.update_apply]
    split_ifs
    · exact ⟨rfl, rfl⟩
    · exact crowd.quiescent target
  · rw [hclient', client_setClient, if_pos rfl]
    exact ⟨hresting.connected, hresting.hasPlayer, hresting.login, rfl⟩
  · rintro target ⟨id, hfind⟩
    rw [hplaces, Function.update_apply] at hfind
    split_ifs at hfind with htarget
    · rw [SortedMap.find?_erase] at hfind
      split_ifs at hfind with hid
      rw [crowd.room, hplayers, SortedMap.find?_insert, if_neg hid] at hfind
      cases hfind
    · exact absurd (crowd.members target htarget id 0 hfind).2.1 (lt_irrefl 0)

end Crowd

end Server

end DhNet
