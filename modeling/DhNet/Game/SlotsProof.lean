import DhNet.Lib.Counting
import DhNet.Game.Server
import DhNet.Game.LobbyViews

/-!
# Slots are conserved

Every slot of a lobby or a room is available, taken by a member, reserved for an `Enter` that has
not started, or on its way back (`release`, between the update of `m_players` and the `fetch_add`).
The sum over these is the same before and after every access.

* `balanced_of_onLoginResult`, `balanced_of_handleRequest`: what a call does to the slots it holds
  is what its effect does to the place.
* `keeps_of_jobStep`: the jobs keep the sum of their place.
* `Stocked`: the sum over the clients that have ever held a slot, for any number of sessions.
* `slot_conservation`: the sum is the capacity in every reachable state, with its consequences.
-/

open Finset

namespace DhNet

namespace Server

/-! ## Reservations and where they are -/

/-- A job that uses up a reservation. -/
def Job.isEnter {P : Type*} : Job P → Bool
  | .enter _ => true
  | _ => false

section Count

variable {P : Type*}

/-- The `Enter` jobs of a place that have not started. -/
def Place.enters (place : Place P) : ℕ :=
  place.waiting.countP Job.isEnter +
    match place.running with
    | some (.enter _, .body) => 1
    | _ => 0

/-- The slot that the job of a place has freed and not yet returned. -/
def Place.releasing (place : Place P) : ℕ :=
  match place.running with
  | some (_, .release) => 1
  | _ => 0

/-- The slots of a place that are available, taken, reserved by a job or on their way back. -/
def Place.total (place : Place P) : ℤ :=
  place.availableSlots + place.players.size + place.enters + place.releasing

/-- The reservations a login result holds at a place. -/
def LoginPc.held (target : PlaceId) : LoginPc → ℕ
  | .doAsync lobby => if target = ⟨.lobby, lobby⟩ then 1 else 0
  | _ => 0

/-- The reservations a request holds at a place. -/
def RequestPc.held (target : PlaceId) : RequestPc → ℕ
  | .doAsync target' => if target = target' then 1 else 0
  | _ => 0

/-- The reservations that the calls of a client hold at a place. -/
def Client.held (target : PlaceId) (c : Client) : ℕ := c.login.held target + c.request.held target

/-- The reservations at a place whose `Enter` has not started. -/
def State.reservations [Fintype P] (s : State P) (target : PlaceId) : ℕ :=
  ∑ p, (s.client p).held target + (s.place target).enters

/-! ## The accesses of the clients -/

/-- The reservations that an effect turns into an `Enter` job of a place. -/
def Effect.enters (target : PlaceId) : Effect P → ℕ
  | .doAsync target' job => if target = target' ∧ job.isEnter then 1 else 0
  | _ => 0

/-- The reservations that an effect makes at a place. -/
def Effect.reserves (roomNum : ℕ) (target : PlaceId) : Effect P → ℕ
  | .reserve target' => if target = target' then 1 else 0
  | .makeRoom => if target = ⟨.room, roomNum⟩ then 1 else 0
  | _ => 0

/-- An exchange is only tried with a positive value. -/
def ReservePc.Valid : ReservePc → Prop
  | .load => True
  | .exchange avail => 0 < avail

/-- Rooms are only scanned, and exchanges are only tried with positive values. -/
def Search.Valid (kind : Kind) : Search → Prop
  | .count _ _ _ => kind = .lobby
  | .best _ pc => kind = .lobby ∧ pc.Valid
  | .scan _ pc => pc.Valid

/-- The searches of a client are valid, and a login result is in progress only behind the exchange
of `m_loginProcessed`. -/
structure Client.Valid (c : Client) : Prop where
  login : ∀ search, c.login = .assignLobby search → search.Valid .lobby
  request : ∀ target search, c.request = .search target search → search.Valid target
  processed : c.login ≠ .idle → c.loginProcessed = true

/-- What an access of `TryReserveSlot` may lead to. -/
def ReserveOutcome.Valid (availableSlots : ℤ) : ReserveOutcome → Prop
  | .again pc => pc.Valid
  | .reserved => 0 < availableSlots
  | .full => True

/-- What an access of a search may lead to: a reservation only where a slot is available, and only
at a place that exists. -/
def SearchOutcome.Valid (kind : Kind) (places : ℕ) (availableSlots : ℕ → ℤ) : SearchOutcome → Prop
  | .again search => search.Valid kind
  | .reserved i => 0 < availableSlots i ∧ (kind = .room → i < places)
  | .failed => True

theorem tryReserveSlot_valid (availableSlots : ℤ) (spurious : Bool) {pc : ReservePc}
    (valid : pc.Valid) : (tryReserveSlot availableSlots spurious pc).Valid availableSlots := by
  cases pc with
  | load =>
    simp only [tryReserveSlot]
    split_ifs with h
    · trivial
    · exact not_le.1 h
  | exchange avail =>
    simp only [tryReserveSlot]
    split_ifs with h
    · obtain ⟨rfl, -⟩ := h
      exact valid
    · trivial

theorem Search.next_valid {kind : Kind} (places : ℕ) (availableSlots : ℕ → ℤ) (spurious : Bool)
    {search : Search} (valid : search.Valid kind) :
    (search.next places availableSlots spurious).Valid kind places availableSlots := by
  cases search with
  | count i fullest bestCount =>
    obtain rfl : kind = .lobby := valid
    simp only [Search.next]
    split_ifs
    · rfl
    · rfl
    · cases fullest with
      | some i => exact ⟨rfl, trivial⟩
      | none => exact trivial
  | best i pc =>
    obtain ⟨rfl, hpc⟩ := valid
    have hspec := tryReserveSlot_valid (availableSlots i) spurious hpc
    simp only [Search.next]
    cases hout : tryReserveSlot (availableSlots i) spurious pc with
    | again pc => exact ⟨rfl, by rwa [hout] at hspec⟩
    | reserved => exact ⟨by rwa [hout] at hspec, nofun⟩
    | full => exact trivial
  | scan i pc =>
    have hspec := tryReserveSlot_valid (availableSlots i) spurious valid
    simp only [Search.next]
    split_ifs with hi
    · cases hout : tryReserveSlot (availableSlots i) spurious pc with
      | again pc => exact (by rwa [hout] at hspec : pc.Valid)
      | reserved => exact ⟨by rwa [hout] at hspec, fun _ => hi⟩
      | full => exact trivial
    · trivial

theorem Search.start_valid (kind : Kind) : (Search.start kind).Valid kind := by
  cases kind
  · rfl
  · trivial

/-- What an access of a client may do to the slots: the reservations it holds change as the place
does, and it reserves only where a slot is available. -/
structure Balanced (roomNum : ℕ) (availableSlots : PlaceId → ℤ) (c c' : Client) (e : Effect P) :
    Prop where
  held : ∀ target, c'.held target + e.enters target = c.held target + e.reserves roomNum target
  valid : c.Valid → c'.Valid
  reserve : ∀ target, e = .reserve target → c.Valid →
    0 < availableSlots target ∧ (target.kind = .room → target.index < roomNum)

variable (acc : Accounts P) {p : P} {c c' : Client} {e : Effect P} {availableSlots : PlaceId → ℤ}
  {spurious : Bool} {roomNum : ℕ}

theorem balanced_of_onLoginResult (h : onLoginResult p availableSlots spurious c = some (c', e)) :
    Balanced roomNum availableSlots c c' e := by
  unfold onLoginResult at h
  have hprocessed : c.Valid → c.loginProcessed = true := by
    intro valid
    refine valid.processed fun hidle => ?_
    simp only [hidle] at h
    cases h
  cases hlogin : c.login with
  | idle =>
    simp only [hlogin] at h
    cases h
  | assignLobby search =>
    simp only [hlogin, Option.some.injEq] at h
    have hvalid : c.Valid → _ := fun valid => Search.next_valid maxLobbyCount
      (fun i => availableSlots ⟨.lobby, i⟩) spurious (valid.login search hlogin)
    cases hnext : search.next maxLobbyCount (fun i => availableSlots ⟨.lobby, i⟩) spurious with
    | again search =>
      simp only [hnext, Prod.mk.injEq] at h hvalid
      obtain ⟨rfl, rfl⟩ := h
      refine ⟨fun target => by simp [Client.held, hlogin, LoginPc.held, Effect.enters,
        Effect.reserves], fun valid => ⟨?_, valid.request, fun _ => hprocessed valid⟩, nofun⟩
      rintro _ ⟨⟩
      exact hvalid valid
    | reserved lobby =>
      simp only [hnext, Prod.mk.injEq] at h hvalid
      obtain ⟨rfl, rfl⟩ := h
      refine ⟨fun target => by simp [Client.held, hlogin, LoginPc.held, Effect.enters,
        Effect.reserves, Nat.add_comm],
        fun valid => ⟨nofun, valid.request, fun _ => hprocessed valid⟩, ?_⟩
      rintro _ ⟨⟩ valid
      exact ⟨(hvalid valid).1, nofun⟩
    | failed =>
      simp only [hnext, Prod.mk.injEq] at h
      obtain ⟨rfl, rfl⟩ := h
      exact ⟨fun target => by simp [Client.held, hlogin, LoginPc.held, Effect.enters,
        Effect.reserves], fun valid => ⟨nofun, valid.request, fun _ => hprocessed valid⟩, nofun⟩
  | isConnected ok =>
    simp only [hlogin, Option.some.injEq, Prod.mk.injEq] at h
    obtain ⟨rfl, rfl⟩ := h
    refine ⟨fun target => ?_, fun valid => ⟨?_, valid.request, fun _ => hprocessed valid⟩, nofun⟩
    · simp only [Client.held, hlogin, Effect.enters, Effect.reserves]
      split_ifs <;> simp [LoginPc.held]
    · intro search hsearch
      simp only at hsearch
      split_ifs at hsearch
  | doAsync lobby =>
    simp only [hlogin, Option.some.injEq, Prod.mk.injEq] at h
    obtain ⟨rfl, rfl⟩ := h
    exact ⟨fun target => by simp [Client.held, hlogin, LoginPc.held, Effect.enters,
      Effect.reserves, Job.isEnter, Nat.add_comm],
      fun valid => ⟨nofun, valid.request, fun _ => hprocessed valid⟩, nofun⟩
  | add =>
    simp only [hlogin, Option.some.injEq, Prod.mk.injEq] at h
    obtain ⟨rfl, rfl⟩ := h
    refine ⟨fun target => by simp [Client.held, hlogin, LoginPc.held, Effect.enters,
      Effect.reserves], fun valid => ⟨?_, valid.request, fun _ => hprocessed valid⟩, nofun⟩
    rintro _ ⟨⟩
    exact Search.start_valid .lobby
  | _ =>
    simp only [hlogin, Option.some.injEq, Prod.mk.injEq] at h
    obtain ⟨rfl, rfl⟩ := h
    exact ⟨fun target => by simp [Client.held, hlogin, LoginPc.held, Effect.enters,
      Effect.reserves], fun valid => ⟨nofun, valid.request, fun _ => hprocessed valid⟩, nofun⟩

theorem leave_effect (p : P) (roomNum : ℕ) (kind : Kind) (c : Client) (pc : LeavePc) :
    (leave acc p kind c pc).1.login = c.login ∧ (leave acc p kind c pc).1.request = c.request ∧
      (leave acc p kind c pc).1.loginProcessed = c.loginProcessed ∧
      (∀ target, (leave acc p kind c pc).2.1.enters target = 0 ∧
        (leave acc p kind c pc).2.1.reserves roomNum target = 0) ∧
      ∀ target, (leave acc p kind c pc).2.1 ≠ .reserve target := by
  cases pc <;> simp [leave, Effect.enters, Effect.reserves, Client.setCurrent, Client.setIndex,
    Job.isEnter]

theorem balanced_of_handleRequest
    (h : handleRequest acc p roomNum availableSlots spurious c = some (c', e)) :
    Balanced roomNum availableSlots c c' e := by
  unfold handleRequest at h
  cases hrequest : c.request with
  | idle =>
    simp only [hrequest] at h
    cases h
  | leave target pc =>
    simp only [hrequest, Option.some.injEq, Prod.mk.injEq] at h
    obtain ⟨rfl, rfl⟩ := h
    obtain ⟨hlogin, -, hprocessed, hzero, hreserve⟩ := leave_effect acc p roomNum target.other c pc
    refine ⟨fun target' => ?_, fun valid => ⟨?_, ?_, ?_⟩,
      fun target' h => absurd h (hreserve target')⟩
    · simp only [Client.held, hlogin, hrequest, hzero]
      cases (leave acc p target.other c pc).2.2 <;> rfl
    · simp only [hlogin]
      exact valid.login
    · intro target' search hsearch
      cases hpc : (leave acc p target.other c pc).2.2 with
      | some pc =>
        simp only [hpc] at hsearch
        cases hsearch
      | none =>
        simp only [hpc] at hsearch
        cases hsearch
        exact Search.start_valid _
    · simp only [hlogin, hprocessed]
      exact valid.processed
  | search target search =>
    simp only [hrequest, Option.some.injEq] at h
    have hvalid : c.Valid → _ := fun valid => Search.next_valid (target.places roomNum)
      (fun i => availableSlots ⟨target, i⟩) spurious (valid.request target search hrequest)
    cases hnext : search.next (target.places roomNum) (fun i => availableSlots ⟨target, i⟩)
      spurious with
    | again search =>
      simp only [hnext, Prod.mk.injEq] at h hvalid
      obtain ⟨rfl, rfl⟩ := h
      refine ⟨fun target => by simp [Client.held, hrequest, RequestPc.held, Effect.enters,
        Effect.reserves], fun valid => ⟨valid.login, ?_, valid.processed⟩, nofun⟩
      rintro _ _ ⟨⟩
      exact hvalid valid
    | reserved index =>
      simp only [hnext, Prod.mk.injEq] at h hvalid
      obtain ⟨rfl, rfl⟩ := h
      refine ⟨fun target => by simp [Client.held, hrequest, RequestPc.held, Effect.enters,
        Effect.reserves], fun valid => ⟨valid.login, nofun, valid.processed⟩, ?_⟩
      rintro _ ⟨⟩ valid
      refine ⟨(hvalid valid).1, fun hkind => ?_⟩
      have hlt := (hvalid valid).2 hkind
      rwa [show target = .room from hkind] at hlt
    | failed =>
      simp only [hnext, Prod.mk.injEq] at h
      obtain ⟨rfl, rfl⟩ := h
      cases target <;> exact ⟨fun target => by simp [Client.held, hrequest, RequestPc.held,
        Effect.enters, Effect.reserves], fun valid => ⟨valid.login, nofun, valid.processed⟩, nofun⟩
  | chatLock kind message =>
    simp only [hrequest, Option.some.injEq, Prod.mk.injEq] at h
    obtain ⟨rfl, rfl⟩ := h
    cases c.current kind <;> exact ⟨fun target => by simp [Client.held, hrequest,
      RequestPc.held, Effect.enters, Effect.reserves],
      fun valid => ⟨valid.login, nofun, valid.processed⟩, nofun⟩
  | chatAsync target message =>
    simp only [hrequest, Option.some.injEq, Prod.mk.injEq] at h
    obtain ⟨rfl, rfl⟩ := h
    cases target.kind <;> exact ⟨fun target => by simp [Client.held, hrequest,
      RequestPc.held, Effect.enters, Effect.reserves, Job.isEnter],
      fun valid => ⟨valid.login, nofun, valid.processed⟩, nofun⟩
  | _ =>
    simp only [hrequest, Option.some.injEq, Prod.mk.injEq] at h
    obtain ⟨rfl, rfl⟩ := h
    exact ⟨fun target => by simp [Client.held, hrequest, RequestPc.held, Effect.enters,
      Effect.reserves, Job.isEnter], fun valid => ⟨valid.login, nofun, valid.processed⟩, nofun⟩

theorem balanced_of_onDisconnected (h : onDisconnected acc p c = some (c', e)) :
    Balanced roomNum availableSlots c c' e := by
  unfold onDisconnected at h
  cases hdisconnect : c.disconnect with
  | idle | done =>
    simp only [hdisconnect] at h
    cases h
  | leave kind pc =>
    simp only [hdisconnect, Option.some.injEq, Prod.mk.injEq] at h
    obtain ⟨rfl, rfl⟩ := h
    obtain ⟨hlogin, hrequest, hprocessed, hzero, hreserve⟩ := leave_effect acc p roomNum kind c pc
    refine ⟨fun target => ?_, fun valid => ⟨?_, ?_, ?_⟩, fun target h => absurd h (hreserve target)⟩
    · simp only [Client.held, hlogin, hrequest, hzero]
    · simp only [hlogin]
      exact valid.login
    · simp only [hrequest]
      exact valid.request
    · simp only [hlogin, hprocessed]
      exact valid.processed
  | _ =>
    simp only [hdisconnect, Option.some.injEq, Prod.mk.injEq] at h
    obtain ⟨rfl, rfl⟩ := h
    exact ⟨fun target => rfl, fun valid => ⟨valid.login, valid.request, valid.processed⟩, nofun⟩

end Count

/-! ## The jobs -/

section Jobs

variable {P : Type*} {acc : Accounts P} {s s' : State P} {target : PlaceId}

/-- Between its insertion and its end, an `Enter` has its player in the map. -/
def Place.Inserted (acc : Accounts P) (place : Place P) : Prop :=
  ∀ p stage, place.running = some (.enter p, stage) → stage ≠ .body → stage ≠ .release →
    place.players.find? (acc.playerId p) = some p

theorem place_setPlace (s : State P) (target other : PlaceId) (place : Place P) :
    (s.setPlace target place).place other = if other = target then place else s.place other :=
  Function.update_apply _ _ _ _

theorem total_doAsync (place : Place P) {job : Job P} :
    (place.doAsync job).total = place.total + if job.isEnter then 1 else 0 := by
  simp only [Place.total, Place.doAsync, Place.enters, Place.releasing, List.countP_append,
    List.countP_singleton]
  split_ifs <;> push_cast <;> omega

theorem releasing_eq_zero {place : Place P}
    (h : ∀ job, place.running ≠ some (job, .release)) : place.releasing = 0 := by
  unfold Place.releasing
  split
  · next job hrunning => exact absurd hrunning (h job)
  · rfl

/-- The sum stays, no available slot gets lost, and the map holds the player of an `Enter` that is
under way. -/
structure Place.Keeps (acc : Accounts P) (place place' : Place P) : Prop where
  total : place'.total = place.total
  available : place.availableSlots ≤ place'.availableSlots
  inserted : place'.Inserted acc

theorem keeps_of_update {place : Place P} (h : s'.place = Function.update s.place target place)
    (inserted : ∀ other, (s.place other).Inserted acc) (keeps : (s.place target).Keeps acc place)
    (other : PlaceId) : (s.place other).Keeps acc (s'.place other) := by
  rw [h, Function.update_apply]
  split_ifs with hother
  · subst hother
    exact keeps
  · exact ⟨rfl, le_rfl, inserted other⟩

/-- A job that returns without a change of the map. -/
theorem keeps_return {place : Place P} {job : Job P} {stage : Stage}
    (running : place.running = some (job, stage)) (hrelease : stage ≠ .release)
    (henter : stage = .body → job.isEnter = false) :
    place.Keeps acc { place with running := none } := by
  refine ⟨?_, le_rfl, fun _ _ h => nomatch h⟩
  cases stage with
  | release => exact absurd rfl hrelease
  | body =>
    cases job with
    | enter p => cases henter rfl
    | _ => simp [Place.total, Place.enters, Place.releasing, running]
  | _ => cases job <;> simp [Place.total, Place.enters, Place.releasing, running]

theorem keeps_startJob {job : Job P} {waiting : List (Job P)} {place : Place P}
    (idle : place.running = none) (hwaiting : place.waiting = job :: waiting) :
    place.Keeps acc { place with waiting := waiting, running := some (job, .body) } := by
  refine ⟨?_, le_rfl, ?_⟩
  · cases job <;> simp only [Place.total, Place.enters, Place.releasing, idle, hwaiting,
      List.countP_cons, Job.isEnter] <;> push_cast <;> simp
  · rintro p stage ⟨⟩ hbody -
    exact absurd rfl hbody

/-- The effect of a client on the sum of a place. -/
theorem total_apply (acc : Accounts P) (s : State P) (p : P) (e : Effect P) (target : PlaceId) :
    ((s.apply acc p e).place target).total + e.reserves s.roomNum target =
      (s.place target).total + e.enters target := by
  cases e with
  | none | addPlayer | removePlayer => simp [State.apply, Effect.reserves, Effect.enters]
  | doAsync target' job =>
    simp only [State.apply, Effect.reserves, Effect.enters, place_setPlace]
    by_cases h : target = target'
    · subst h
      rw [if_pos rfl, total_doAsync]
      cases job.isEnter <;> simp
    · simp [h]
  | reserve target' =>
    simp only [State.apply, Effect.reserves, Effect.enters, place_setPlace]
    by_cases h : target = target'
    · subst h
      simp only [if_true, Place.total, Place.reserve, Place.enters, Place.releasing]
      push_cast
      omega
    · simp [h]
  | makeRoom =>
    simp only [State.apply, Effect.reserves, Effect.enters, place_setPlace]
    by_cases h : target = ⟨.room, s.roomNum⟩
    · subst h
      simp only [if_true, Place.total, Place.reserve, Place.enters, Place.releasing]
      push_cast
      omega
    · simp [h]

/-- An effect of a client leaves a place alone, queues a job there or reserves a slot. -/
theorem place_apply (acc : Accounts P) (s : State P) (p : P) (e : Effect P) (target : PlaceId) :
    (s.apply acc p e).place target = s.place target ∨
    (∃ job, e = .doAsync target job ∧
      (s.apply acc p e).place target = (s.place target).doAsync job) ∨
    (s.apply acc p e).place target = (s.place target).reserve := by
  cases e with
  | none | addPlayer | removePlayer => exact .inl rfl
  | doAsync other job =>
    simp only [State.apply, place_setPlace]
    split_ifs with h
    · subst h
      exact .inr (.inl ⟨job, rfl, rfl⟩)
    · exact .inl rfl
  | reserve other =>
    simp only [State.apply, place_setPlace]
    split_ifs with h
    · subst h
      exact .inr (.inr rfl)
    · exact .inl rfl
  | makeRoom =>
    simp only [State.apply, place_setPlace]
    split_ifs with h
    · subst h
      exact .inr (.inr rfl)
    · exact .inl rfl

theorem inserted_apply (inserted : ∀ target, (s.place target).Inserted acc) (p : P) (e : Effect P)
    (target : PlaceId) : ((s.apply acc p e).place target).Inserted acc := by
  rcases place_apply acc s p e target with h | ⟨job, -, h⟩ | h
  · rw [h]
    exact inserted target
  · rw [h]
    exact inserted target
  · rw [h]
    exact inserted target

theorem client_apply (s : State P) (p : P) (e : Effect P) :
    (s.apply acc p e).client = s.client := by
  cases e <;> rfl

theorem keeps_goOn {players : SortedMap ℕ P} {running : Option (Job P × Stage)}
    (inserted : ∀ other, (s.place other).Inserted acc)
    (total : Place.total { s.place target with players := players, running := running } =
      (s.place target).total)
    (hinserted : Place.Inserted acc { s.place target with players := players, running := running })
    (other : PlaceId) :
    (s.place other).Keeps acc ((s.goOn target players running).place other) :=
  keeps_of_update rfl inserted ⟨total, le_rfl, hinserted⟩ other

variable [DecidableEq P]

/-- What the job of a place does to any place. -/
theorem keeps_of_jobStep (h : JobStep acc s target s')
    (inserted : ∀ other, (s.place other).Inserted acc) (other : PlaceId) :
    (s.place other).Keeps acc (s'.place other) := by
  cases h with
  | refused running why =>
    refine keeps_goOn inserted ?_ ?_ other
    · simp only [Place.total, Place.enters, Place.releasing, running]
      omega
    · rintro p stage ⟨⟩ - hstage
      exact absurd rfl hstage
  | inserted running absent =>
    refine keeps_goOn inserted ?_ ?_ other
    · simp only [Place.total, Place.enters, Place.releasing, running, SortedMap.size_insert absent]
      omega
    · rintro p stage ⟨⟩ - -
      rw [SortedMap.find?_insert, if_pos rfl]
  | pointer running =>
    refine keeps_goOn inserted ?_ ?_ other
    · simp only [Place.total, Place.enters, Place.releasing, running]
    · rintro p stage ⟨⟩ - -
      exact inserted target _ _ running nofun nofun
  | index running =>
    refine keeps_goOn inserted ?_ ?_ other
    · simp only [Place.total, Place.enters, Place.releasing, running]
    · rintro p stage ⟨⟩ - -
      exact inserted target _ _ running nofun nofun
  | @entered p running alive =>
    have hreturn : ∀ other, (s.place other).Keeps acc
        ((s.goOn target (s.place target).players none).place other) :=
      keeps_of_update rfl inserted (keeps_return running nofun nofun)
    unfold State.entered
    cases target.kind with
    | lobby => exact hreturn other
    | room =>
      cases hcurrent :
        (State.client (s.goOn target (s.place target).players none) p).current .room with
      | none => exact hreturn other
      | some index =>
        simp only [place_setPlace]
        split_ifs with hother
        · subst hother
          refine ⟨?_, (hreturn _).available, (hreturn _).inserted⟩
          rw [total_doAsync, (hreturn _).total]
          simp [Job.isEnter]
        · exact hreturn other
  | dead running dead =>
    refine keeps_goOn inserted ?_ ?_ other
    · have hsize := SortedMap.size_erase (inserted target _ _ running nofun nofun)
      simp only [Place.total, Place.enters, Place.releasing, running]
      omega
    · rintro p stage ⟨⟩ - hstage
      exact absurd rfl hstage
  | absent running absent =>
    exact keeps_of_update rfl inserted (keeps_return running nofun fun _ => rfl) other
  | erased running found =>
    refine keeps_goOn inserted ?_ ?_ other
    · have hsize := SortedMap.size_erase found
      simp only [Place.total, Place.enters, Place.releasing, running]
      omega
    · rintro p stage ⟨⟩
  | @released job running packets =>
    refine keeps_of_update rfl inserted ⟨?_, ?_, ?_⟩ other
    · cases job <;> (simp only [Place.total, Place.enters, Place.releasing, running]; omega)
    · show (s.place target).availableSlots ≤ (s.place target).availableSlots + 1
      omega
    · rintro p stage ⟨⟩
  | @sent job stage running henter hexit hstage packets =>
    refine keeps_of_update rfl inserted (keeps_return running hstage ?_) other
    intro _
    cases job with
    | enter p => exact absurd rfl (henter p)
    | _ => rfl

/-- The jobs change the pointers and indices of the clients only. -/
theorem client_of_jobStep {target : PlaceId} (h : JobStep acc s target s') (q : P) :
    ∃ current currentIndex,
      s'.client q = { s.client q with current := current, currentIndex := currentIndex } := by
  cases h with
  | @pointer p running =>
    by_cases hq : q = p
    · subst hq
      exact ⟨_, _, Function.update_self ..⟩
    · exact ⟨_, _, Function.update_of_ne hq ..⟩
  | @index p running =>
    by_cases hq : q = p
    · subst hq
      exact ⟨_, _, Function.update_self ..⟩
    · exact ⟨_, _, Function.update_of_ne hq ..⟩
  | @entered p running alive =>
    unfold State.entered
    cases target.kind with
    | lobby => exact ⟨_, _, rfl⟩
    | room =>
      cases (State.client (s.goOn target (s.place target).players none) p).current .room with
      | none => exact ⟨_, _, rfl⟩
      | some index => exact ⟨_, _, rfl⟩
  | _ => exact ⟨_, _, rfl⟩

theorem roomNum_of_jobStep {target : PlaceId} (h : JobStep acc s target s') :
    s'.roomNum = s.roomNum := by
  cases h with
  | @entered p running alive =>
    unfold State.entered
    cases target.kind with
    | lobby => rfl
    | room =>
      cases (State.client (s.goOn target (s.place target).players none) p).current .room with
      | none => rfl
      | some index => rfl
  | _ => rfl

end Jobs

/-! ## The invariant -/

section Invariant

variable {P : Type*} {acc : Accounts P} {s s' : State P} {p : P} {holders : Finset P}

/-- Every slot is accounted for, with the clients that may hold one, and a room that is not made has
all its slots available. -/
structure Stocked (acc : Accounts P) (s : State P) (holders : Finset P) : Prop where
  available : ∀ target, 0 ≤ (s.place target).availableSlots
  holding : ∀ q ∉ holders, ∀ target, (s.client q).held target = 0
  slots : ∀ target, (s.place target).total + (∑ q ∈ holders, (s.client q).held target : ℕ) =
    target.kind.capacity
  unmade : ∀ i, s.roomNum ≤ i → (s.place ⟨.room, i⟩).availableSlots = maxRoomPlayer
  valid : ∀ p, (s.client p).Valid
  inserted : ∀ target, (s.place target).Inserted acc

theorem Stocked.initial : Stocked acc (.initial : State P) ∅ where
  available target := by simp [State.initial, Place.fresh]
  holding _ _ _ := rfl
  slots target := by
    simp [State.initial, Place.fresh, Place.total, Place.enters, Place.releasing]
  unmade i _ := rfl
  valid p := ⟨nofun, nofun, fun h => absurd rfl h⟩
  inserted target := fun _ _ h => nomatch h

/-- A step that changes places without their sums and clients without the slots they hold. -/
theorem Stocked.keeps (inv : Stocked acc s holders) (hclient : ∀ q target,
      (s'.client q).held target = (s.client q).held target) (hvalid : ∀ q, (s'.client q).Valid)
    (hroomNum : s'.roomNum = s.roomNum)
    (keeps : ∀ target, (s.place target).Keeps acc (s'.place target)) :
    Stocked acc s' holders where
  available target := (inv.available target).trans (keeps target).available
  holding q hq target := (hclient q target).trans (inv.holding q hq target)
  slots target := by
    rw [(keeps target).total]
    simp only [hclient]
    exact inv.slots target
  unmade i hi := by
    rw [hroomNum] at hi
    have hunmade := inv.unmade i hi
    have hle := (keeps ⟨.room, i⟩).available
    have htotal := (keeps ⟨.room, i⟩).total
    have hslots := inv.slots ⟨.room, i⟩
    simp only [Place.total, Kind.capacity] at htotal hslots
    omega
  valid := hvalid
  inserted target := (keeps target).inserted

/-- The effect of a client on the available slots: a reservation needs a slot, and no other effect
takes one from a place that exists. -/
theorem Stocked.available_apply (inv : Stocked acc s holders) (p : P) {e : Effect P}
    (reserve : ∀ target, e = .reserve target → 0 < (s.place target).availableSlots)
    (target : PlaceId) : 0 ≤ ((s.apply acc p e).place target).availableSlots := by
  have havailable := inv.available target
  cases e with
  | none | addPlayer | removePlayer => exact havailable
  | doAsync target' job =>
    simp only [State.apply, place_setPlace]
    split_ifs with h
    · exact inv.available target'
    · exact havailable
  | reserve target' =>
    have hpos := reserve target' rfl
    simp only [State.apply, place_setPlace]
    split_ifs with h
    · show 0 ≤ (s.place target').availableSlots - 1
      omega
    · exact havailable
  | makeRoom =>
    simp only [State.apply, place_setPlace]
    split_ifs with h
    · have hunmade := inv.unmade s.roomNum (le_refl _)
      show 0 ≤ (s.place ⟨.room, s.roomNum⟩).availableSlots - 1
      rw [hunmade]
      decide
    · exact havailable

theorem Stocked.unmade_apply (inv : Stocked acc s holders) (p : P) {e : Effect P}
    (reserve : ∀ target, e = .reserve target → target.kind = .room → target.index < s.roomNum)
    {i : ℕ} (hi : (s.apply acc p e).roomNum ≤ i) :
    ((s.apply acc p e).place ⟨.room, i⟩).availableSlots = maxRoomPlayer := by
  cases e with
  | none | addPlayer | removePlayer => exact inv.unmade i hi
  | doAsync target' job =>
    simp only [State.apply, place_setPlace]
    split_ifs with h
    · subst h
      exact inv.unmade i hi
    · exact inv.unmade i hi
  | reserve target' =>
    have hroom := reserve target' rfl
    simp only [State.apply, place_setPlace] at hi ⊢
    split_ifs with h
    · subst h
      exact absurd (hroom rfl) (not_lt.2 hi)
    · exact inv.unmade i hi
  | makeRoom =>
    simp only [State.apply, place_setPlace] at hi ⊢
    split_ifs with h
    · rw [PlaceId.mk.injEq] at h
      omega
    · exact inv.unmade i (by omega)

/-- `Room::Enter` never finds its room full: the slot it has reserved is still free. -/
theorem Stocked.size_lt (inv : Stocked acc s holders) {target : PlaceId}
    (running : (s.place target).running = some (.enter p, .body)) :
    (s.place target).players.size < target.kind.capacity := by
  have havailable := inv.available target
  have hslots := inv.slots target
  have henters : 0 < (s.place target).enters := by
    rw [Place.enters, running]
    exact Nat.succ_pos _
  unfold Place.total at hslots
  omega

variable [DecidableEq P]

/-- A client that may hold a slot from now on. -/
theorem Stocked.insert (inv : Stocked acc s holders) (p : P) :
    Stocked acc s (insert p holders) where
  available := inv.available
  holding q hq := inv.holding q fun hmem => hq (mem_insert_of_mem hmem)
  slots target := by
    have hsum : ∑ q ∈ Insert.insert p holders, (s.client q).held target =
        ∑ q ∈ holders, (s.client q).held target :=
      (sum_subset (subset_insert p holders) fun q _ hq => inv.holding q hq target).symm
    rw [hsum]
    exact inv.slots target
  unmade := inv.unmade
  valid := inv.valid
  inserted := inv.inserted

theorem client_setClient (s : State P) (p q : P) (c : Client) :
    (s.setClient p c).client q = if q = p then c else s.client q :=
  Function.update_apply _ _ _ _

/-- A step that changes one client without the slots it holds. -/
theorem Stocked.setClient (inv : Stocked acc s holders) {c : Client}
    (held : ∀ target, c.held target = (s.client p).held target) (valid : c.Valid) :
    Stocked acc (s.setClient p c) holders := by
  refine inv.keeps (fun q target => ?_) (fun q => ?_) rfl
    fun target => ⟨rfl, le_rfl, inv.inserted target⟩
  · rw [client_setClient]
    split_ifs with hq
    · rw [hq, held]
    · rfl
  · rw [client_setClient]
    split_ifs
    · exact valid
    · exact inv.valid q

/-- The access of a client keeps the slots. -/
theorem Stocked.access (inv : Stocked acc s holders) {c' : Client} {e : Effect P}
    (mem : p ∈ holders)
    (balanced :
      Balanced s.roomNum (fun target => (s.place target).availableSlots) (s.client p) c' e) :
    Stocked acc (s.access acc p (c', e)) holders := by
  have hreserve := fun target h => balanced.reserve target h (inv.valid p)
  have hclient : (s.access acc p (c', e)).client = Function.update s.client p c' := by
    rw [State.access, State.setClient, client_apply]
  refine ⟨inv.available_apply p fun target h => (hreserve target h).1, fun q hq => ?_,
    fun target => ?_, fun i hi => inv.unmade_apply p (fun target h => (hreserve target h).2) hi,
    fun q => ?_, inserted_apply inv.inserted p e⟩
  · have hne : q ≠ p := by
      rintro rfl
      exact hq mem
    rw [hclient, Function.update_of_ne hne]
    exact inv.holding q hq
  · have hplace := total_apply acc s p e target
    have hsum := Counting.sum_update_add_of_mem mem s.client (Client.held target) c'
    have hslots := inv.slots target
    have hheld := balanced.held target
    rw [hclient]
    show ((s.apply acc p e).place target).total + _ = _
    omega
  · rw [hclient, Function.update_apply]
    split_ifs with hq
    · exact balanced.valid (inv.valid p)
    · exact inv.valid q

theorem Stocked.startRequest (inv : Stocked acc s holders) {pc : RequestPc}
    (hstep : s.startRequest p pc = some s') (held : ∀ target, pc.held target = 0)
    (valid : ∀ target search, pc ≠ .search target search) : Stocked acc s' holders := by
  obtain ⟨⟨-, -, hidle⟩, heq⟩ := Option.ite_none_right_eq_some.1 hstep
  obtain rfl := Option.some.inj heq
  refine inv.setClient (fun target => ?_) ⟨(inv.valid p).login,
    fun target search h => absurd h (valid target search), (inv.valid p).processed⟩
  rw [Client.held, Client.held, hidle, held]
  rfl

theorem Stocked.step (inv : Stocked acc s holders) {op : Op P}
    (hstep : Server.step acc s op = some s') : ∃ holders', Stocked acc s' holders' := by
  cases op with
  | loginResult p ok =>
    obtain ⟨⟨-, hfirst⟩, heq⟩ := Option.ite_none_right_eq_some.1 hstep
    obtain rfl := Option.some.inj heq
    have hidle : (s.client p).login = .idle := by
      by_contra hne
      rw [(inv.valid p).processed hne] at hfirst
      cases hfirst
    refine ⟨_, inv.setClient (fun target => ?_) ⟨nofun, (inv.valid p).request, fun _ => rfl⟩⟩
    rw [Client.held, Client.held, hidle]
    rfl
  | reqRoomEnter p => exact ⟨_, inv.startRequest hstep (fun _ => rfl) nofun⟩
  | reqRoomExit p => exact ⟨_, inv.startRequest hstep (fun _ => rfl) nofun⟩
  | reqChat p kind message => exact ⟨_, inv.startRequest hstep (fun _ => rfl) nofun⟩
  | disconnect p =>
    obtain ⟨-, heq⟩ := Option.ite_none_right_eq_some.1 hstep
    obtain rfl := Option.some.inj heq
    exact ⟨_, inv.setClient (fun _ => rfl)
      ⟨(inv.valid p).login, (inv.valid p).request, (inv.valid p).processed⟩⟩
  | destroy p =>
    obtain ⟨-, heq⟩ := Option.ite_none_right_eq_some.1 hstep
    obtain rfl := Option.some.inj heq
    exact ⟨_, inv.setClient (fun _ => rfl)
      ⟨(inv.valid p).login, (inv.valid p).request, (inv.valid p).processed⟩⟩
  | login p spurious =>
    obtain ⟨⟨c', e⟩, hlogin, rfl⟩ := Option.map_eq_some_iff.1 hstep
    exact ⟨_, (inv.insert p).access (mem_insert_self p _) (balanced_of_onLoginResult hlogin)⟩
  | request p spurious =>
    obtain ⟨⟨c', e⟩, hrequest, rfl⟩ := Option.map_eq_some_iff.1 hstep
    exact ⟨_, (inv.insert p).access (mem_insert_self p _) (balanced_of_handleRequest acc hrequest)⟩
  | onDisconnected p =>
    obtain ⟨⟨c', e⟩, hdisconnected, rfl⟩ := Option.map_eq_some_iff.1 hstep
    exact ⟨_, (inv.insert p).access (mem_insert_self p _)
      (balanced_of_onDisconnected acc hdisconnected)⟩
  | startJob target =>
    simp only [Server.step] at hstep
    split at hstep
    · next job waiting idle hwaiting =>
      obtain rfl := Option.some.inj hstep
      exact ⟨_, inv.keeps (fun _ _ => rfl) inv.valid rfl
        (keeps_of_update rfl inv.inserted (keeps_startJob idle hwaiting))⟩
    · cases hstep
  | runJob target =>
    have hjob := jobStep_of_runJob acc hstep
    refine ⟨_, inv.keeps (fun q other => ?_) (fun q => ?_) (roomNum_of_jobStep hjob)
      (keeps_of_jobStep hjob inv.inserted)⟩
    · obtain ⟨current, currentIndex, hclient⟩ := client_of_jobStep hjob q
      rw [hclient]
      rfl
    · obtain ⟨current, currentIndex, hclient⟩ := client_of_jobStep hjob q
      rw [hclient]
      exact ⟨(inv.valid q).login, (inv.valid q).request, (inv.valid q).processed⟩

theorem stocked_of_reachable (h : (system acc).Reachable s) :
    ∃ holders, Stocked acc s holders := by
  refine h.invariant (P := fun s => ∃ holders, Stocked acc s holders) ?_ ?_
  · rintro s rfl
    exact ⟨∅, .initial⟩
  · rintro s op s' ⟨holders, inv⟩ hstep
    exact inv.step hstep

end Invariant

/-! ## Conservation -/

section Conservation

variable {P : Type*} [Fintype P] {acc : Accounts P} {s : State P}

/-- Every slot is accounted for, and a room that is not made has all its slots available. -/
structure SlotInv (acc : Accounts P) (s : State P) : Prop where
  available : ∀ target, 0 ≤ (s.place target).availableSlots
  slots : ∀ target, (s.place target).total + (∑ p, (s.client p).held target : ℕ) =
    target.kind.capacity
  unmade : ∀ i, s.roomNum ≤ i → (s.place ⟨.room, i⟩).availableSlots = maxRoomPlayer
  valid : ∀ p, (s.client p).Valid
  inserted : ∀ target, (s.place target).Inserted acc

variable [DecidableEq P]

theorem slotInv_of_reachable (h : (system acc).Reachable s) : SlotInv acc s := by
  obtain ⟨holders, inv⟩ := stocked_of_reachable h
  refine ⟨inv.available, fun target => ?_, inv.unmade, inv.valid, inv.inserted⟩
  rw [← sum_subset (subset_univ holders) fun q _ hq => inv.holding q hq target]
  exact inv.slots target

/-- In every reachable state the slots of a lobby or a room that are available, taken by a member,
reserved for an `Enter` that has not started, and freed but not yet returned by the job that is
running add up to the capacity; the last term is 0 unless a job is about to return its slot.  So
there are never more members than slots, `Room::Enter` never finds its room full, and the list that
a lobby sends names every member. -/
theorem slot_conservation (h : (system acc).Reachable s) (target : PlaceId) :
    (s.place target).availableSlots + (s.place target).players.size + s.reservations target +
        (s.place target).releasing = target.kind.capacity ∧
      ((∀ job, (s.place target).running ≠ some (job, .release)) →
        (s.place target).availableSlots + (s.place target).players.size + s.reservations target =
          target.kind.capacity) ∧
      0 ≤ (s.place target).availableSlots ∧
      (s.place target).players.size ≤ target.kind.capacity ∧
      (∀ p, (s.place target).running = some (.enter p, .body) →
        (s.place target).players.size < target.kind.capacity) ∧
      (target.kind = .lobby → ∀ p, ∃ notices,
        Lobby.welcome (s.registry acc) target.index (s.place target).players p = notices ++
          [(p, .resLobbyEnter target.index ((s.place target).players.entries.map fun e =>
            (acc.playerId e.2, (s.registry acc).nameField e.2)))]) := by
  have inv := slotInv_of_reachable h
  have havailable := inv.available target
  have hslots := inv.slots target
  unfold Place.total at hslots
  have hsize : (s.place target).players.size ≤ target.kind.capacity := by omega
  have hsum : (s.place target).availableSlots + (s.place target).players.size +
      s.reservations target + (s.place target).releasing = target.kind.capacity := by
    unfold State.reservations
    push_cast at hslots ⊢
    omega
  refine ⟨hsum, fun hjob => ?_, havailable, hsize, fun p running => ?_, fun hkind p => ?_⟩
  · have hreleasing := releasing_eq_zero hjob
    omega
  · obtain ⟨_, stocked⟩ := stocked_of_reachable h
    exact stocked.size_lt running
  · rw [hkind] at hsize
    unfold Lobby.welcome
    have hlisted : ([] : List (ℕ × List UInt8)).length +
        (s.place target).players.entries.length ≤ maxLobbyPlayers := by
      rw [List.length_nil, Nat.zero_add]
      exact hsize
    rw [LobbyViews.foldl_addPlayer (s.registry acc) hlisted]
    exact ⟨_, rfl⟩

/-- A player whose session has logged in and entered the first lobby. -/
theorem slot_conservation_one_member :
    ∃ s : State (Fin 1), (system ⟨fun _ => 5, fun _ => [65]⟩).Reachable s ∧
      (s.place ⟨.lobby, 0⟩).players.size = 1 ∧ (s.place ⟨.lobby, 0⟩).availableSlots = 49 ∧
      s.reservations ⟨.lobby, 0⟩ = 0 := by
  obtain ⟨s, hrun, hsize, havailable, hreleasing⟩ : ∃ s : State (Fin 1),
      (system ⟨fun _ => 5, fun _ => [65]⟩).run .initial
        (.loginResult 0 true :: List.replicate 12 (.login 0 false) ++
          [.startJob ⟨.lobby, 0⟩, .runJob ⟨.lobby, 0⟩]) = some s ∧
        (s.place ⟨.lobby, 0⟩).players.size = 1 ∧ (s.place ⟨.lobby, 0⟩).availableSlots = 49 ∧
        (s.place ⟨.lobby, 0⟩).releasing = 0 := ⟨_, rfl, rfl, rfl, rfl⟩
  have hreach := Transition.System.reachable_of_run (.init rfl) hrun
  have hslots := (slot_conservation hreach ⟨.lobby, 0⟩).1
  have hcapacity : Kind.capacity .lobby = 50 := rfl
  refine ⟨s, hreach, hsize, havailable, ?_⟩
  rw [hsize, havailable, hreleasing, hcapacity] at hslots
  omega

end Conservation

end Server

end DhNet
