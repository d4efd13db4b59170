import DhNet.Game.Server

/-!
# Where a player is

The lobby or room of a player is spread over the map of the place, the pointers and indices of the
player, the jobs that wait, and the calls that are in progress.  `Whereabouts` is the one value they
all have to agree with, and this module says what that means for the client:

* `Client.Fits`: the calls and pointers of a client agree with its whereabouts.
* `Whereabouts.after`: queueing an `Exit` or a `Leave` takes the player out of its place, queueing
  an `Enter` sends it on its way to one.
* `moved_of_onLoginResult`, `moved_of_handleRequest`, `moved_of_onDisconnected`: every access of a
  call keeps the agreement, and queues an `Enter` only for a player that is nowhere and an `Exit`
  only at the place where the player is.
-/

namespace DhNet

namespace Server

/-! ## Whereabouts -/

/-- Where a player is: in a place or nowhere, waiting for its `Enter` at a place, or inserted there
by an `Enter` that has reached this point. -/
inductive Whereabouts where
  | settled (place : Option PlaceId)
  | entering (target : PlaceId)
  | joining (target : PlaceId) (stage : Stage)
  deriving DecidableEq

namespace Whereabouts

/-- The player is on its way to a place. -/
def moves : Whereabouts → Bool
  | settled _ => false
  | _ => true

/-- The place to which the player belongs. -/
def place : Whereabouts → Option PlaceId
  | settled place => place
  | entering _ => none
  | joining target _ => some target

/-- The place to which the pointer of the player leads. -/
def pointer : Whereabouts → Option PlaceId
  | settled place => place
  | joining target .index | joining target .session => some target
  | _ => none

/-- The place that the index of the player names. -/
def indexed : Whereabouts → Option PlaceId
  | settled place => place
  | joining target .session => some target
  | _ => none

/-- The whereabouts after an access of a client of the player. -/
def after {P : Type*} (w : Whereabouts) : Effect P → Whereabouts
  | .doAsync target (.enter _) => entering target
  | .doAsync _ (.exit _) => settled none
  | _ => w

end Whereabouts

/-- The index of a place, if it is of this kind. -/
def indexIn (kind : Kind) : Option PlaceId → Option ℕ
  | some place => if place.kind = kind then some place.index else none
  | none => none

/-- What `m_currentLobbyIndex` or `m_currentRoomIndex` holds for an index. -/
def storedIndex : Option ℕ → ℤ
  | some index => index
  | none => -1

@[simp] theorem indexIn_none (kind : Kind) : indexIn kind none = none := rfl

theorem indexIn_some (target : PlaceId) : indexIn target.kind (some target) = some target.index :=
  if_pos rfl

theorem indexIn_of_ne {target : PlaceId} {kind : Kind} (h : target.kind ≠ kind) :
    indexIn kind (some target) = none :=
  if_neg h

theorem indexIn_eq_some {kind : Kind} {place : Option PlaceId} {index : ℕ} :
    indexIn kind place = some index ↔ place = some ⟨kind, index⟩ := by
  cases place with
  | none => simp [indexIn]
  | some target =>
    obtain ⟨kind', index'⟩ := target
    by_cases h : kind' = kind <;> simp [indexIn, h]

theorem eq_none_of_indexIn {kind : Kind} {place : Option PlaceId} (h : indexIn kind place = none)
    (hother : indexIn kind.other place = none) : place = none := by
  rcases place with _ | ⟨kind', index⟩
  · rfl
  · cases kind <;> cases kind' <;> simp [indexIn, Kind.other] at h hother

theorem Kind.other_ne (kind : Kind) : kind.other ≠ kind := by cases kind <;> simp [Kind.other]

/-! ## Calls that move a player -/

/-- The login result has passed the test of `IsConnected`. -/
def LoginPc.moves : LoginPc → Bool
  | .setPlayer | .add | .assignLobby _ | .doAsync _ => true
  | _ => false

/-- The request leaves a place or enters one. -/
def RequestPc.moves : RequestPc → Bool
  | .leave _ _ | .search _ _ | .makeRoom | .doAsync _ => true
  | _ => false

/-- The `Exit` or `Leave` of this call is queued and the pointer still set. -/
def LeavePc.stalePointer : LeavePc → Bool
  | .notify _ | .resetPointer => true
  | _ => false

/-- The `Exit` or `Leave` of this call is queued and the index still set. -/
def LeavePc.staleIndex : LeavePc → Bool
  | .notify _ | .resetPointer | .resetIndex => true
  | _ => false

/-- Where a call of `LeaveLobby` or `LeaveRoom` stands to the place of the player. -/
def LeavePc.At (kind : Kind) (place : Option PlaceId) : LeavePc → Prop
  | .lock => True
  | .doAsync index => place = some ⟨kind, index⟩
  | _ => indexIn kind place = none

/-- Where a login result stands to the whereabouts of the player. -/
def LoginPc.At (w : Whereabouts) (hasPlayer : Bool) (request : RequestPc) : LoginPc → Prop
  | .idle => True
  | .isConnected _ | .reject | .setPlayer => hasPlayer = false
  | _ => hasPlayer = true ∧ request.moves = false ∧ w = .settled none

/-- Where a request stands to the whereabouts of the player. -/
def RequestPc.At (w : Whereabouts) : RequestPc → Prop
  | .leave target pc =>
      ∃ place, w = .settled place ∧ indexIn target place = none ∧ pc.At target.other place
  | .search _ _ | .makeRoom | .doAsync _ => w = .settled none
  | _ => True

/-- Where a `Disconnect` stands to the whereabouts of the player. -/
def DisconnectPc.At (w : Whereabouts) : DisconnectPc → Prop
  | .idle => True
  | .hasPlayer => ∃ place, w = .settled place
  | .leave .lobby pc => ∃ place, w = .settled place ∧ pc.At .lobby place
  | .leave .room pc => ∃ place, w = .settled place ∧ indexIn .lobby place = none ∧ pc.At .room place
  | _ => w = .settled none

/-- The call of `LeaveLobby` or `LeaveRoom` that a request makes. -/
def RequestPc.leaving : RequestPc → Option (Kind × LeavePc)
  | .leave target pc => some (target.other, pc)
  | _ => none

/-- The call of `LeaveLobby` or `LeaveRoom` that a `Disconnect` makes. -/
def DisconnectPc.leaving : DisconnectPc → Option (Kind × LeavePc)
  | .leave kind pc => some (kind, pc)
  | _ => none

/-- The pointers and indices lead to the whereabouts, but for those that the call in progress is
going to reset. -/
structure Points (current : Kind → Option ℕ) (currentIndex : Kind → ℤ)
    (pointer indexed : Option PlaceId) (call : Option (Kind × LeavePc)) : Prop where
  pointer : ∀ kind, (∀ pc, call = some (kind, pc) → pc.stalePointer = false) →
    current kind = indexIn kind pointer
  index : ∀ kind, (∀ pc, call = some (kind, pc) → pc.staleIndex = false) →
    currentIndex kind = storedIndex (indexIn kind indexed)

/-- The calls and pointers of a client agree with the whereabouts of its player, and a player is
moved by one call or job at a time, of a connected session. -/
structure Client.Fits (c : Client) (w : Whereabouts) : Prop where
  online : c.disconnect = .idle ↔ c.connected = true
  alive : c.alive = false → c.disconnect = .done
  connected : c.login.moves ∨ c.request.moves ∨ w.moves → c.connected = true
  fresh : c.loginProcessed = false → c.hasPlayer = false ∧ c.login = .idle
  player : c.hasPlayer = false → c.request.moves = false ∧ w = .settled none
  login : c.login.At w c.hasPlayer c.request
  request : c.request.At w
  disconnect : c.disconnect.At w
  points : Points c.current c.currentIndex w.pointer w.indexed
    (c.request.leaving.or c.disconnect.leaving)

/-- The player may be in `PlayerSystem`: it is set, and not yet removed by `OnDisconnected`. -/
structure Client.Listed (c : Client) : Prop where
  hasPlayer : c.hasPlayer = true
  reset : c.disconnect ≠ .reset
  done : c.disconnect ≠ .done

theorem Client.fits_initial : Client.initial.Fits (.settled none) where
  online := by simp [Client.initial]
  alive := nofun
  connected _ := rfl
  fresh _ := ⟨rfl, rfl⟩
  player _ := ⟨rfl, rfl⟩
  login := trivial
  request := trivial
  disconnect := trivial
  points := ⟨fun _ _ => rfl, fun _ _ => rfl⟩

section Clients

variable {P : Type*} {acc : Accounts P} {p : P} {c c' : Client} {w : Whereabouts} {e : Effect P}

theorem RequestPc.At.settled {request : RequestPc} (h : request.At w)
    (hmoves : request.moves = true) : w.moves = false := by
  cases request with
  | leave target pc =>
    obtain ⟨place, rfl, -⟩ := h
    rfl
  | search | makeRoom | doAsync =>
    obtain rfl : w = .settled none := h
    rfl
  | _ => cases hmoves

theorem RequestPc.at_of_moves {request : RequestPc} (h : request.moves = false) : request.At w := by
  cases request <;> trivial

theorem RequestPc.leaving_of_still {request : RequestPc} (h : request.moves = false) :
    request.leaving = none := by
  cases request with
  | leave target pc => cases h
  | _ => rfl

/-- What an access of a client does to the whereabouts of its player. -/
structure Moved (p : P) (c c' : Client) (w : Whereabouts) (e : Effect P) : Prop where
  fits : c'.Fits (w.after e)
  enter : ∀ target q, e = .doAsync target (.enter q) → q = p ∧ w = .settled none
  exit : ∀ target q, e = .doAsync target (.exit q) → q = p ∧ w = .settled (some target)
  added : e = .addPlayer → c'.Listed
  listed : c.Listed → e ≠ .removePlayer → c'.Listed

namespace Client.Fits

variable (fits : c.Fits w)

include fits

theorem disconnect_idle (h : c.login.moves ∨ c.request.moves ∨ w.moves) : c.disconnect = .idle :=
  fits.online.2 (fits.connected h)

theorem still (h : c.disconnect ≠ .idle) :
    c.login.moves = false ∧ c.request.moves = false ∧ w.moves = false := by
  by_contra hmoves
  refine h (fits.disconnect_idle ?_)
  rcases hlogin : c.login.moves with _ | _
  · rcases hrequest : c.request.moves with _ | _
    · rcases hw : w.moves with _ | _
      · exact absurd ⟨hlogin, hrequest, hw⟩ hmoves
      · exact .inr (.inr rfl)
    · exact .inr (.inl rfl)
  · exact .inl rfl

/-- A player that is on its way to a place is moved by no call. -/
theorem of_moves (h : w.moves = true) :
    c.login = .idle ∧ c.request.moves = false ∧ c.disconnect = .idle := by
  have hplayer : c.hasPlayer = true := by
    by_contra hnone
    obtain ⟨rfl⟩ := (fits.player (Bool.eq_false_of_not_eq_true hnone)).2
    cases h
  refine ⟨?_, ?_, fits.disconnect_idle (.inr (.inr h))⟩
  · have hat := fits.login
    cases hlogin : c.login with
    | idle => rfl
    | isConnected | reject | setPlayer =>
      rw [hlogin] at hat
      rw [show c.hasPlayer = false from hat] at hplayer
      cases hplayer
    | add | assignLobby | doAsync =>
      rw [hlogin] at hat
      rw [hat.2.2] at h
      cases h
  · by_contra hmoves
    rw [fits.request.settled (Bool.eq_true_of_not_eq_false hmoves)] at h
    cases h

/-- The pointers of a player that is on its way to a place. -/
theorem points_of_moves (h : w.moves = true) :
    Points c.current c.currentIndex w.pointer w.indexed none := by
  obtain ⟨-, hrequest, hidle⟩ := fits.of_moves h
  have hpoints := fits.points
  rwa [RequestPc.leaving_of_still hrequest, hidle] at hpoints

theorem alive_of_connected (h : c.connected = true) : c.alive = true := by
  by_contra hdead
  have hdone := fits.alive (Bool.eq_false_of_not_eq_true hdead)
  rw [fits.online.2 h] at hdone
  cases hdone

end Client.Fits

/-! ## The login result -/

/-- Only the point of the login result changes. -/
theorem Client.Fits.setLogin (fits : c.Fits w) {login : LoginPc}
    (connected : login.moves → c.connected = true) (processed : c.loginProcessed = true)
    (hat : login.At w c.hasPlayer c.request) : Client.Fits { c with login := login } w where
  online := fits.online
  alive := fits.alive
  connected h := by
    rcases h with h | h
    · exact connected h
    · exact fits.connected (.inr h)
  fresh h := by
    rw [show c.loginProcessed = false from h] at processed
    cases processed
  player := fits.player
  login := hat
  request := fits.request
  disconnect := fits.disconnect
  points := fits.points

/-- Without an effect on the places or on `PlayerSystem`, nothing moves. -/
theorem moved_of_none (fits : c'.Fits w) (listed : c.Listed → c'.Listed) :
    Moved p c c' w .none :=
  ⟨fits, nofun, nofun, nofun, fun h _ => listed h⟩

theorem moved_of_onLoginResult {availableSlots : PlaceId → ℤ} {spurious : Bool} (fits : c.Fits w)
    (h : onLoginResult p availableSlots spurious c = some (c', e)) : Moved p c c' w e := by
  unfold onLoginResult at h
  have hprocessed : c.login ≠ .idle → c.loginProcessed = true := by
    intro hidle
    by_contra hfresh
    exact hidle (fits.fresh (Bool.eq_false_of_not_eq_true hfresh)).2
  have hlisted : ∀ login, c.Listed → Client.Listed { c with login := login } :=
    fun _ listed => ⟨listed.hasPlayer, listed.reset, listed.done⟩
  have hat := fits.login
  have hconnected : c.login.moves → c.connected = true := fun h => fits.connected (.inl h)
  cases hlogin : c.login with
  | idle =>
    simp only [hlogin] at h
    cases h
  | isConnected ok =>
    simp only [hlogin, Option.some.injEq, Prod.mk.injEq] at h hat hprocessed
    obtain ⟨rfl, rfl⟩ := h
    refine moved_of_none (fits.setLogin ?_ (hprocessed nofun) ?_) (hlisted _)
    · intro hmoves
      by_contra hoff
      rw [if_pos (Bool.eq_false_of_not_eq_true hoff)] at hmoves
      cases hmoves
    · split_ifs
      · trivial
      · exact hat
      · exact hat
  | reject =>
    simp only [hlogin, Option.some.injEq, Prod.mk.injEq] at h hat hprocessed
    obtain ⟨rfl, rfl⟩ := h
    obtain ⟨hrequest, rfl⟩ := fits.player hat
    refine moved_of_none ?_ fun listed => ?_
    · cases hconnected : c.connected with
      | false =>
        have hset : Client.Fits { c with login := .idle } (.settled none) :=
          fits.setLogin nofun (hprocessed nofun) trivial
        rwa [hconnected] at hset
      | true =>
        have hidle := fits.online.2 hconnected
        refine ⟨by simp, fun hdead => ?_, by simp [LoginPc.moves, hrequest, Whereabouts.moves],
          fun hfresh => ?_, fits.player, trivial, fits.request, ⟨none, rfl⟩, ?_⟩
        · rw [fits.alive_of_connected hconnected] at hdead
          cases hdead
        · rw [show c.loginProcessed = false from hfresh] at hprocessed
          cases hprocessed nofun
        · have hpoints := fits.points
          rwa [RequestPc.leaving_of_still hrequest, hidle] at hpoints ⊢
    · rw [listed.hasPlayer] at hat
      cases hat
  | setPlayer =>
    simp only [hlogin, Option.some.injEq, Prod.mk.injEq] at h hat hprocessed hconnected
    obtain ⟨rfl, rfl⟩ := h
    obtain ⟨hrequest, rfl⟩ := fits.player hat
    refine moved_of_none ⟨fits.online, fits.alive, fun _ => hconnected rfl, ?_, nofun,
      ⟨rfl, hrequest, rfl⟩, fits.request, fits.disconnect, fits.points⟩
      fun listed => ⟨rfl, listed.reset, listed.done⟩
    intro hfresh
    rw [show c.loginProcessed = false from hfresh] at hprocessed
    cases hprocessed nofun
  | add =>
    simp only [hlogin, Option.some.injEq, Prod.mk.injEq] at h hat hprocessed hconnected
    obtain ⟨rfl, rfl⟩ := h
    have hidle := fits.online.2 (hconnected rfl)
    refine ⟨fits.setLogin (fun _ => hconnected rfl) (hprocessed nofun) hat, nofun, nofun, fun _ =>
      ⟨hat.1, ?_, ?_⟩, fun listed _ => hlisted _ listed⟩
    · rw [show c.disconnect = .idle from hidle]
      nofun
    · rw [show c.disconnect = .idle from hidle]
      nofun
  | assignLobby search =>
    simp only [hlogin, Option.some.injEq] at h hat hprocessed hconnected
    cases hnext : search.next maxLobbyCount (fun i => availableSlots ⟨.lobby, i⟩) spurious with
    | again search =>
      simp only [hnext, Prod.mk.injEq] at h
      obtain ⟨rfl, rfl⟩ := h
      exact moved_of_none (fits.setLogin (fun _ => hconnected rfl) (hprocessed nofun) hat)
        (hlisted _)
    | reserved lobby =>
      simp only [hnext, Prod.mk.injEq] at h
      obtain ⟨rfl, rfl⟩ := h
      exact ⟨fits.setLogin (fun _ => hconnected rfl) (hprocessed nofun) hat, nofun, nofun, nofun,
        fun listed _ => hlisted _ listed⟩
    | failed =>
      simp only [hnext, Prod.mk.injEq] at h
      obtain ⟨rfl, rfl⟩ := h
      exact moved_of_none (fits.setLogin nofun (hprocessed nofun) trivial) (hlisted _)
  | doAsync lobby =>
    simp only [hlogin, Option.some.injEq, Prod.mk.injEq] at h hat hprocessed hconnected
    obtain ⟨rfl, rfl⟩ := h
    obtain ⟨hplayer, hrequest, rfl⟩ := hat
    have hidle := fits.online.2 (hconnected rfl)
    refine ⟨⟨fits.online, fits.alive, fun _ => hconnected rfl, ?_, ?_, trivial,
      RequestPc.at_of_moves hrequest, ?_, fits.points⟩, ?_, nofun, nofun,
      fun listed _ => hlisted _ listed⟩
    · intro hfresh
      rw [show c.loginProcessed = false from hfresh] at hprocessed
      cases hprocessed nofun
    · intro hnone
      rw [show c.hasPlayer = false from hnone] at hplayer
      cases hplayer
    · rw [show c.disconnect = .idle from hidle]
      trivial
    · rintro target q ⟨⟩
      exact ⟨rfl, rfl⟩

/-! ## Leaving -/

/-- What a call of `LeaveLobby` or `LeaveRoom` changes of the client. -/
theorem leave_client (acc : Accounts P) (p : P) (kind : Kind) (c : Client) (pc : LeavePc) :
    ∃ current currentIndex, (leave acc p kind c pc).1 =
      { c with current := current, currentIndex := currentIndex } := by
  cases pc <;> exact ⟨_, _, rfl⟩

/-- What an access of `LeaveLobby` or `LeaveRoom` does to the place of the player: it is left with
the `Exit` or `Leave` that is queued, and the call returns when the pointer and index are reset. -/
structure Left (p : P) (kind : Kind) (place place' : Option PlaceId)
    (r : Client × Effect P × Option LeavePc) : Prop where
  after : (Whereabouts.settled place).after r.2.1 = .settled place'
  exit : ∀ target q, r.2.1 = .doAsync target (.exit q) → q = p ∧ place = some target
  enter : ∀ target q, r.2.1 ≠ .doAsync target (.enter q)
  add : r.2.1 ≠ .addPlayer
  other : ∀ kind, indexIn kind place = none → indexIn kind place' = none
  next : ∀ pc, r.2.2 = some pc → pc.At kind place'
  returned : r.2.2 = none → indexIn kind place' = none
  points : Points r.1.current r.1.currentIndex place' place' (r.2.2.map fun pc => (kind, pc))

theorem Left.eq_none {kind : Kind} {place' : Option PlaceId}
    {r : Client × Effect P × Option LeavePc} (left : Left p kind none place' r) : place' = none :=
  eq_none_of_indexIn (left.other kind rfl) (left.other kind.other rfl)

theorem Points.leaving {current : Kind → Option ℕ} {currentIndex : Kind → ℤ}
    {pointer indexed : Option PlaceId} (points : Points current currentIndex pointer indexed none)
    (call : Option (Kind × LeavePc)) : Points current currentIndex pointer indexed call :=
  ⟨fun kind _ => points.pointer kind nofun, fun kind _ => points.index kind nofun⟩

theorem points_leaving_iff {current : Kind → Option ℕ} {currentIndex : Kind → ℤ}
    {pointer indexed : Option PlaceId} {kind : Kind} {pc : LeavePc} :
    Points current currentIndex pointer indexed (some (kind, pc)) ↔
      (∀ other ≠ kind, current other = indexIn other pointer ∧
        currentIndex other = storedIndex (indexIn other indexed)) ∧
      (pc.stalePointer = false → current kind = indexIn kind pointer) ∧
      (pc.staleIndex = false → currentIndex kind = storedIndex (indexIn kind indexed)) := by
  constructor
  · intro points
    refine ⟨fun other hother => ⟨points.pointer other ?_, points.index other ?_⟩, fun hstale =>
      points.pointer kind ?_, fun hstale => points.index kind ?_⟩
    · rintro _ ⟨⟩
      exact absurd rfl hother
    · rintro _ ⟨⟩
      exact absurd rfl hother
    · rintro _ ⟨⟩
      exact hstale
    · rintro _ ⟨⟩
      exact hstale
  · rintro ⟨hother, hpointer, hindex⟩
    refine ⟨fun other hstale => ?_, fun other hstale => ?_⟩
    · by_cases h : other = kind
      · subst h
        exact hpointer (hstale pc rfl)
      · exact (hother other h).1
    · by_cases h : other = kind
      · subst h
        exact hindex (hstale pc rfl)
      · exact (hother other h).2

theorem left_of_leave (acc : Accounts P) (p : P) {kind : Kind} {place : Option PlaceId}
    {pc : LeavePc} (hat : pc.At kind place)
    (points : Points c.current c.currentIndex place place (some (kind, pc))) :
    ∃ place', Left p kind place place' (leave acc p kind c pc) := by
  obtain ⟨hother, hpointer, hindex⟩ := points_leaving_iff.1 points
  cases pc with
  | lock =>
    have hcurrent := hpointer rfl
    refine ⟨place, rfl, nofun, nofun, nofun, fun _ => id, ?_, nofun,
      points_leaving_iff.2 ⟨hother, fun _ => hcurrent, fun _ => hindex rfl⟩⟩
    rintro _ ⟨⟩
    cases h : c.current kind with
    | some index => exact indexIn_eq_some.1 (hcurrent.symm.trans h)
    | none => exact hcurrent.symm.trans h
  | doAsync index =>
    obtain rfl : place = some ⟨kind, index⟩ := hat
    refine ⟨none, rfl, ?_, nofun, nofun, fun _ _ => rfl, ?_, nofun,
      points_leaving_iff.2 ⟨fun other h => ?_, ?_, ?_⟩⟩
    · rintro _ _ ⟨⟩
      exact ⟨rfl, rfl⟩
    · rintro _ ⟨⟩
      cases kind <;> rfl
    · have hplace : indexIn other (some ⟨kind, index⟩) = none := indexIn_of_ne h.symm
      rw [indexIn_none, ← hplace]
      exact hother other h
    · cases kind <;> exact nofun
    · cases kind <;> exact nofun
  | notify index =>
    refine ⟨place, rfl, nofun, nofun, nofun, fun _ => id, ?_, nofun,
      points_leaving_iff.2 ⟨hother, nofun, nofun⟩⟩
    rintro _ ⟨⟩
    exact hat
  | resetPointer =>
    refine ⟨place, rfl, nofun, nofun, nofun, fun _ => id, ?_, nofun,
      points_leaving_iff.2 ⟨fun other h => ⟨?_, (hother other h).2⟩, fun _ => ?_, nofun⟩⟩
    · rintro _ ⟨⟩
      exact hat
    · exact (Function.update_of_ne h _ _).trans (hother other h).1
    · exact (Function.update_self _ _ _).trans (Eq.symm hat)
  | resetIndex =>
    have hnone : indexIn kind place = none := hat
    refine ⟨place, rfl, nofun, nofun, nofun, fun _ => id, nofun, fun _ => hnone,
      fun other _ => ?_, fun other _ => ?_⟩
    · by_cases h : other = kind
      · subst h
        exact hpointer rfl
      · exact (hother other h).1
    · by_cases h : other = kind
      · subst h
        rw [hnone]
        exact Function.update_self _ _ _
      · exact (Function.update_of_ne h _ _).trans (hother other h).2

/-! ## Requests -/

/-- While a request moves the player, no login result does. -/
theorem Client.Fits.login_idle (fits : c.Fits w) (h : c.request.moves = true) :
    c.login = .idle := by
  have hplayer : c.hasPlayer = true := by
    by_contra hnone
    rw [(fits.player (Bool.eq_false_of_not_eq_true hnone)).1] at h
    cases h
  have hat := fits.login
  cases hlogin : c.login with
  | idle => rfl
  | isConnected | reject | setPlayer =>
    rw [hlogin] at hat
    rw [show c.hasPlayer = false from hat] at hplayer
    cases hplayer
  | add | assignLobby | doAsync =>
    rw [hlogin] at hat
    rw [hat.2.1] at h
    cases h

/-- An access of a request that moves the player. -/
theorem Client.Fits.requestStep (fits : c.Fits w) (hmoves : c.request.moves = true)
    {current : Kind → Option ℕ} {currentIndex : Kind → ℤ} {request : RequestPc} {w' : Whereabouts}
    (hat : request.At w')
    (points : Points current currentIndex w'.pointer w'.indexed request.leaving) :
    Client.Fits { c with current := current, currentIndex := currentIndex, request := request }
      w' where
  online := fits.online
  alive := fits.alive
  connected _ := fits.connected (.inr (.inl hmoves))
  fresh := fits.fresh
  player hnone := by
    rw [(fits.player hnone).1] at hmoves
    cases hmoves
  login := by
    rw [fits.login_idle hmoves]
    trivial
  request := hat
  disconnect := by
    rw [fits.disconnect_idle (.inr (.inl hmoves))]
    trivial
  points := by
    rw [fits.disconnect_idle (.inr (.inl hmoves))]
    rwa [show DisconnectPc.idle.leaving = none from rfl, Option.or_none]

/-- An access of a request that does not move the player. -/
theorem Client.Fits.setRequest (fits : c.Fits w) (hstill : c.request.moves = false)
    {request : RequestPc} (still : request.moves = false) :
    Client.Fits { c with request := request } w where
  online := fits.online
  alive := fits.alive
  connected h := by
    rw [still] at h
    rcases h with h | h | h
    · exact fits.connected (.inl h)
    · cases h
    · exact fits.connected (.inr (.inr h))
  fresh := fits.fresh
  player hnone := ⟨still, (fits.player hnone).2⟩
  login := by
    have hat := fits.login
    cases hlogin : c.login with
    | add | assignLobby | doAsync =>
      rw [hlogin] at hat
      exact ⟨hat.1, still, hat.2.2⟩
    | _ =>
      rw [hlogin] at hat
      exact hat
  request := RequestPc.at_of_moves still
  disconnect := fits.disconnect
  points := by
    have hpoints := fits.points
    rw [RequestPc.leaving_of_still hstill] at hpoints
    rwa [RequestPc.leaving_of_still still]

theorem moved_of_handleRequest {roomNum : ℕ} {availableSlots : PlaceId → ℤ} {spurious : Bool}
    (fits : c.Fits w)
    (h : handleRequest acc p roomNum availableSlots spurious c = some (c', e)) :
    Moved p c c' w e := by
  unfold handleRequest at h
  have hat := fits.request
  have hpoints := fits.points
  have hidle : c.request.moves = true → c.disconnect.leaving = none := by
    intro hmoves
    rw [fits.disconnect_idle (.inr (.inl hmoves))]
    rfl
  have hmoved := fun hmoves => @Client.Fits.requestStep c w fits hmoves
  have hset := fun hstill => @Client.Fits.setRequest c w fits hstill
  cases hrequest : c.request with
  | idle =>
    simp only [hrequest] at h
    cases h
  | leave target pc =>
    simp only [hrequest, Option.some.injEq, Prod.mk.injEq] at h hat hpoints hidle
    obtain ⟨rfl, rfl⟩ := h
    obtain ⟨place, rfl, htarget, hpc⟩ := hat
    rw [hidle rfl, Option.or_none] at hpoints
    obtain ⟨place', left⟩ := left_of_leave acc p hpc hpoints
    obtain ⟨current, currentIndex, hleft⟩ := leave_client acc p target.other c pc
    generalize leave acc p target.other c pc = r at left hleft ⊢
    obtain ⟨c₁, e, next⟩ := r
    obtain rfl : c₁ = _ := hleft
    refine ⟨?_, fun target q he => absurd he (left.enter target q), fun target q he => ?_,
      fun he => absurd he left.add, fun listed _ => ⟨listed.hasPlayer, listed.reset, listed.done⟩⟩
    · rw [show _ = Whereabouts.settled place' from left.after]
      cases next with
      | some pc =>
        exact hmoved (by rw [hrequest]; rfl)
          ⟨place', rfl, left.other target htarget, left.next pc rfl⟩ left.points
      | none =>
        obtain rfl := eq_none_of_indexIn (left.other target htarget) (left.returned rfl)
        exact hmoved (by rw [hrequest]; rfl) rfl left.points
    · obtain ⟨hq, hplace⟩ := left.exit target q he
      exact ⟨hq, congrArg _ hplace⟩
  | search target search =>
    simp only [hrequest, Option.some.injEq] at h hat hpoints hidle hmoved
    obtain rfl : w = .settled none := hat
    rw [hidle rfl] at hpoints
    cases hnext : search.next (target.places roomNum) (fun i => availableSlots ⟨target, i⟩)
      spurious with
    | again search =>
      simp only [hnext, Prod.mk.injEq] at h
      obtain ⟨rfl, rfl⟩ := h
      exact moved_of_none (hmoved rfl rfl hpoints)
        fun listed => ⟨listed.hasPlayer, listed.reset, listed.done⟩
    | reserved index =>
      simp only [hnext, Prod.mk.injEq] at h
      obtain ⟨rfl, rfl⟩ := h
      exact ⟨hmoved rfl rfl hpoints, nofun, nofun, nofun,
        fun listed _ => ⟨listed.hasPlayer, listed.reset, listed.done⟩⟩
    | failed =>
      simp only [hnext, Prod.mk.injEq] at h
      obtain ⟨rfl, rfl⟩ := h
      cases target with
      | lobby =>
        exact moved_of_none (hmoved rfl trivial hpoints)
          fun listed => ⟨listed.hasPlayer, listed.reset, listed.done⟩
      | room =>
        exact moved_of_none (hmoved rfl rfl hpoints)
          fun listed => ⟨listed.hasPlayer, listed.reset, listed.done⟩
  | makeRoom =>
    simp only [hrequest, Option.some.injEq, Prod.mk.injEq] at h hat hpoints hidle hmoved
    obtain ⟨rfl, rfl⟩ := h
    obtain rfl : w = .settled none := hat
    rw [hidle rfl] at hpoints
    exact ⟨hmoved rfl rfl hpoints, nofun, nofun, nofun,
      fun listed _ => ⟨listed.hasPlayer, listed.reset, listed.done⟩⟩
  | doAsync target =>
    simp only [hrequest, Option.some.injEq, Prod.mk.injEq] at h hat hpoints hidle hmoved
    obtain ⟨rfl, rfl⟩ := h
    obtain rfl : w = .settled none := hat
    rw [hidle rfl] at hpoints
    refine ⟨hmoved rfl trivial hpoints, ?_, nofun, nofun,
      fun listed _ => ⟨listed.hasPlayer, listed.reset, listed.done⟩⟩
    rintro _ _ ⟨⟩
    exact ⟨rfl, rfl⟩
  | chatLock kind message =>
    simp only [hrequest, Option.some.injEq, Prod.mk.injEq] at h hset
    obtain ⟨rfl, rfl⟩ := h
    refine moved_of_none (hset rfl ?_) fun listed => ⟨listed.hasPlayer, listed.reset, listed.done⟩
    cases c.current kind <;> rfl
  | chatAsync target message =>
    simp only [hrequest, Option.some.injEq, Prod.mk.injEq] at h hset
    obtain ⟨rfl, rfl⟩ := h
    have hlisted : c.Listed → Client.Listed { c with request := .idle } :=
      fun listed => ⟨listed.hasPlayer, listed.reset, listed.done⟩
    cases target.kind with
    | lobby => exact ⟨hset rfl rfl, nofun, nofun, nofun, fun listed _ => hlisted listed⟩
    | room => exact ⟨hset rfl rfl, nofun, nofun, nofun, fun listed _ => hlisted listed⟩

/-! ## The end of the session -/

/-- An access of `OnDisconnected`. -/
theorem Client.Fits.disconnectStep (fits : c.Fits w) (hidle : c.disconnect ≠ .idle)
    (hdone : c.disconnect ≠ .done) {current : Kind → Option ℕ} {currentIndex : Kind → ℤ}
    {hasPlayer : Bool} {disconnect : DisconnectPc} {place : Option PlaceId}
    (hdisconnect : disconnect ≠ .idle) (hplayer : hasPlayer = true → c.hasPlayer = true)
    (hnone : hasPlayer = false → place = none) (hat : disconnect.At (.settled place))
    (points : Points current currentIndex place place disconnect.leaving) :
    Client.Fits { c with
      hasPlayer := hasPlayer
      current := current
      currentIndex := currentIndex
      disconnect := disconnect } (.settled place) := by
  obtain ⟨hlogin, hrequest, -⟩ := fits.still hidle
  have hfalse : hasPlayer = false ∨ c.hasPlayer = true := by
    cases hasPlayer with
    | false => exact .inl rfl
    | true => exact .inr (hplayer rfl)
  refine ⟨?_, fun hdead => absurd (fits.alive hdead) hdone, ?_, ?_, ?_, ?_, ?_, hat, ?_⟩
  · exact ⟨fun h => absurd h hdisconnect, fun h => absurd (fits.online.2 h) hidle⟩
  · simp [hlogin, hrequest, Whereabouts.moves]
  · intro hfresh
    obtain ⟨hno, hlogin⟩ := fits.fresh hfresh
    rw [hno] at hfalse
    exact ⟨hfalse.resolve_right nofun, hlogin⟩
  · exact fun h => ⟨hrequest, congrArg _ (hnone h)⟩
  · have hlat := fits.login
    cases hpc : c.login with
    | idle => trivial
    | isConnected | reject =>
      rw [hpc] at hlat
      rw [show c.hasPlayer = false from hlat] at hfalse
      exact hfalse.resolve_right nofun
    | _ =>
      rw [hpc] at hlogin
      cases hlogin
  · exact RequestPc.at_of_moves hrequest
  · rwa [RequestPc.leaving_of_still hrequest]

theorem moved_of_onDisconnected (fits : c.Fits w) (h : onDisconnected acc p c = some (c', e)) :
    Moved p c c' w e := by
  unfold onDisconnected at h
  have hat := fits.disconnect
  have hpoints := fits.points
  have hstep := fun hidle => @Client.Fits.disconnectStep c w fits hidle
  have hstill : c.disconnect ≠ .idle → _ := fun hidle => (fits.still hidle).2.1
  cases hdisconnect : c.disconnect with
  | idle | done =>
    simp only [hdisconnect] at h
    cases h
  | hasPlayer =>
    simp only [hdisconnect, Option.some.injEq, Prod.mk.injEq] at h hat hpoints hstep hstill
    obtain ⟨rfl, rfl⟩ := h
    rw [RequestPc.leaving_of_still (hstill nofun)] at hpoints
    obtain ⟨place, rfl⟩ := hat
    cases hplayer : c.hasPlayer with
    | true =>
      exact moved_of_none (hstep nofun nofun nofun (fun _ => hplayer) nofun ⟨place, rfl, trivial⟩
        (hpoints.leaving _)) fun listed => ⟨rfl, nofun, nofun⟩
    | false =>
      obtain ⟨rfl⟩ := (fits.player hplayer).2
      refine moved_of_none (hstep nofun nofun nofun nofun (fun _ => rfl) rfl hpoints)
        fun listed => ?_
      rw [listed.hasPlayer] at hplayer
      cases hplayer
  | leave kind pc =>
    simp only [hdisconnect, Option.some.injEq, Prod.mk.injEq] at h hat hpoints hstep hstill
    obtain ⟨rfl, rfl⟩ := h
    rw [RequestPc.leaving_of_still (hstill nofun)] at hpoints
    obtain ⟨place, rfl, hlobby, hpc⟩ : ∃ place, w = .settled place ∧
        (kind = .room → indexIn .lobby place = none) ∧ pc.At kind place := by
      cases kind with
      | lobby =>
        obtain ⟨place, rfl, hpc⟩ := hat
        exact ⟨place, rfl, nofun, hpc⟩
      | room =>
        obtain ⟨place, rfl, hlobby, hpc⟩ := hat
        exact ⟨place, rfl, fun _ => hlobby, hpc⟩
    obtain ⟨place', left⟩ := left_of_leave acc p hpc hpoints
    obtain ⟨current, currentIndex, hleft⟩ := leave_client acc p kind c pc
    have hnone : c.hasPlayer = false → place' = none := by
      intro hplayer
      obtain ⟨rfl⟩ := (fits.player hplayer).2
      exact left.eq_none
    generalize leave acc p kind c pc = r at left hleft ⊢
    obtain ⟨c₁, e, next⟩ := r
    obtain rfl : c₁ = _ := hleft
    refine ⟨?_, fun target q he => absurd he (left.enter target q), fun target q he => ?_,
      fun he => absurd he left.add, fun listed _ => ⟨listed.hasPlayer, ?_, ?_⟩⟩
    · rw [show _ = Whereabouts.settled place' from left.after]
      have hpoints' := left.points
      cases next with
      | some pc =>
        refine hstep nofun nofun nofun id hnone ?_ hpoints'
        cases kind with
        | lobby => exact ⟨place', rfl, left.next pc rfl⟩
        | room => exact ⟨place', rfl, left.other _ (hlobby rfl), left.next pc rfl⟩
      | none =>
        cases kind with
        | lobby =>
          exact hstep nofun nofun nofun id hnone ⟨place', rfl, left.returned rfl, trivial⟩
            (Points.leaving hpoints' _)
        | room =>
          obtain rfl := eq_none_of_indexIn (left.returned rfl) (left.other _ (hlobby rfl))
          exact hstep nofun nofun nofun id hnone rfl hpoints'
    · obtain ⟨hq, hplace⟩ := left.exit target q he
      exact ⟨hq, congrArg _ hplace⟩
    · cases next <;> cases kind <;> exact nofun
    · cases next <;> cases kind <;> exact nofun
  | remove =>
    simp only [hdisconnect, Option.some.injEq, Prod.mk.injEq] at h hat hpoints hstep hstill
    obtain ⟨rfl, rfl⟩ := h
    rw [RequestPc.leaving_of_still (hstill nofun)] at hpoints
    obtain rfl : w = .settled none := hat
    exact ⟨hstep nofun nofun nofun id (fun _ => rfl) rfl hpoints, nofun, nofun, nofun,
      fun _ h => absurd rfl h⟩
  | reset =>
    simp only [hdisconnect, Option.some.injEq, Prod.mk.injEq] at h hat hpoints hstep hstill
    obtain ⟨rfl, rfl⟩ := h
    rw [RequestPc.leaving_of_still (hstill nofun)] at hpoints
    obtain rfl : w = .settled none := hat
    exact moved_of_none (hstep nofun nofun nofun nofun (fun _ => rfl) rfl hpoints)
      fun listed => absurd hdisconnect listed.reset

/-! ## Jobs -/

/-- An access of an `Enter` of the player. -/
theorem Client.Fits.jobStep (fits : c.Fits w) (hmoves : w.moves = true)
    {current : Kind → Option ℕ} {currentIndex : Kind → ℤ} {w' : Whereabouts}
    (points : Points current currentIndex w'.pointer w'.indexed none) :
    Client.Fits { c with current := current, currentIndex := currentIndex } w' := by
  obtain ⟨hlogin, hrequest, hidle⟩ := fits.of_moves hmoves
  refine ⟨fits.online, fits.alive, fun _ => fits.connected (.inr (.inr hmoves)), fits.fresh, ?_, ?_,
    RequestPc.at_of_moves hrequest, ?_, ?_⟩
  · intro hnone
    obtain ⟨rfl⟩ := (fits.player hnone).2
    cases hmoves
  · rw [hlogin]
    trivial
  · rw [hidle]
    trivial
  · rwa [RequestPc.leaving_of_still hrequest, hidle]

/-- `SetCurrentLobby` or `SetCurrentRoom` stores the pointer. -/
theorem Client.Fits.setCurrent {target : PlaceId} (fits : c.Fits (.joining target .pointer)) :
    (c.setCurrent target.kind (some target.index)).Fits (.joining target .index) := by
  have points := fits.points_of_moves rfl
  refine fits.jobStep rfl ⟨fun kind _ => ?_, points.index⟩
  by_cases h : kind = target.kind
  · subst h
    exact (Function.update_self _ _ _).trans (indexIn_some target).symm
  · exact ((Function.update_of_ne h _ _).trans (points.pointer kind nofun)).trans
      (indexIn_of_ne (Ne.symm h)).symm

/-- `SetCurrentLobby` or `SetCurrentRoom` stores the index. -/
theorem Client.Fits.setIndex {target : PlaceId} (fits : c.Fits (.joining target .index)) :
    (c.setIndex target.kind target.index).Fits (.joining target .session) := by
  have points := fits.points_of_moves rfl
  refine fits.jobStep rfl ⟨points.pointer, fun kind _ => ?_⟩
  by_cases h : kind = target.kind
  · subst h
    rw [show indexIn target.kind (Whereabouts.joining target .session).indexed =
      some target.index from indexIn_some target]
    exact Function.update_self _ _ _
  · rw [show indexIn kind (Whereabouts.joining target .session).indexed = none from
      indexIn_of_ne (Ne.symm h)]
    exact (Function.update_of_ne h _ _).trans (points.index kind nofun)

/-! ## Players at rest -/

/-- A request that leaves something stale has left the place already. -/
theorem RequestPc.At.fresh {request : RequestPc} {target : PlaceId} {kind : Kind} {pc : LeavePc}
    (hat : request.At (.settled (some target))) (h : request.leaving = some (kind, pc)) :
    pc.stalePointer = false ∧ pc.staleIndex = false := by
  cases request with
  | leave target' pc' =>
    obtain ⟨rfl, rfl⟩ := Prod.mk.inj (Option.some.inj h)
    obtain ⟨place, ⟨rfl⟩, hnone, hpc⟩ := hat
    cases pc' with
    | lock | doAsync => exact ⟨rfl, rfl⟩
    | notify | resetPointer | resetIndex => cases eq_none_of_indexIn hnone hpc
  | _ => cases h

/-- The pointers of a connected player that belongs to a place lead there. -/
theorem Client.Fits.points_of_place {target : PlaceId} (fits : c.Fits (.settled (some target)))
    (connected : c.connected = true) :
    Points c.current c.currentIndex (some target) (some target) none := by
  have hpoints := fits.points
  rw [fits.online.2 connected, show DisconnectPc.idle.leaving = none from rfl,
    Option.or_none] at hpoints
  exact ⟨fun kind _ => hpoints.pointer kind fun _ h => (fits.request.fresh h).1,
    fun kind _ => hpoints.index kind fun _ h => (fits.request.fresh h).2⟩

end Clients

end Server

end DhNet
