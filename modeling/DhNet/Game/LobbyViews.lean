import Mathlib.Data.Finset.Image
import DhNet.Lib.System
import DhNet.Game.Places

/-!
# The members' views of a lobby

A client learns who is in its lobby from one `ResLobbyEnter` and the `NotiLobbyPlayerEnter` and
`NotiLobbyPlayerExit` that follow it.  Here one lobby runs any sequence of jobs on any players: a
slot is reserved before each `Enter`, ids may be duplicate, and a session may cease to exist at any
time.

* `view`: what a client makes of the packets it received.
* `received_audience`: a packet that is sent to some members reaches each of them exactly once.
* `views_replicate`: the view of every member whose session exists is the set of members.
-/

namespace DhNet

namespace LobbyViews

variable {P : Type*}

/-! ## The lobby -/

/-- A lobby with its reservations, the existing sessions and all packets sent so far. -/
structure State (P : Type*) where
  players : SortedMap ℕ P
  availableSlots : ℤ
  reserved : ℕ
  ownerSession : P → Bool
  sent : List (P × Notice)

/-- A reservation, a job, or the end of a session object. -/
inductive Action (P : Type*) where
  | reserve
  | enter (player : P)
  | exit (player : P)
  | chat (player : P) (message : List UInt8)
  | destroy (player : P)

/-- The ids that are in the lobby. -/
def memberIds (players : SortedMap ℕ P) : Finset ℕ := (players.entries.map Prod.fst).toFinset

theorem mem_memberIds {players : SortedMap ℕ P} {k : ℕ} :
    k ∈ memberIds players ↔ ∃ p, (k, p) ∈ players.entries := by
  simp [memberIds]

theorem memberIds_insert (players : SortedMap ℕ P) (k : ℕ) (p : P) :
    memberIds (players.insert k p) = insert k (memberIds players) := by
  ext j
  simp only [mem_memberIds, Finset.mem_insert, SortedMap.mem_insert]
  by_cases h : j = k
  · simp [h]
  · simp [h]

theorem memberIds_erase (players : SortedMap ℕ P) (k : ℕ) :
    memberIds (players.erase k) = (memberIds players).erase k := by
  ext j
  simp [mem_memberIds, SortedMap.mem_erase]

/-- The list that `Lobby::Enter` sends names all members, as long as there are at most 50. -/
theorem foldl_addPlayer (reg : Registry P) {entries : List (ℕ × P)} {listed : List (ℕ × List UInt8)}
    (h : listed.length + entries.length ≤ maxLobbyPlayers) :
    entries.foldl (fun listed e =>
        ResLobbyEnter.addPlayer listed (reg.playerId e.2) (reg.playerName e.2)) listed =
      listed ++ entries.map fun e => (reg.playerId e.2, reg.nameField e.2) := by
  induction entries generalizing listed with
  | nil => simp
  | cons e entries ih =>
    rw [List.length_cons] at h
    have hadd : ResLobbyEnter.addPlayer listed (reg.playerId e.2) (reg.playerName e.2) =
        listed ++ [(reg.playerId e.2, reg.nameField e.2)] := if_neg (by omega)
    rw [List.foldl_cons, hadd, ih (by rw [List.length_append, List.length_singleton]; omega),
      List.map_cons, List.append_assoc, List.singleton_append]

variable (playerId : P → ℕ) (playerName : P → List UInt8) (lobbyIndex : ℕ)

/-- What the jobs read of the players. -/
def State.registry (s : State P) : Registry P := ⟨playerId, playerName, s.ownerSession⟩

theorem registry_playerId (s : State P) :
    (s.registry playerId playerName).playerId = playerId := rfl

variable [DecidableEq P]

/-- The lobby after a job. -/
def State.after (s : State P) (reserved : ℕ) (outcome : JobOutcome P) : State P where
  players := outcome.players
  availableSlots := s.availableSlots + if outcome.release then 1 else 0
  reserved := reserved
  ownerSession := s.ownerSession
  sent := s.sent ++ outcome.sent

/-- One step of the lobby; an `Enter` uses up a reservation. -/
def step (s : State P) : Action P → Option (State P)
  | .reserve =>
      if 0 < s.availableSlots then
        some ⟨s.players, s.availableSlots - 1, s.reserved + 1, s.ownerSession, s.sent⟩
      else none
  | .enter p =>
      if 0 < s.reserved then
        some (s.after (s.reserved - 1)
          (Lobby.enter (s.registry playerId playerName) lobbyIndex s.players p))
      else none
  | .exit p => some (s.after s.reserved (Lobby.exit (s.registry playerId playerName) s.players p))
  | .chat p message =>
      some (s.after s.reserved (Lobby.chat (s.registry playerId playerName) s.players p message))
  | .destroy p =>
      some ⟨s.players, s.availableSlots, s.reserved, Function.update s.ownerSession p false, s.sent⟩

/-- An empty lobby. -/
def State.initial : State P := ⟨.empty, maxLobbyPlayers, 0, fun _ => true, []⟩

/-- A lobby that runs any jobs. -/
def system : Transition.System (State P) (Action P) :=
  ⟨(· = .initial), step playerId playerName lobbyIndex⟩

/-! ## Views -/

/-- What a client makes of the next packet: the ids it believes to be in the lobby, `none` before
the first list. -/
def viewStep (view : Option (Finset ℕ)) : Notice → Option (Finset ℕ)
  | .resLobbyEnter _ players => some (players.map Prod.fst).toFinset
  | .notiLobbyPlayerEnter playerId _ => view.map (insert playerId)
  | .notiLobbyPlayerExit playerId _ => view.map (·.erase playerId)
  | _ => view

/-- The packets of a log that were sent to one player. -/
def received (log : List (P × Notice)) (p : P) : List Notice :=
  (log.filter fun m => m.1 = p).map Prod.snd

/-- The ids that a player believes to be in the lobby, since its last list. -/
def view (log : List (P × Notice)) (p : P) : Option (Finset ℕ) :=
  (received log p).foldl viewStep none

theorem received_append (log log' : List (P × Notice)) (p : P) :
    received (log ++ log') p = received log p ++ received log' p := by
  simp [received]

theorem view_append (log log' : List (P × Notice)) (p : P) :
    view (log ++ log') p = (received log' p).foldl viewStep (view log p) := by
  rw [view, received_append, List.foldl_append, view]

/-! ## Who receives what -/

variable {playerId playerName lobbyIndex}

theorem received_cons (m : P × Notice) (log : List (P × Notice)) (p : P) :
    received (m :: log) p = if m.1 = p then m.2 :: received log p else received log p := by
  unfold received
  rw [List.filter_cons]
  split_ifs with h h' h'
  · rfl
  · exact absurd (of_decide_eq_true h) h'
  · exact absurd (decide_eq_true h') h
  · rfl

/-- A packet sent to some of the members reaches each of them exactly once. -/
theorem received_audience {entries : List (ℕ × P)} (nodup : (entries.map Prod.fst).Nodup)
    (keyed : ∀ e ∈ entries, e.1 = playerId e.2) (audience : ℕ × P → Bool) (packet : Notice)
    (p : P) :
    received ((entries.filter audience).map fun e => (e.2, packet)) p =
      if (playerId p, p) ∈ entries ∧ audience (playerId p, p) = true then [packet] else [] := by
  induction entries with
  | nil => rfl
  | cons e entries ih =>
    rw [List.map_cons, List.nodup_cons] at nodup
    rw [List.forall_mem_cons] at keyed
    have hrest := ih nodup.2 keyed.2
    by_cases hp : e.2 = p
    · have he : e = (playerId p, p) := by
        rw [← hp, ← keyed.1]
      have hnot : (playerId p, p) ∉ entries := by
        intro hmem
        exact nodup.1 (List.mem_map.2 ⟨_, hmem, by rw [he]⟩)
      rw [if_neg fun h => hnot h.1] at hrest
      rw [List.filter_cons]
      by_cases haud : audience e = true
      · rw [if_pos haud, List.map_cons, received_cons, if_pos hp, hrest, if_pos]
        exact ⟨by rw [he]; exact List.mem_cons_self, by rw [← he]; exact haud⟩
      · rw [if_neg haud, hrest, if_neg]
        rw [← he]
        exact fun h => haud h.2
    · have hmem : (playerId p, p) ∈ e :: entries ↔ (playerId p, p) ∈ entries := by
        rw [List.mem_cons, or_iff_right]
        rintro rfl
        exact hp rfl
      simp only [hmem]
      rw [← hrest, List.filter_cons]
      split_ifs
      · rw [List.map_cons, received_cons, if_neg hp]
      · rfl

/-! ## The invariant -/

/-- The slots add up, members are entered under their ids, and their views agree. -/
structure Inv (playerId : P → ℕ) (s : State P) : Prop where
  available : 0 ≤ s.availableSlots
  slots : s.availableSlots + s.players.size + s.reserved = maxLobbyPlayers
  keyed : ∀ e ∈ s.players.entries, e.1 = playerId e.2
  views : ∀ p, (playerId p, p) ∈ s.players.entries → s.ownerSession p = true →
    view s.sent p = some (memberIds s.players)

theorem Inv.initial : Inv playerId (.initial : State P) where
  available := by simp [State.initial]
  slots := by simp [State.initial]
  keyed := by simp [State.initial, SortedMap.empty]
  views := by simp [State.initial, SortedMap.empty]

variable {s s' : State P} {p : P}

/-- A job that leaves the members alone and sends nothing, and returns the slot of a reservation. -/
theorem Inv.returned (inv : Inv playerId s) (reserved : 0 < s.reserved) (current : Bool) :
    Inv playerId (s.after (s.reserved - 1)
      { players := s.players, release := true, current := current }) where
  available := by
    have := inv.available
    simp only [State.after, if_true]
    omega
  slots := by
    have := inv.slots
    simp only [State.after, if_true]
    omega
  keyed := inv.keyed
  views q := by
    simp only [State.after, List.append_nil]
    exact inv.views q

/-- What each member of the grown lobby receives. -/
theorem received_welcome (reg : Registry P) (lobbyIndex : ℕ) {players : SortedMap ℕ P} (p : P)
    (keyed : ∀ e ∈ players.entries, e.1 = reg.playerId e.2) (size : players.size ≤ maxLobbyPlayers)
    {q : P} (member : (reg.playerId q, q) ∈ players.entries) (alive : reg.ownerSession q = true) :
    received (Lobby.welcome reg lobbyIndex players p) q =
      (if reg.playerId q ≠ reg.playerId p then
        [.notiLobbyPlayerEnter (reg.playerId p) (reg.nameField p)] else []) ++
      if p = q then [.resLobbyEnter lobbyIndex
        (players.entries.map fun e => (reg.playerId e.2, reg.nameField e.2))] else [] := by
  unfold Lobby.welcome
  rw [received_append, received_audience SortedMap.nodup_keys keyed, received_cons,
    foldl_addPlayer reg (by simpa [SortedMap.size] using size), List.nil_append]
  have haudience : ((reg.playerId q, q) ∈ players.entries ∧
      decide (reg.playerId q ≠ reg.playerId p ∧ reg.ownerSession q = true) = true) ↔
        reg.playerId q ≠ reg.playerId p := by
    simp [member, alive]
  simp only [haudience]
  rfl

theorem Inv.joined (inv : Inv playerId s) (reserved : 0 < s.reserved)
    (fresh : s.players.find? (playerId p) = none) :
    Inv playerId (s.after (s.reserved - 1)
      { players := s.players.insert (playerId p) p
        current := true
        sent := Lobby.welcome (s.registry playerId playerName) lobbyIndex
          (s.players.insert (playerId p) p) p }) := by
  have hsize : (s.players.insert (playerId p) p).size = s.players.size + 1 :=
    SortedMap.size_insert fresh
  have hslots := inv.slots
  have havailable := inv.available
  have hkeyed : ∀ e ∈ (s.players.insert (playerId p) p).entries, e.1 = playerId e.2 := by
    rintro ⟨k, q⟩ hmem
    rcases SortedMap.mem_insert.1 hmem with ⟨rfl, rfl⟩ | ⟨-, hmem⟩
    · rfl
    · exact inv.keyed _ hmem
  refine ⟨by simpa [State.after] using havailable, ?_, hkeyed, ?_⟩
  · simp only [State.after]
    rw [if_neg (by decide), hsize]
    omega
  · intro q hmem halive
    have hreceived := received_welcome (s.registry playerId playerName) lobbyIndex p hkeyed
      (by omega) hmem halive
    simp only [State.after]
    rw [registry_playerId] at hreceived
    rw [view_append, hreceived, memberIds_insert]
    rcases SortedMap.mem_insert.1 hmem with ⟨-, rfl⟩ | ⟨hne, hmem⟩
    · have hids : (s.players.insert (playerId q) q).entries.map (fun e => playerId e.2) =
          (s.players.insert (playerId q) q).entries.map Prod.fst :=
        List.map_congr_left fun e he => (hkeyed e he).symm
      rw [if_neg (by simp), if_pos rfl, ← memberIds_insert]
      simp only [List.nil_append, List.foldl_cons, List.foldl_nil, viewStep, List.map_map]
      exact congrArg (fun ids => some (List.toFinset ids)) hids
    · have hpq : p ≠ q := by
        rintro rfl
        exact hne rfl
      rw [if_pos hne, if_neg hpq, inv.views q hmem halive]
      rfl

theorem Inv.enter (inv : Inv playerId s) (reserved : 0 < s.reserved) (p : P) :
    Inv playerId (s.after (s.reserved - 1)
      (Lobby.enter (s.registry playerId playerName) lobbyIndex s.players p)) := by
  unfold Lobby.enter
  rw [registry_playerId]
  cases hfind : s.players.find? (playerId p) with
  | some q => exact inv.returned reserved false
  | none =>
    simp only [SortedMap.erase_insert hfind]
    split_ifs
    · exact inv.joined reserved hfind
    · exact inv.returned reserved true

/-- What a member receives of a broadcast. -/
theorem received_broadcast (reg : Registry P) {players : SortedMap ℕ P} (packet : Notice)
    (keyed : ∀ e ∈ players.entries, e.1 = reg.playerId e.2) {q : P}
    (member : (reg.playerId q, q) ∈ players.entries) (alive : reg.ownerSession q = true) :
    received (broadcast reg players packet) q = [packet] := by
  unfold broadcast
  rw [received_audience SortedMap.nodup_keys keyed, if_pos ⟨member, alive⟩]

theorem Inv.exit (inv : Inv playerId s) (p : P) :
    Inv playerId (s.after s.reserved
      (Lobby.exit (s.registry playerId playerName) s.players p)) := by
  unfold Lobby.exit
  rw [registry_playerId]
  have hslots := inv.slots
  have havailable := inv.available
  cases hfind : s.players.find? (playerId p) with
  | none =>
    refine ⟨by simpa [State.after] using havailable, by simpa [State.after] using hslots,
      inv.keyed, fun q => ?_⟩
    simp only [State.after, List.append_nil]
    exact inv.views q
  | some r =>
    have hsize := SortedMap.size_erase hfind
    have hkeyed : ∀ e ∈ (s.players.erase (playerId p)).entries, e.1 = playerId e.2 := by
      rintro ⟨k, q⟩ hmem
      exact inv.keyed _ (SortedMap.mem_erase.1 hmem).2
    refine ⟨?_, ?_, hkeyed, ?_⟩
    · simp only [State.after, if_true]
      omega
    · simp only [State.after, if_true]
      omega
    · intro q hmem halive
      simp only [State.after] at hmem halive ⊢
      rw [view_append, received_broadcast (s.registry playerId playerName) _ hkeyed hmem halive,
        inv.views q (SortedMap.mem_erase.1 hmem).2 halive, memberIds_erase]
      rfl

theorem Inv.chat (inv : Inv playerId s) (p : P) (message : List UInt8) :
    Inv playerId (s.after s.reserved
      (Lobby.chat (s.registry playerId playerName) s.players p message)) := by
  unfold Lobby.chat
  refine ⟨by simpa [State.after] using inv.available, by simpa [State.after] using inv.slots,
    inv.keyed, fun q hmem halive => ?_⟩
  simp only [State.after] at hmem halive ⊢
  rw [view_append, received_broadcast (s.registry playerId playerName) _ inv.keyed hmem halive,
    inv.views q hmem halive]
  rfl

/-- A session that ceases to exist only frees its view of the condition. -/
theorem Inv.destroy (inv : Inv playerId s) (p : P) :
    Inv playerId ⟨s.players, s.availableSlots, s.reserved, Function.update s.ownerSession p false,
      s.sent⟩ where
  available := inv.available
  slots := inv.slots
  keyed := inv.keyed
  views q hmem halive := by
    refine inv.views q hmem ?_
    by_cases hq : q = p
    · subst hq
      simp at halive
    · simpa [hq] using halive

theorem Inv.step (inv : Inv playerId s) {a : Action P}
    (hstep : LobbyViews.step playerId playerName lobbyIndex s a = some s') : Inv playerId s' := by
  cases a with
  | reserve =>
    obtain ⟨hpos, heq⟩ := Option.ite_none_right_eq_some.1 hstep
    obtain rfl := Option.some.inj heq
    have hslots := inv.slots
    exact ⟨by show 0 ≤ s.availableSlots - 1; omega, by push_cast; omega, inv.keyed, inv.views⟩
  | enter p =>
    obtain ⟨hpos, heq⟩ := Option.ite_none_right_eq_some.1 hstep
    obtain rfl := Option.some.inj heq
    exact inv.enter hpos p
  | exit p =>
    obtain rfl := Option.some.inj hstep
    exact inv.exit p
  | chat p message =>
    obtain rfl := Option.some.inj hstep
    exact inv.chat p message
  | destroy p =>
    obtain rfl := Option.some.inj hstep
    exact inv.destroy p

/-- For every sequence of jobs, the view of every current member whose session exists is exactly the
set of ids in `m_players`. -/
theorem views_replicate (h : (system playerId playerName lobbyIndex).Reachable s) (p : P)
    (member : s.players.find? (playerId p) = some p) (alive : s.ownerSession p = true) :
    view s.sent p = some (memberIds s.players) := by
  have inv : Inv playerId s := by
    refine h.invariant ?_ ?_
    · rintro s rfl
      exact Inv.initial
    · intro s a s' inv hstep
      exact inv.step hstep
  exact inv.views p (SortedMap.find?_eq_some_iff.1 member) alive

/-- The ids of three players, two of which share an account. -/
def sampleIds : Fin 3 → ℕ
  | 0 => 5
  | 1 => 5
  | 2 => 7

/-- The second player is turned away for its id, the third one is announced to the first one. -/
theorem views_replicate_duplicate_id :
    ∃ s : State (Fin 3), (system sampleIds (fun _ => [65]) 0).Reachable s ∧
      s.reserved = 0 ∧ s.availableSlots = 48 ∧ view s.sent 0 = some {5, 7} := by
  have hrun : (system sampleIds (fun _ => [65]) 0).run .initial
      [.reserve, .reserve, .enter 0, .enter 1, .reserve, .enter 2, .chat 2 [66], .destroy 1] =
        some _ := rfl
  have hreach := Transition.System.reachable_of_run (.init rfl) hrun
  refine ⟨_, hreach, rfl, rfl, (views_replicate hreach 0 rfl rfl).trans ?_⟩
  decide

end LobbyViews

end DhNet
