import DhNet.Game.Whereabouts

/-!
# A player is in one place at a time

The requests of a session and the end of the session only look at what earlier jobs have recorded,
so a player can be moved while its `Enter` is still under way: it then ends up in two places, or
stays behind when its session ends.  Runs in which a player is only moved when nothing is under way
for it (`Orderly`) have neither:

* `Present`: the map, the jobs and the running job of a place agree with the whereabouts of a
  player.
* `Located.step`: every orderly step keeps the agreement of all clients and places.
* `location_exclusive`: when no job waits or runs, a connected player is in at most one place, and
  its pointers lead there.
* `no_phantom_player`: when no job waits or runs, a player whose session has been disconnected is in
  no place and not in `PlayerSystem`.
-/

namespace DhNet

namespace Server

variable {P : Type*}

/-! ## Orderly runs -/

/-- The player is a value in `m_players`. -/
def Place.Has (place : Place P) (p : P) : Prop := ∃ id, place.players.find? id = some p

/-- No job waits or runs. -/
def State.Quiescent (s : State P) : Prop :=
  ∀ target, (s.place target).waiting = [] ∧ (s.place target).running = none

/-- A call moves the player, or an `Enter` of the player waits or runs. -/
def State.Moving (s : State P) (p : P) : Prop :=
  (s.client p).login.moves ∨ (s.client p).request.moves ∨
    ∃ target, .enter p ∈ (s.place target).waiting ∨
      ∃ stage, (s.place target).running = some (.enter p, stage)

/-- Players are only moved when nothing is under way for them: a request to enter a room comes from
a player outside of the rooms, a request to leave a room from a player outside of the lobbies, and
neither these nor the end of the session overtake an earlier move. -/
def Orderly (s : State P) : Op P → Prop
  | .reqRoomEnter p =>
      (s.client p).connected = true ∧ ¬ s.Moving p ∧ (s.client p).current .room = none
  | .reqRoomExit p =>
      (s.client p).connected = true ∧ ¬ s.Moving p ∧ (s.client p).current .lobby = none
  | .disconnect p => ¬ s.Moving p
  | _ => True

/-- Nothing is under way for a client without calls while no job waits or runs. -/
theorem not_moving_of_quiescent {s : State P} {p : P} (quiescent : s.Quiescent)
    (idle : (s.client p).login = .idle ∧ (s.client p).request = .idle) : ¬ s.Moving p := by
  rintro (h | h | ⟨target, h | ⟨stage, h⟩⟩)
  · rw [idle.1] at h
    cases h
  · rw [idle.2] at h
    cases h
  · rw [(quiescent target).1] at h
    cases h
  · rw [(quiescent target).2] at h
    cases h

/-! ## Places -/

section Places

variable [DecidableEq P]

/-- What a job that has not started does to a player: `true` for its `Enter`, `false` for its `Exit`
or `Leave`. -/
def Job.move (p : P) : Job P → Option Bool
  | .enter q => if q = p then some true else none
  | .exit q => if q = p then some false else none
  | _ => none

/-- The job that is about to start. -/
def Place.starting (place : Place P) : List (Job P) :=
  match place.running with
  | some (job, .body) => [job]
  | _ => []

/-- The moves of a player that are queued at a place. -/
def Place.moves (place : Place P) (p : P) : List Bool :=
  (place.starting ++ place.waiting).filterMap (Job.move p)

/-- The `Enter` that a player waits for at a place. -/
def Whereabouts.enters (w : Whereabouts) (target : PlaceId) : List Bool :=
  if w = .entering target then [true] else []

/-- A place agrees with the whereabouts of a player: the player is in the map if it belongs to the
place, otherwise its `Exit` or `Leave` is queued; its `Enter` is queued if it waits for it; and the
running job is its `Enter` if it is being inserted. -/
structure Present (p : P) (target : PlaceId) (place : Place P) (w : Whereabouts) : Prop where
  member : w.place = some target → place.Has p
  leaves : place.Has p → w.place ≠ some target → place.moves p = false :: w.enters target
  stays : (place.Has p → w.place = some target) → place.moves p = w.enters target
  joins : ∀ stage, w = .joining target stage ↔
    place.running = some (.enter p, stage) ∧ stage ≠ .body ∧ stage ≠ .release

/-- The whereabouts have nothing to do with this place. -/
structure Whereabouts.Away (w : Whereabouts) (target : PlaceId) : Prop where
  place : w.place ≠ some target
  entering : w ≠ .entering target
  joining : ∀ stage, w ≠ .joining target stage

variable {p : P} {target : PlaceId} {place place' : Place P} {w w' : Whereabouts}

theorem Whereabouts.enters_of_ne (h : w ≠ .entering target) : w.enters target = [] := if_neg h

theorem Present.move (h : Present p target place w) (away : w.Away target)
    (away' : w'.Away target) :
    Present p target place w' where
  member hplace := absurd hplace away'.place
  leaves has _ := by
    have hmoves := h.leaves has away.place
    rw [Whereabouts.enters_of_ne away.entering] at hmoves
    rw [hmoves, Whereabouts.enters_of_ne away'.entering]
  stays hnot := by
    have hmoves := h.stays fun has => absurd (hnot has) away'.place
    rw [Whereabouts.enters_of_ne away.entering] at hmoves
    rw [hmoves, Whereabouts.enters_of_ne away'.entering]
  joins stage := by
    constructor
    · exact fun hw => absurd hw (away'.joining stage)
    · exact fun hrunning => absurd ((h.joins stage).2 hrunning) (away.joining stage)

/-- A change of a place that does not concern the player. -/
theorem Present.frame (h : Present p target place w) (has : place'.Has p ↔ place.Has p)
    (moves : place'.moves p = place.moves p)
    (running : ∀ stage, stage ≠ .body → stage ≠ .release →
      (place'.running = some (.enter p, stage) ↔ place.running = some (.enter p, stage))) :
    Present p target place' w where
  member hplace := has.2 (h.member hplace)
  leaves hhas hplace := moves.trans (h.leaves (has.1 hhas) hplace)
  stays hhas := moves.trans (h.stays fun hp => hhas (has.2 hp))
  joins stage := by
    rw [h.joins]
    constructor
    · rintro ⟨hrunning, hbody, hrelease⟩
      exact ⟨(running stage hbody hrelease).2 hrunning, hbody, hrelease⟩
    · rintro ⟨hrunning, hbody, hrelease⟩
      exact ⟨(running stage hbody hrelease).1 hrunning, hbody, hrelease⟩

theorem moves_doAsync (place : Place P) (job : Job P) (p : P) :
    (place.doAsync job).moves p = place.moves p ++ (job.move p).toList := by
  show (place.starting ++ (place.waiting ++ [job])).filterMap _ = _
  rw [← List.append_assoc, List.filterMap_append]
  cases h : job.move p <;> simp [Place.moves, h]

/-- Queueing a job that does not move the player. -/
theorem Present.doAsync (h : Present p target place w) {job : Job P} (still : job.move p = none) :
    Present p target (place.doAsync job) w := by
  refine h.frame Iff.rfl ?_ fun _ _ _ => Iff.rfl
  rw [moves_doAsync, still]
  simp

/-- Queueing the `Enter` of a player that is nowhere. -/
theorem Present.enter (h : Present p target place (.settled none)) :
    Present p target (place.doAsync (.enter p)) (.entering target) where
  member := nofun
  leaves has _ := by
    rw [moves_doAsync, h.leaves has nofun]
    simp [Whereabouts.enters, Job.move]
  stays hnot := by
    rw [moves_doAsync, h.stays fun has => nomatch hnot has]
    simp [Whereabouts.enters, Job.move]
  joins stage := by
    constructor
    · exact nofun
    · exact fun hrunning => nomatch (h.joins stage).2 hrunning

/-- Queueing the `Exit` or `Leave` of a member. -/
theorem Present.exit (h : Present p target place (.settled (some target))) :
    Present p target (place.doAsync (.exit p)) (.settled none) where
  member := nofun
  leaves has _ := by
    rw [moves_doAsync, h.stays fun _ => rfl]
    simp [Whereabouts.enters, Job.move]
  stays hnot := nomatch hnot (h.member rfl)
  joins stage := by
    constructor
    · exact nofun
    · exact fun hrunning => nomatch (h.joins stage).2 hrunning

/-! ## The jobs -/

/-- The job that is about to start, if any, does not move the player. -/
def Place.Still (place : Place P) (p : P) : Prop :=
  ∀ job, place.running = some (job, .body) → job.move p = none

theorem moves_of_still (still : place.Still p) :
    place.moves p = place.waiting.filterMap (Job.move p) := by
  unfold Place.moves Place.starting
  split
  · next job hrunning => simp [still job hrunning]
  · rfl

theorem moves_of_body {job : Job P} (running : place.running = some (job, .body)) :
    place.moves p = (job.move p).toList ++ place.waiting.filterMap (Job.move p) := by
  unfold Place.moves Place.starting
  rw [running]
  cases h : job.move p <;> simp [h]

/-- An `Enter` about to start finds its player outside, with no other move queued. -/
theorem Present.of_enter (h : Present p target place w)
    (running : place.running = some (.enter p, .body)) :
    w = .entering target ∧ ¬ place.Has p ∧ place.waiting.filterMap (Job.move p) = [] := by
  have hmoves : place.moves p = true :: place.waiting.filterMap (Job.move p) := by
    rw [moves_of_body running, Job.move, if_pos rfl]
    rfl
  by_cases hleaves : place.Has p ∧ w.place ≠ some target
  · rw [h.leaves hleaves.1 hleaves.2] at hmoves
    cases hmoves
  · have hstays : place.Has p → w.place = some target :=
      fun has => by_contra fun hplace => hleaves ⟨has, hplace⟩
    rw [h.stays hstays, Whereabouts.enters] at hmoves
    split_ifs at hmoves with hw
    refine ⟨hw, fun has => ?_, (List.cons.inj hmoves).2.symm⟩
    have hplace := hstays has
    rw [hw] at hplace
    cases hplace

/-- An `Exit` or `Leave` about to start finds its player in the map. -/
theorem Present.of_exit (h : Present p target place w)
    (running : place.running = some (.exit p, .body)) :
    place.Has p ∧ w.place ≠ some target ∧
      place.waiting.filterMap (Job.move p) = w.enters target := by
  have hmoves : place.moves p = false :: place.waiting.filterMap (Job.move p) := by
    rw [moves_of_body running, Job.move, if_pos rfl]
    rfl
  by_cases hleaves : place.Has p ∧ w.place ≠ some target
  · rw [h.leaves hleaves.1 hleaves.2] at hmoves
    exact ⟨hleaves.1, hleaves.2, (List.cons.inj hmoves).2.symm⟩
  · rw [h.stays fun has => by_contra fun hplace => hleaves ⟨has, hplace⟩,
      Whereabouts.enters] at hmoves
    split_ifs at hmoves with hw
    cases hmoves

theorem Present.refused (h : Present p target place w)
    (running : place.running = some (.enter p, .body)) :
    Present p target { place with running := some (.enter p, .release) } (.settled none) := by
  obtain ⟨-, hnot, hqueued⟩ := h.of_enter running
  refine ⟨nofun, fun has => absurd has hnot, fun _ => ?_, fun stage => ⟨nofun, ?_⟩⟩
  · exact (moves_of_still (by rintro _ ⟨⟩)).trans hqueued
  · rintro ⟨⟨⟩, -, hrelease⟩
    exact absurd rfl hrelease

theorem Present.inserted (h : Present p target place w)
    (running : place.running = some (.enter p, .body)) (id : ℕ) :
    Present p target
      { place with players := place.players.insert id p, running := some (.enter p, .pointer) }
      (.joining target .pointer) := by
  obtain ⟨-, -, hqueued⟩ := h.of_enter running
  refine ⟨fun _ => ⟨id, ?_⟩, fun _ hplace => absurd rfl hplace, fun _ => ?_, fun stage => ⟨?_, ?_⟩⟩
  · exact SortedMap.find?_insert.trans (if_pos rfl)
  · exact (moves_of_still (by rintro _ ⟨⟩)).trans hqueued
  · rintro ⟨⟩
    exact ⟨rfl, nofun, nofun⟩
  · rintro ⟨⟨⟩, -, -⟩
    rfl

/-- A player that is being inserted has no move queued. -/
theorem Present.of_joining {stage : Stage} (h : Present p target place (.joining target stage)) :
    place.Has p ∧ place.waiting.filterMap (Job.move p) = [] := by
  obtain ⟨hrunning, hbody, -⟩ := (h.joins stage).1 rfl
  have hstill : place.Still p := by
    intro job hjob
    rw [hrunning] at hjob
    cases hjob
    exact absurd rfl hbody
  refine ⟨h.member rfl, ?_⟩
  rw [← moves_of_still hstill, h.stays fun _ => rfl]
  rfl

theorem Present.goesOn {stage stage' : Stage} (h : Present p target place (.joining target stage))
    (hbody : stage' ≠ .body) (hrelease : stage' ≠ .release) :
    Present p target { place with running := some (.enter p, stage') }
      (.joining target stage') := by
  obtain ⟨has, hqueued⟩ := h.of_joining
  refine ⟨fun _ => has, fun _ hplace => absurd rfl hplace, fun _ => ?_, fun stage => ⟨?_, ?_⟩⟩
  · rw [moves_of_still]
    · exact hqueued
    · rintro _ ⟨⟩
      exact absurd rfl hbody
  · rintro ⟨⟩
    exact ⟨rfl, hbody, hrelease⟩
  · rintro ⟨⟨⟩, -, -⟩
    rfl

theorem Present.entered {stage : Stage} (h : Present p target place (.joining target stage)) :
    Present p target { place with running := none } (.settled (some target)) := by
  obtain ⟨has, hqueued⟩ := h.of_joining
  refine ⟨fun _ => has, fun _ hplace => absurd rfl hplace, fun _ => ?_, fun stage => ⟨nofun, nofun⟩⟩
  exact (moves_of_still (by rintro _ ⟨⟩)).trans hqueued

theorem Present.erased (h : Present p target place w)
    (running : place.running = some (.exit p, .body)) {players : SortedMap ℕ P}
    (hnot : ∀ id, players.find? id ≠ some p) :
    Present p target { place with players := players, running := some (.exit p, .release) } w := by
  obtain ⟨-, hplace, hqueued⟩ := h.of_exit running
  refine ⟨fun hp => absurd hp hplace, ?_, fun _ => ?_, fun stage => ⟨?_, nofun⟩⟩
  · rintro ⟨id, hid⟩
    exact absurd hid (hnot id)
  · exact (moves_of_still (by rintro _ ⟨⟩)).trans hqueued
  · rintro rfl
    exact absurd rfl hplace

/-- The step of a job that does not concern the player. -/
theorem Present.other {q : P} (h : Present q target place w)
    (hwaiting : place'.waiting = place.waiting)
    (has : place'.Has q ↔ place.Has q) (still : place.Still q) (still' : place'.Still q)
    (running : ∀ stage, stage ≠ .release → place.running ≠ some (.enter q, stage))
    (running' : ∀ stage, stage ≠ .release → place'.running ≠ some (.enter q, stage)) :
    Present q target place' w := by
  refine h.frame has ?_ fun stage _ hstage => ?_
  · rw [moves_of_still still, moves_of_still still', hwaiting]
  · exact ⟨fun h => absurd h (running' stage hstage), fun h => absurd h (running stage hstage)⟩

end Places

/-- The last access of its `Enter` settles a player at the place, and no other access of a job
settles anybody or moves a player that is settled. -/
def Settles (s : State P) (target : PlaceId) (w w' : P → Whereabouts) : Prop :=
  ∀ q place, w' q = .settled (some place) ↔ w q = .settled (some place) ∨
    place = target ∧ (s.place target).running = some (.enter q, .session)

/-- An access of another job. -/
theorem settles_self {s : State P} {target : PlaceId} {w : P → Whereabouts} {job : Job P}
    {stage : Stage}
    (running : (s.place target).running = some (job, stage))
    (hjob : stage = .session → ∀ q, job ≠ .enter q) : Settles s target w w := by
  intro q place
  rw [running]
  constructor
  · exact .inl
  · rintro (h | ⟨-, h⟩)
    · exact h
    · cases h
      exact absurd rfl (hjob rfl q)

/-! ## The invariant -/

section Invariant

variable [DecidableEq P] {acc : Accounts P} {s s' : State P} {w : P → Whereabouts} {p : P}
  {target : PlaceId}

/-- All clients and places agree with the whereabouts of the players, the maps are keyed by the
player ids, and `PlayerSystem` holds players whose session has not ended. -/
structure Located (acc : Accounts P) (s : State P) (w : P → Whereabouts) : Prop where
  fits : ∀ p, (s.client p).Fits (w p)
  present : ∀ p target, Present p target (s.place target) (w p)
  keyed : ∀ target id p, (s.place target).players.find? id = some p → id = acc.playerId p
  listed : ∀ id p, s.playerSystem id = some p → id = acc.playerId p ∧ (s.client p).Listed

theorem Located.initial : Located acc .initial (fun _ : P => .settled none) where
  fits _ := Client.fits_initial
  present _ _ := by
    refine ⟨nofun, fun has => ?_, fun _ => rfl, fun _ => ⟨nofun, fun h => nomatch h.1⟩⟩
    obtain ⟨id, hid⟩ := has
    cases hid
  keyed _ _ _ h := nomatch h
  listed _ _ h := nomatch h

theorem Located.has_iff (inv : Located acc s w) :
    (s.place target).Has p ↔ (s.place target).players.find? (acc.playerId p) = some p := by
  constructor
  · rintro ⟨id, hid⟩
    obtain rfl := inv.keyed target id p hid
    exact hid
  · exact fun h => ⟨_, h⟩

/-- A step of one client that does not move its player. -/
theorem Located.setClient (inv : Located acc s w) {c : Client} (fits : c.Fits (w p))
    (hclient : s'.client = Function.update s.client p c) (hplace : s'.place = s.place)
    (listed : ∀ id q, s'.playerSystem id = some q →
      id = acc.playerId q ∧ if q = p then c.Listed else (s.client q).Listed) :
    Located acc s' w where
  fits q := by
    rw [hclient]
    by_cases hq : q = p
    · subst hq
      simpa using fits
    · simpa [hq] using inv.fits q
  present q other := by
    rw [hplace]
    exact inv.present q other
  keyed other id q hfind := by
    rw [hplace] at hfind
    exact inv.keyed other id q hfind
  listed id q hq := by
    obtain ⟨hid, hlisted⟩ := listed id q hq
    refine ⟨hid, ?_⟩
    rw [hclient]
    by_cases hp : q = p
    · subst hp
      simpa using hlisted
    · simpa [hp] using hlisted

/-- A step of one client that keeps its player and does not move it. -/
theorem Located.setCalls (inv : Located acc s w) {c : Client} (fits : c.Fits (w p))
    (listed : (s.client p).Listed → c.Listed) : Located acc (s.setClient p c) w := by
  refine inv.setClient fits rfl rfl fun id q hq => ?_
  obtain ⟨hid, hlisted⟩ := inv.listed id q hq
  refine ⟨hid, ?_⟩
  split_ifs with hp
  · subst hp
    exact listed hlisted
  · exact hlisted

/-- A step of a client and a place that moves the player between this place and nowhere. -/
theorem Located.move (inv : Located acc s w) {c : Client} {place : Place P} {w' : Whereabouts}
    (hclient : s'.client = Function.update s.client p c)
    (hplace : s'.place = Function.update s.place target place)
    (hsystem : s'.playerSystem = s.playerSystem) (fits : c.Fits w')
    (listed : (s.client p).Listed → c.Listed)
    (keyed : ∀ id q, place.players.find? id = some q → id = acc.playerId q)
    (away : ∀ other ≠ target, (w p).Away other ∧ w'.Away other)
    (self : Present p target place w')
    (others : ∀ q ≠ p, Present q target place (w q)) :
    Located acc s' (Function.update w p w') where
  fits q := by
    rw [hclient]
    by_cases hq : q = p
    · subst hq
      simpa using fits
    · simpa [hq] using inv.fits q
  present q other := by
    rw [hplace]
    by_cases hq : q = p
    · subst hq
      by_cases ho : other = target
      · subst ho
        simpa using self
      · obtain ⟨haway, haway'⟩ := away other ho
        simpa [ho] using (inv.present q other).move haway haway'
    · by_cases ho : other = target
      · subst ho
        simpa [hq] using others q hq
      · simpa [hq, ho] using inv.present q other
  keyed other id q hfind := by
    rw [hplace, Function.update_apply] at hfind
    split_ifs at hfind
    · exact keyed id q hfind
    · exact inv.keyed other id q hfind
  listed id q hq := by
    rw [hsystem] at hq
    obtain ⟨hid, hlisted⟩ := inv.listed id q hq
    refine ⟨hid, ?_⟩
    rw [hclient]
    by_cases hp : q = p
    · subst hp
      simpa using listed hlisted
    · simpa [hp] using hlisted

/-- A step of a place that moves nobody. -/
theorem Located.setPlace (inv : Located acc s w) {place : Place P}
    (hclient : s'.client = s.client) (hplace : s'.place = Function.update s.place target place)
    (hsystem : s'.playerSystem = s.playerSystem)
    (keyed : ∀ id q, place.players.find? id = some q → id = acc.playerId q)
    (present : ∀ q, Present q target place (w q)) : Located acc s' w where
  fits q := by
    rw [hclient]
    exact inv.fits q
  present q other := by
    rw [hplace, Function.update_apply]
    split_ifs with h
    · subst h
      exact present q
    · exact inv.present q other
  keyed other id q hfind := by
    rw [hplace, Function.update_apply] at hfind
    split_ifs at hfind
    · exact keyed id q hfind
    · exact inv.keyed other id q hfind
  listed id q hq := by
    rw [hsystem] at hq
    rw [hclient]
    exact inv.listed id q hq

/-! ## Accesses of the clients -/

theorem Whereabouts.away_none (target : PlaceId) : (Whereabouts.settled none).Away target :=
  ⟨nofun, nofun, nofun⟩

theorem Whereabouts.away_settled {other : PlaceId} (h : other ≠ target) :
    (Whereabouts.settled (some target)).Away other :=
  ⟨fun he => h (Option.some.inj he).symm, nofun, nofun⟩

theorem Whereabouts.away_entering {other : PlaceId} (h : other ≠ target) :
    (Whereabouts.entering target).Away other :=
  ⟨nofun, fun he => h (Whereabouts.entering.inj he).symm, nofun⟩

theorem Whereabouts.away_joining {other : PlaceId} (h : other ≠ target) (stage : Stage) :
    (Whereabouts.joining target stage).Away other :=
  ⟨fun he => h (Option.some.inj he).symm, nofun, fun _ he => h (Whereabouts.joining.inj he).1.symm⟩

theorem Job.move_of_ne {q : P} (h : q ≠ p) : (Job.enter p).move q = none ∧
    (Job.exit p).move q = none :=
  ⟨if_neg h.symm, if_neg h.symm⟩

theorem Located.doAsync (inv : Located acc s w) {job : Job P} (still : ∀ q, job.move q = none) :
    Located acc (s.setPlace target ((s.place target).doAsync job)) w :=
  inv.setPlace rfl rfl rfl (inv.keyed target) fun q => (inv.present q target).doAsync (still q)

theorem Located.reserve (inv : Located acc s w) (hclient : s'.client = s.client)
    (hplace : s'.place = Function.update s.place target (s.place target).reserve)
    (hsystem : s'.playerSystem = s.playerSystem) : Located acc s' w :=
  inv.setPlace hclient hplace hsystem (inv.keyed target)
    fun q => (inv.present q target).frame Iff.rfl rfl fun _ _ _ => Iff.rfl

theorem Located.access (inv : Located acc s w) {c' : Client} {e : Effect P}
    (moved : Moved p (s.client p) c' (w p) e) :
    Located acc (s.access acc p (c', e)) (Function.update w p ((w p).after e)) := by
  have hstay : (w p).after e = w p → Function.update w p ((w p).after e) = w := by
    intro h
    rw [h, Function.update_eq_self]
  have hlisted : e ≠ .removePlayer → (s.client p).Listed → c'.Listed := fun h l => moved.listed l h
  cases e with
  | none =>
    rw [hstay rfl]
    exact inv.setCalls moved.fits (hlisted nofun)
  | reserve target =>
    have hreserve : Located acc (s.apply acc p (.reserve target)) w := inv.reserve rfl rfl rfl
    rw [hstay rfl]
    exact hreserve.setCalls moved.fits (hlisted nofun)
  | makeRoom =>
    have hreserve : Located acc (s.apply acc p .makeRoom) w := inv.reserve rfl rfl rfl
    rw [hstay rfl]
    exact hreserve.setCalls moved.fits (hlisted nofun)
  | addPlayer =>
    rw [hstay rfl]
    refine inv.setClient moved.fits rfl rfl fun id q hq => ?_
    have hold : s.playerSystem id = some q →
        id = acc.playerId q ∧ if q = p then c'.Listed else (s.client q).Listed := by
      intro hq
      obtain ⟨hid, hl⟩ := inv.listed id q hq
      refine ⟨hid, ?_⟩
      split_ifs with hp
      · subst hp
        exact hlisted nofun hl
      · exact hl
    simp only [State.access, State.apply, State.setClient, Function.update_apply] at hq
    split_ifs at hq with hid
    · subst hid
      cases hfind : s.playerSystem (acc.playerId p) with
      | some q' =>
        rw [hfind] at hq
        exact hold (hfind.trans hq)
      | none =>
        rw [hfind] at hq
        obtain rfl : p = q := Option.some.inj hq
        rw [if_pos rfl]
        exact ⟨rfl, moved.added rfl⟩
    · exact hold hq
  | removePlayer =>
    rw [hstay rfl]
    refine inv.setClient moved.fits rfl rfl fun id q hq => ?_
    simp only [State.access, State.apply, State.setClient, Function.update_apply] at hq
    split_ifs at hq with hid
    obtain ⟨hid', hl⟩ := inv.listed id q hq
    have hne : q ≠ p := by
      rintro rfl
      exact hid hid'
    rw [if_neg hne]
    exact ⟨hid', hl⟩
  | doAsync target job =>
    cases job with
    | enter q =>
      obtain ⟨rfl, hw⟩ := moved.enter target q rfl
      have hself := inv.present q target
      rw [hw] at hself
      refine inv.move rfl rfl rfl moved.fits (hlisted nofun) (inv.keyed target) ?_ hself.enter
        fun q' hq => (inv.present q' target).doAsync (Job.move_of_ne hq).1
      intro other hother
      rw [hw]
      exact ⟨Whereabouts.away_none _, Whereabouts.away_entering hother⟩
    | exit q =>
      obtain ⟨rfl, hw⟩ := moved.exit target q rfl
      have hself := inv.present q target
      rw [hw] at hself
      refine inv.move rfl rfl rfl moved.fits (hlisted nofun) (inv.keyed target) ?_ hself.exit
        fun q' hq => (inv.present q' target).doAsync (Job.move_of_ne hq).2
      intro other hother
      rw [hw]
      exact ⟨Whereabouts.away_settled hother, Whereabouts.away_none _⟩
    | chat q message =>
      rw [hstay rfl]
      exact Located.setCalls (inv.doAsync fun _ => rfl) moved.fits (hlisted nofun)
    | broadcast packet =>
      rw [hstay rfl]
      exact Located.setCalls (inv.doAsync fun _ => rfl) moved.fits (hlisted nofun)

/-! ## Accesses of the jobs -/

/-- A player is inserted by the job that runs. -/
theorem Located.joining (inv : Located acc s w) {stage : Stage}
    (running : (s.place target).running = some (.enter p, stage)) (hbody : stage ≠ .body)
    (hrelease : stage ≠ .release) : w p = .joining target stage :=
  ((inv.present p target).joins stage).2 ⟨running, hbody, hrelease⟩

/-- The places of the other players while a job of one player runs. -/
theorem Located.others (inv : Located acc s w) {job : Job P} {stage : Stage} {place : Place P}
    (running : (s.place target).running = some (job, stage))
    (hjob : job = .enter p ∨ job = .exit p) (hwaiting : place.waiting = (s.place target).waiting)
    (running' : place.running = none ∨ ∃ stage, place.running = some (job, stage))
    (has : ∀ q ≠ p, place.Has q ↔ (s.place target).Has q) (q : P) (hq : q ≠ p) :
    Present q target place (w q) := by
  have hmove : job.move q = none := by
    rcases hjob with rfl | rfl
    · exact (Job.move_of_ne hq).1
    · exact (Job.move_of_ne hq).2
  have hne : job ≠ .enter q := by
    rintro rfl
    rcases hjob with h | h
    · exact hq (Job.enter.inj h)
    · cases h
  have hsame : ∀ job' stage', place.running = some (job', stage') → job' = job := by
    intro job' stage' h
    rcases running' with hnone | ⟨_, hsome⟩
    · rw [hnone] at h
      cases h
    · rw [hsome] at h
      cases h
      rfl
  refine (inv.present q target).other hwaiting (has q hq) ?_ ?_ ?_ ?_
  · intro job' h
    rw [running] at h
    cases h
    exact hmove
  · intro job' h
    rw [hsame job' _ h]
    exact hmove
  · intro stage' _ h
    rw [running] at h
    cases h
    exact hne rfl
  · intro stage' _ h
    exact hne (hsame _ _ h).symm

/-- A job that returns and has moved nobody. -/
theorem Located.return (inv : Located acc s w) {job : Job P} {stage : Stage} {place : Place P}
    (running : (s.place target).running = some (job, stage))
    (hjob : stage = .release ∨ ∀ q, job.move q = none) (hclient : s'.client = s.client)
    (hplace : s'.place = Function.update s.place target place)
    (hsystem : s'.playerSystem = s.playerSystem)
    (hplayers : place.players = (s.place target).players)
    (hwaiting : place.waiting = (s.place target).waiting) (hreturn : place.running = none) :
    Located acc s' w := by
  refine inv.setPlace hclient hplace hsystem ?_ fun q =>
    (inv.present q target).other hwaiting ?_ ?_ ?_ ?_ ?_
  · rw [hplayers]
    exact inv.keyed target
  · rw [Place.Has, hplayers, Place.Has]
  · intro job' h
    rw [running] at h
    cases h
    exact hjob.resolve_left nofun q
  · intro job' h
    rw [hreturn] at h
    cases h
  · intro stage' hstage h
    rw [running] at h
    cases h
    have hmove := hjob.resolve_left hstage q
    rw [Job.move, if_pos rfl] at hmove
    cases hmove
  · intro stage' _ h
    rw [hreturn] at h
    cases h

theorem Located.send (inv : Located acc s w) {packets : List (P × Notice)} :
    Located acc (s.send target packets) w :=
  ⟨inv.fits, inv.present, inv.keyed, inv.listed⟩

/-- An access of the `Enter` of a player, which is at this place before and after it or nowhere. -/
theorem Located.enterStep (inv : Located acc s w) {stage : Stage} {c : Client}
    {players : SortedMap ℕ P} {next : Option (Job P × Stage)} {w' : Whereabouts}
    (running : (s.place target).running = some (.enter p, stage))
    (hclient : s'.client = Function.update s.client p c)
    (hplace : s'.place = Function.update s.place target
      { s.place target with players := players, running := next })
    (hsystem : s'.playerSystem = s.playerSystem)
    (hnext : next = none ∨ ∃ stage, next = some (.enter p, stage)) (fits : c.Fits w')
    (listed : (s.client p).Listed → c.Listed)
    (hplayers : ∀ id q, players.find? id = some q →
      (s.place target).players.find? id = some q ∨ id = acc.playerId p ∧ q = p)
    (hothers : ∀ q ≠ p, (s.place target).Has q → ∃ id, players.find? id = some q)
    (away : ∀ other ≠ target, (w p).Away other ∧ w'.Away other)
    (self : Present p target { s.place target with players := players, running := next } w') :
    Located acc s' (Function.update w p w') := by
  refine inv.move hclient hplace hsystem fits listed ?_ away self
    (inv.others running (.inl rfl) rfl hnext fun q hq => ⟨?_, hothers q hq⟩)
  · intro id q hfind
    rcases hplayers id q hfind with hold | ⟨rfl, rfl⟩
    · exact inv.keyed target id q hold
    · rfl
  · rintro ⟨id, hfind⟩
    rcases hplayers id q hfind with hold | ⟨-, rfl⟩
    · exact ⟨id, hold⟩
    · exact absurd rfl hq

/-- An earlier access of the `Enter` of a player. -/
theorem settles_update {stage : Stage} {w₀ : Whereabouts}
    (running : (s.place target).running = some (.enter p, stage)) (hstage : stage ≠ .session)
    (before : ∀ place, w p ≠ .settled (some place)) (after : ∀ place, w₀ ≠ .settled (some place)) :
    Settles s target w (Function.update w p w₀) := by
  intro q place
  rw [running, Function.update_apply]
  split_ifs with hq
  · subst hq
    simp [before, after, hstage]
  · simp [Ne.symm hq]

theorem Located.jobStep (inv : Located acc s w) (h : JobStep acc s target s') :
    ∃ w', Located acc s' w' ∧ Settles s target w w' := by
  cases h with
  | @refused p running why =>
    obtain ⟨hw, -⟩ := (inv.present p target).of_enter running
    have hfits : (s.client p).Fits (.settled none) := by
      have hfits := inv.fits p
      rw [hw] at hfits
      exact hfits.jobStep rfl (hfits.points_of_moves rfl)
    refine ⟨_, inv.enterStep running (Function.update_eq_self _ _).symm rfl rfl (.inr ⟨_, rfl⟩)
      hfits id (fun _ _ => .inl) (fun _ _ => id) ?_ ((inv.present p target).refused running),
      settles_update running nofun (by rw [hw]; exact nofun) nofun⟩
    intro other hother
    rw [hw]
    exact ⟨Whereabouts.away_entering hother, Whereabouts.away_none _⟩
  | @inserted p running absent =>
    obtain ⟨hw, -⟩ := (inv.present p target).of_enter running
    have hfits : (s.client p).Fits (.joining target .pointer) := by
      have hfits := inv.fits p
      rw [hw] at hfits
      exact hfits.jobStep rfl (hfits.points_of_moves rfl)
    refine ⟨_, inv.enterStep running (Function.update_eq_self _ _).symm rfl rfl (.inr ⟨_, rfl⟩)
      hfits id ?_ ?_ ?_ ((inv.present p target).inserted running _),
      settles_update running nofun (by rw [hw]; exact nofun) nofun⟩
    · intro id q hfind
      rw [SortedMap.find?_insert] at hfind
      split_ifs at hfind with hid
      · exact .inr ⟨hid, (Option.some.inj hfind).symm⟩
      · exact .inl hfind
    · rintro q - ⟨id, hfind⟩
      refine ⟨id, ?_⟩
      rw [SortedMap.find?_insert, if_neg]
      · exact hfind
      · rintro rfl
        rw [absent] at hfind
        cases hfind
    · intro other hother
      rw [hw]
      exact ⟨Whereabouts.away_entering hother, Whereabouts.away_joining hother _⟩
  | @pointer p running =>
    have hw := inv.joining running nofun nofun
    have hfits := inv.fits p
    have hself := inv.present p target
    rw [hw] at hfits hself
    refine ⟨_, inv.enterStep running rfl rfl rfl (.inr ⟨_, rfl⟩) hfits.setCurrent
      (fun listed => ⟨listed.hasPlayer, listed.reset, listed.done⟩) (fun _ _ => .inl)
      (fun _ _ => id) ?_ (hself.goesOn nofun nofun),
      settles_update running nofun (by rw [hw]; exact nofun) nofun⟩
    intro other hother
    rw [hw]
    exact ⟨Whereabouts.away_joining hother _, Whereabouts.away_joining hother _⟩
  | @index p running =>
    have hw := inv.joining running nofun nofun
    have hfits := inv.fits p
    have hself := inv.present p target
    rw [hw] at hfits hself
    refine ⟨_, inv.enterStep running rfl rfl rfl (.inr ⟨_, rfl⟩) hfits.setIndex
      (fun listed => ⟨listed.hasPlayer, listed.reset, listed.done⟩) (fun _ _ => .inl)
      (fun _ _ => id) ?_ (hself.goesOn nofun nofun),
      settles_update running nofun (by rw [hw]; exact nofun) nofun⟩
    intro other hother
    rw [hw]
    exact ⟨Whereabouts.away_joining hother _, Whereabouts.away_joining hother _⟩
  | @entered p running alive =>
    have hw := inv.joining running nofun nofun
    have hfits := inv.fits p
    have hself := inv.present p target
    rw [hw] at hfits hself
    have hsettled : (s.client p).Fits (.settled (some target)) :=
      hfits.jobStep rfl (hfits.points_of_moves rfl)
    have hreturn : Located acc (s.goOn target (s.place target).players none)
        (Function.update w p (.settled (some target))) := by
      refine inv.enterStep running (Function.update_eq_self _ _).symm rfl rfl (.inl rfl) hsettled id
        (fun _ _ => .inl) (fun _ _ => id) ?_ hself.entered
      intro other hother
      rw [hw]
      exact ⟨Whereabouts.away_joining hother _, Whereabouts.away_settled hother⟩
    refine ⟨Function.update w p (.settled (some target)), ?_, fun q place => ?_⟩
    rotate_left
    · rw [running, Function.update_apply]
      split_ifs with hq
      · subst hq
        simp [hw, eq_comm]
      · simp [Ne.symm hq]
    unfold State.entered
    cases target.kind with
    | lobby => exact hreturn.send
    | room =>
      cases (State.client (s.goOn target (s.place target).players none) p).current .room with
      | none => exact hreturn
      | some index => exact hreturn.doAsync fun _ => rfl
  | @dead p running dead =>
    have hw := inv.joining running nofun nofun
    have hconnected := (inv.fits p).connected (.inr (.inr (by rw [hw]; rfl)))
    rw [(inv.fits p).alive_of_connected hconnected] at dead
    cases dead
  | @absent p running absent =>
    obtain ⟨has, -⟩ := (inv.present p target).of_exit running
    rw [inv.has_iff.1 has] at absent
    cases absent
  | @erased p q running found =>
    obtain ⟨has, -⟩ := (inv.present p target).of_exit running
    obtain rfl : p = q := Option.some.inj ((inv.has_iff.1 has).symm.trans found)
    have hfind : ∀ id, ((s.place target).players.erase (acc.playerId p)).find? id =
        if id = acc.playerId p then none else (s.place target).players.find? id :=
      fun _ => SortedMap.find?_erase
    refine ⟨w, inv.setPlace rfl rfl rfl (fun id q h => ?_) fun q => ?_, settles_self running nofun⟩
    · rw [hfind] at h
      split_ifs at h
      exact inv.keyed target id q h
    by_cases hq : q = p
    · subst hq
      refine (inv.present q target).erased running fun id h => ?_
      rw [hfind] at h
      split_ifs at h with hid
      exact hid (inv.keyed target id q h)
    · refine inv.others running (.inr rfl) ?_ ?_ (fun q hq => ⟨?_, ?_⟩) q hq
      · rfl
      · exact .inr ⟨_, rfl⟩
      · rintro ⟨id, h⟩
        rw [hfind] at h
        split_ifs at h
        exact ⟨id, h⟩
      · rintro ⟨id, h⟩
        refine ⟨id, ?_⟩
        rw [hfind, if_neg]
        · exact h
        · rintro rfl
          exact hq (Option.some.inj (h.symm.trans found))
  | released running packets =>
    exact ⟨w, inv.return running (.inl rfl) rfl rfl rfl rfl rfl rfl, settles_self running nofun⟩
  | @sent job stage running henter hexit hstage packets =>
    refine ⟨w, inv.return running (.inr fun q => ?_) rfl rfl rfl rfl rfl rfl,
      settles_self running fun _ => henter⟩
    cases job with
    | enter p => exact absurd rfl (henter p)
    | exit p => exact absurd rfl (hexit p)
    | _ => rfl

/-! ## Orderly steps -/

theorem enter_of_mem_moves {place : Place P} (h : true ∈ place.moves p) :
    .enter p ∈ place.waiting ∨ place.running = some (.enter p, .body) := by
  obtain ⟨job, hmem, hmove⟩ := List.mem_filterMap.1 h
  have hjob : job = .enter p := by
    cases job with
    | enter q =>
      simp only [Job.move, Option.ite_none_right_eq_some] at hmove
      rw [hmove.1]
    | exit q => simp [Job.move] at hmove
    | _ => cases hmove
  subst hjob
  rcases List.mem_append.1 hmem with hstart | hwait
  · right
    unfold Place.starting at hstart
    split at hstart
    · next job hrunning =>
      rw [List.mem_singleton.1 hstart]
      exact hrunning
    · cases hstart
  · exact .inl hwait

/-- A player is on its way to a place only while its `Enter` waits or runs. -/
theorem Located.settled (inv : Located acc s w)
    (h : ∀ target, .enter p ∉ (s.place target).waiting ∧
      ∀ stage, (s.place target).running ≠ some (.enter p, stage)) :
    ∃ place, w p = .settled place := by
  cases hw : w p with
  | settled place => exact ⟨place, rfl⟩
  | entering target =>
    have hpresent := inv.present p target
    rw [hw] at hpresent
    have hmem : true ∈ (s.place target).moves p := by
      by_cases has : (s.place target).Has p
      · rw [hpresent.leaves has nofun]
        simp [Whereabouts.enters]
      · rw [hpresent.stays fun h => absurd h has]
        simp [Whereabouts.enters]
    rcases enter_of_mem_moves hmem with hwaiting | hrunning
    · exact absurd hwaiting (h target).1
    · exact absurd hrunning ((h target).2 _)
  | joining target stage =>
    obtain ⟨hrunning, -⟩ := ((inv.present p target).joins stage).1 hw
    exact absurd hrunning ((h target).2 stage)

/-- Nothing is under way for a player that does not move. -/
theorem Located.of_not_moving (inv : Located acc s w) (h : ¬ s.Moving p) :
    (s.client p).login.moves = false ∧ (s.client p).request.moves = false ∧
      ∃ place, w p = .settled place := by
  refine ⟨?_, ?_, inv.settled fun target => ⟨fun hwaiting => ?_, fun stage hrunning => ?_⟩⟩
  · exact Bool.eq_false_of_not_eq_true fun hlogin => h (.inl hlogin)
  · exact Bool.eq_false_of_not_eq_true fun hrequest => h (.inr (.inl hrequest))
  · exact h (.inr (.inr ⟨target, .inl hwaiting⟩))
  · exact h (.inr (.inr ⟨target, .inr ⟨stage, hrunning⟩⟩))

theorem Located.startJob (inv : Located acc s w) {job : Job P} {waiting : List (Job P)}
    (idle : (s.place target).running = none)
    (hwaiting : (s.place target).waiting = job :: waiting) :
    Located acc (s.setPlace target
      { s.place target with waiting := waiting, running := some (job, .body) }) w := by
  refine inv.setPlace rfl rfl rfl (inv.keyed target) fun q =>
    (inv.present q target).frame Iff.rfl ?_ fun stage hbody _ => ?_
  · simp [Place.moves, Place.starting, idle, hwaiting]
  · rw [idle]
    refine ⟨?_, nofun⟩
    rintro ⟨⟩
    exact absurd rfl hbody

/-- A request that moves the player begins. -/
theorem Located.startRequest (inv : Located acc s w) {kind : Kind}
    (hstep : s.startRequest p (.leave kind .lock) = some s')
    (hconnected : (s.client p).connected = true) (hmoving : ¬ s.Moving p)
    (hcurrent : (s.client p).current kind = none) : Located acc s' w := by
  obtain ⟨⟨-, hplayer, hidle⟩, heq⟩ := Option.ite_none_right_eq_some.1 hstep
  obtain rfl := Option.some.inj heq
  obtain ⟨hlogin, -, place, hw⟩ := inv.of_not_moving hmoving
  have fits := inv.fits p
  have hpoints := fits.points
  rw [hidle, fits.online.2 hconnected, hw] at hpoints
  refine inv.setCalls ⟨fits.online, fits.alive, fun _ => hconnected, fits.fresh, ?_, ?_, ?_,
    fits.disconnect, ?_⟩ fun listed => ⟨listed.hasPlayer, listed.reset, listed.done⟩
  · intro hnone
    rw [show (s.client p).hasPlayer = false from hnone] at hplayer
    cases hplayer
  · have hat := fits.login
    cases hpc : (s.client p).login with
    | idle => trivial
    | isConnected | reject =>
      rw [hpc] at hat
      exact hat
    | _ =>
      rw [hpc] at hlogin
      cases hlogin
  · exact ⟨place, hw, (hpoints.pointer kind nofun).symm.trans hcurrent, trivial⟩
  · rw [hw]
    exact Points.leaving hpoints _

/-- The beginnings of calls, and the end of a session object. -/
def Op.Begins : Op P → Prop
  | .login _ _ | .request _ _ | .onDisconnected _ | .startJob _ | .runJob _ => False
  | _ => True

/-- Beginning a call moves nobody. -/
theorem Located.begin (inv : Located acc s w) {op : Op P} (begins : op.Begins)
    (orderly : Orderly s op) (hstep : Server.step acc s op = some s') : Located acc s' w := by
  have hlisted : ∀ {p : P} {c : Client}, c.hasPlayer = (s.client p).hasPlayer →
      c.disconnect = (s.client p).disconnect → (s.client p).Listed → c.Listed := by
    intro p c hplayer hdisconnect listed
    exact ⟨hplayer.trans listed.hasPlayer, hdisconnect ▸ listed.reset, hdisconnect ▸ listed.done⟩
  cases op with
  | loginResult p ok =>
    obtain ⟨⟨-, hfirst⟩, heq⟩ := Option.ite_none_right_eq_some.1 hstep
    obtain rfl := Option.some.inj heq
    have fits := inv.fits p
    exact inv.setCalls ⟨fits.online, fits.alive,
      fun h => fits.connected (.inr (h.resolve_left nofun)), nofun,
      fits.player, (fits.fresh hfirst).1, fits.request, fits.disconnect, fits.points⟩
      (hlisted rfl rfl)
  | reqRoomEnter p =>
    obtain ⟨hconnected, hmoving, hcurrent⟩ := orderly
    exact inv.startRequest hstep hconnected hmoving hcurrent
  | reqRoomExit p =>
    obtain ⟨hconnected, hmoving, hcurrent⟩ := orderly
    exact inv.startRequest hstep hconnected hmoving hcurrent
  | reqChat p kind message =>
    obtain ⟨⟨-, -, hidle⟩, heq⟩ := Option.ite_none_right_eq_some.1 hstep
    obtain rfl := Option.some.inj heq
    have hstill : (s.client p).request.moves = false := by
      rw [hidle]
      rfl
    exact inv.setCalls ((inv.fits p).setRequest hstill rfl) (hlisted rfl rfl)
  | disconnect p =>
    obtain ⟨hconnected, heq⟩ := Option.ite_none_right_eq_some.1 hstep
    obtain rfl := Option.some.inj heq
    obtain ⟨hlogin, hrequest, place, hw⟩ := inv.of_not_moving orderly
    have fits := inv.fits p
    have hpoints := fits.points
    rw [RequestPc.leaving_of_still hrequest, fits.online.2 hconnected] at hpoints
    refine inv.setCalls ⟨⟨nofun, nofun⟩, ?_, ?_, fits.fresh, fits.player, fits.login,
      fits.request, ⟨place, hw⟩, ?_⟩ fun listed => ⟨listed.hasPlayer, nofun, nofun⟩
    · intro hdead
      exact nomatch (fits.alive_of_connected hconnected).symm.trans hdead
    · simp [hlogin, hrequest, hw, Whereabouts.moves]
    · rwa [RequestPc.leaving_of_still hrequest]
  | destroy p =>
    obtain ⟨⟨hdone, -⟩, heq⟩ := Option.ite_none_right_eq_some.1 hstep
    obtain rfl := Option.some.inj heq
    have fits := inv.fits p
    exact inv.setCalls ⟨fits.online, fun _ => hdone, fits.connected, fits.fresh, fits.player,
      fits.login, fits.request, fits.disconnect, fits.points⟩ (hlisted rfl rfl)
  | _ => cases begins

theorem Located.step (inv : Located acc s w) {op : Op P} (orderly : Orderly s op)
    (hstep : Server.step acc s op = some s') : ∃ w', Located acc s' w' := by
  cases op with
  | login p spurious =>
    obtain ⟨⟨c', e⟩, hlogin, rfl⟩ := Option.map_eq_some_iff.1 hstep
    exact ⟨_, inv.access (moved_of_onLoginResult (inv.fits p) hlogin)⟩
  | request p spurious =>
    obtain ⟨⟨c', e⟩, hrequest, rfl⟩ := Option.map_eq_some_iff.1 hstep
    exact ⟨_, inv.access (moved_of_handleRequest (inv.fits p) hrequest)⟩
  | onDisconnected p =>
    obtain ⟨⟨c', e⟩, hdisconnected, rfl⟩ := Option.map_eq_some_iff.1 hstep
    exact ⟨_, inv.access (moved_of_onDisconnected (inv.fits p) hdisconnected)⟩
  | startJob target =>
    simp only [Server.step] at hstep
    split at hstep
    · next job waiting idle hwaiting =>
      obtain rfl := Option.some.inj hstep
      exact ⟨w, inv.startJob idle hwaiting⟩
    · cases hstep
  | runJob target =>
    obtain ⟨w', inv', -⟩ := inv.jobStep (jobStep_of_runJob acc hstep)
    exact ⟨w', inv'⟩
  | _ => exact ⟨w, inv.begin (by trivial) orderly hstep⟩

theorem located_of_reach (h : (system acc).Reach Orderly s) : ∃ w, Located acc s w := by
  refine h.invariant (P := fun s => ∃ w, Located acc s w) ?_ ?_
  · rintro s rfl
    exact ⟨_, .initial⟩
  · rintro s op s' - ⟨w, inv⟩ orderly hstep
    exact inv.step orderly hstep

/-- Without jobs, a member of a place belongs to it. -/
theorem Located.place_of_has (inv : Located acc s w) (quiescent : s.Quiescent)
    (has : (s.place target).Has p) : w p = .settled (some target) := by
  obtain ⟨place, hw⟩ := inv.settled fun target => by
    rw [(quiescent target).1, (quiescent target).2]
    exact ⟨nofun, nofun⟩
  rw [hw]
  by_contra hne
  have hmoves := (inv.present p target).leaves has (by rw [hw]; exact fun h => hne (congrArg _ h))
  simp [Place.moves, Place.starting, (quiescent target).1, (quiescent target).2] at hmoves

/-- In an orderly run, whenever no job waits or runs, a connected player is in at most one lobby or
room, and its pointers and indices lead there and nowhere else. -/
theorem location_exclusive (h : (system acc).Reach Orderly s) (quiescent : s.Quiescent)
    (connected : (s.client p).connected = true) :
    (∀ target other, (s.place target).Has p → (s.place other).Has p → target = other) ∧
      ∀ target, (s.place target).Has p →
        (s.client p).current target.kind = some target.index ∧
        (s.client p).current target.kind.other = none ∧
        (s.client p).currentIndex target.kind = target.index ∧
        (s.client p).currentIndex target.kind.other = -1 := by
  obtain ⟨w, inv⟩ := located_of_reach h
  refine ⟨fun target other has has' => ?_, fun target has => ?_⟩
  · have hw := inv.place_of_has quiescent has
    rw [inv.place_of_has quiescent has'] at hw
    exact (Option.some.inj (Whereabouts.settled.inj hw)).symm
  · have fits := inv.fits p
    rw [inv.place_of_has quiescent has] at fits
    have points := fits.points_of_place connected
    have hother := indexIn_of_ne target.kind.other_ne.symm
    rw [points.pointer _ nofun, points.pointer _ nofun, points.index _ nofun, points.index _ nofun,
      indexIn_some, hother]
    exact ⟨rfl, rfl, rfl, rfl⟩

/-- A player that has logged in, entered the first lobby and gone on to the first room. -/
theorem location_exclusive_in_room :
    ∃ s : State (Fin 1), (system ⟨fun _ => 5, fun _ => [65]⟩).Reach Orderly s ∧
      (s.place ⟨.room, 0⟩).Has 0 ∧ ¬ (s.place ⟨.lobby, 0⟩).Has 0 ∧
      (s.client 0).current .room = some 0 ∧ (s.client 0).current .lobby = none := by
  obtain ⟨s₁, s₂, s, hrun₁, horderly, hstep, hrun₂, hquiescent, hconnected, hroom⟩ :
      ∃ s₁ s₂ s : State (Fin 1),
        (system ⟨fun _ => 5, fun _ => [65]⟩).run .initial
          (List.flatten [.loginResult 0 true :: List.replicate 12 (.login 0 false),
            .startJob ⟨.lobby, 0⟩ :: List.replicate 4 (.runJob ⟨.lobby, 0⟩)]) = some s₁ ∧
        Orderly s₁ (.reqRoomEnter 0) ∧
        (system ⟨fun _ => 5, fun _ => [65]⟩).step s₁ (.reqRoomEnter 0) = some s₂ ∧
        (system ⟨fun _ => 5, fun _ => [65]⟩).run s₂
          (List.flatten [List.replicate 7 (.request 0 false),
            .startJob ⟨.lobby, 0⟩ :: List.replicate 2 (.runJob ⟨.lobby, 0⟩),
            .startJob ⟨.room, 0⟩ :: List.replicate 4 (.runJob ⟨.room, 0⟩),
            [.startJob ⟨.room, 0⟩, .runJob ⟨.room, 0⟩]]) = some s ∧
        s.Quiescent ∧ (s.client 0).connected = true ∧ (s.place ⟨.room, 0⟩).Has 0 := by
    refine ⟨_, _, _, rfl, ⟨rfl, ?_, rfl⟩, rfl, rfl, ?_, rfl, ⟨5, rfl⟩⟩
    · rintro (h | h | ⟨⟨_ | _, _ | _⟩, h | ⟨_, h⟩⟩) <;> cases h
    · rintro ⟨_ | _, _ | _⟩ <;> exact ⟨rfl, rfl⟩
  have hreach := Transition.System.reach_of_run (.step (Transition.System.reach_of_run (.init rfl)
    (by simp [Orderly]) hrun₁) horderly hstep) (by simp [Orderly]) hrun₂
  obtain ⟨hone, hpointers⟩ := location_exclusive hreach hquiescent hconnected
  obtain ⟨hcurrent, hother, -⟩ := hpointers _ hroom
  exact ⟨s, hreach, hroom, fun hlobby => (nomatch hone _ _ hroom hlobby), hcurrent, hother⟩

/-- The request to enter a room is handled before the `Enter` of the lobby runs: the player ends up
in both. -/
theorem location_two_places :
    ∃ s : State (Fin 1), (system ⟨fun _ => 5, fun _ => [65]⟩).Reachable s ∧ s.Quiescent ∧
      (s.client 0).connected = true ∧ (s.client 0).hasPlayer = true ∧
      (s.place ⟨.lobby, 0⟩).Has 0 ∧ (s.place ⟨.room, 0⟩).Has 0 := by
  obtain ⟨s, hrun, hfacts⟩ : ∃ s : State (Fin 1),
      (system ⟨fun _ => 5, fun _ => [65]⟩).run .initial
        (List.flatten [.loginResult 0 true :: List.replicate 12 (.login 0 false),
          .reqRoomEnter 0 :: List.replicate 6 (.request 0 false),
          .startJob ⟨.lobby, 0⟩ :: List.replicate 4 (.runJob ⟨.lobby, 0⟩),
          .startJob ⟨.room, 0⟩ :: List.replicate 4 (.runJob ⟨.room, 0⟩),
          [.startJob ⟨.room, 0⟩, .runJob ⟨.room, 0⟩]]) = some s ∧
        s.Quiescent ∧ (s.client 0).connected = true ∧ (s.client 0).hasPlayer = true ∧
        (s.place ⟨.lobby, 0⟩).Has 0 ∧ (s.place ⟨.room, 0⟩).Has 0 := by
    refine ⟨_, rfl, ?_, rfl, rfl, ⟨5, rfl⟩, ⟨5, rfl⟩⟩
    rintro ⟨_ | _, _ | _⟩ <;> exact ⟨rfl, rfl⟩
  exact ⟨s, Transition.System.reachable_of_run (.init rfl) hrun, hfacts⟩

/-- In an orderly run, whenever no job waits or runs, a player whose session has been disconnected
is in no lobby, in no room and not in `PlayerSystem`. -/
theorem no_phantom_player (h : (system acc).Reach Orderly s) (quiescent : s.Quiescent)
    (disconnected : (s.client p).disconnect = .done) :
    (∀ id, s.playerSystem id ≠ some p) ∧ ∀ target, ¬ (s.place target).Has p := by
  obtain ⟨w, inv⟩ := located_of_reach h
  refine ⟨fun id hid => (inv.listed id p hid).2.done disconnected, fun target has => ?_⟩
  have hat := (inv.fits p).disconnect
  rw [disconnected, inv.place_of_has quiescent has] at hat
  cases hat

/-- A player that has logged in, entered the first lobby and left it with the end of its session. -/
theorem no_phantom_player_after_lobby :
    ∃ s : State (Fin 1), (system ⟨fun _ => 5, fun _ => [65]⟩).Reach Orderly s ∧
      (s.client 0).disconnect = .done ∧ s.playerSystem 5 ≠ some 0 ∧
      ¬ (s.place ⟨.lobby, 0⟩).Has 0 := by
  obtain ⟨s₁, s₂, s, hrun₁, horderly, hstep, hrun₂, hquiescent, hdone⟩ :
      ∃ s₁ s₂ s : State (Fin 1),
        (system ⟨fun _ => 5, fun _ => [65]⟩).run .initial
          (List.flatten [.loginResult 0 true :: List.replicate 12 (.login 0 false),
            .startJob ⟨.lobby, 0⟩ :: List.replicate 4 (.runJob ⟨.lobby, 0⟩)]) = some s₁ ∧
        Orderly s₁ (.disconnect 0) ∧
        (system ⟨fun _ => 5, fun _ => [65]⟩).step s₁ (.disconnect 0) = some s₂ ∧
        (system ⟨fun _ => 5, fun _ => [65]⟩).run s₂
          (List.flatten [List.replicate 10 (.onDisconnected 0),
            .startJob ⟨.lobby, 0⟩ :: List.replicate 2 (.runJob ⟨.lobby, 0⟩)]) = some s ∧
        s.Quiescent ∧ (s.client 0).disconnect = .done := by
    refine ⟨_, _, _, rfl, ?_, rfl, rfl, ?_, rfl⟩
    · rintro (h | h | ⟨⟨_ | _, _ | _⟩, h | ⟨_, h⟩⟩) <;> cases h
    · rintro ⟨_ | _, _ | _⟩ <;> exact ⟨rfl, rfl⟩
  have hreach := Transition.System.reach_of_run (.step (Transition.System.reach_of_run (.init rfl)
    (by simp [Orderly]) hrun₁) horderly hstep) (by simp [Orderly]) hrun₂
  obtain ⟨hsystem, hplaces⟩ := no_phantom_player hreach hquiescent hdone
  exact ⟨s, hreach, hdone, hsystem 5, hplaces _⟩

/-- The session ends between the test of `IsConnected` and `SetPlayer`: the player stays in
`PlayerSystem` and in a lobby, with its session object alive. -/
theorem phantom_player_of_late_login :
    ∃ s : State (Fin 1), (system ⟨fun _ => 5, fun _ => [65]⟩).Reachable s ∧ s.Quiescent ∧
      (s.client 0).disconnect = .done ∧ (s.client 0).login = .idle ∧ (s.client 0).alive = true ∧
      s.playerSystem 5 = some 0 ∧ (s.place ⟨.lobby, 0⟩).Has 0 := by
  obtain ⟨s, hrun, hfacts⟩ : ∃ s : State (Fin 1),
      (system ⟨fun _ => 5, fun _ => [65]⟩).run .initial
        (List.flatten [[.loginResult 0 true, .login 0 false, .disconnect 0, .onDisconnected 0,
            .onDisconnected 0], List.replicate 11 (.login 0 false),
          .startJob ⟨.lobby, 0⟩ :: List.replicate 4 (.runJob ⟨.lobby, 0⟩)]) = some s ∧
        s.Quiescent ∧ (s.client 0).disconnect = .done ∧ (s.client 0).login = .idle ∧
        (s.client 0).alive = true ∧ s.playerSystem 5 = some 0 ∧
        (s.place ⟨.lobby, 0⟩).Has 0 := by
    refine ⟨_, rfl, ?_, rfl, rfl, rfl, rfl, ⟨5, rfl⟩⟩
    rintro ⟨_ | _, _ | _⟩ <;> exact ⟨rfl, rfl⟩
  exact ⟨s, Transition.System.reachable_of_run (.init rfl) hrun, hfacts⟩

end Invariant

end Server

end DhNet
