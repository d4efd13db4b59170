import DhNet.Core.SessionCalls

/-!
# `Service::BroadCast`

The loop goes through `m_sessions` with an iterator and calls `Send` under the lock of the service.
A `WSASend` that finds the connection reset leads on the same thread to `ReleaseSession`, which
takes the recursive lock again and erases the element that the iterator stands on.

An iterator is the element it stands on, or `none` at the end.

* `send_of_not_fails`, `send_of_fails`: what one `Send` leaves of `m_sessions`.
* `broadCast_reaches_everyone_iff`: everyone is sent to exactly if nobody's `Send` fails that way.
-/

namespace DhNet

namespace SessionCalls

section Model

variable {S α : Type*} [LinearOrder S]

namespace State

/-- The loop of `BroadCast` from an iterator on; no session is added under the lock, so as many
rounds as there are sessions are enough. -/
def broadCastLoop (results : S → SocketResults) (sender : α) :
    ℕ → Option S → State S α → State S α
  | rounds + 1, some x, s =>
      let sent := s.send x (results x) sender
      match sent.sessions.find? x with
      | none => sent.fail .erasedIterator
      | some () => broadCastLoop results sender rounds (sent.sessions.keyAfter x) sent
  | _, _, s => s

/-- `Service::BroadCast`, with the results of the socket calls that are made for each session. -/
def broadCast (s : State S α) (results : S → SocketResults) (sender : α) : State S α :=
  s.broadCastLoop results sender s.sessions.size s.sessions.firstKey

end State

/-- `HandleError` disconnects. -/
def IsFatal (result : WsaResult) : Prop :=
  result = .error wsaEConnReset ∨ result = .error wsaEConnAborted

/-- `Send` on the session finds the connection reset or aborted: it calls `WSASend`, and
`HandleError` disconnects. -/
def Fails (s : State S α) (results : S → SocketResults) (x : S) : Prop :=
  (s.session x).connected = true ∧ (s.session x).sendRegistered = false ∧
    IsFatal (results x).wsaSend

instance (result : WsaResult) : Decidable (IsFatal result) := inferInstanceAs (Decidable (_ ∨ _))

instance (s : State S α) (results : S → SocketResults) (x : S) : Decidable (Fails s results x) :=
  inferInstanceAs (Decidable (_ ∧ _))

/-- The number of `Send` calls on a session. -/
def sends (x : S) (calls : List (Call S)) : ℕ := calls.count (.send x)

end Model

/-! ## One `Send` -/

section Sends

variable {S α : Type*} [LinearOrder S] {s t : State S α} {results : S → SocketResults} {x : S}

/-- A call changes nothing but members of the session. -/
structure Touches (x : S) (s t : State S α) : Prop where
  sessions : t.sessions = s.sessions
  fault : t.fault = s.fault
  trace : t.trace = s.trace
  other : ∀ y, y ≠ x → t.session y = s.session y

theorem Touches.refl (x : S) (s : State S α) : Touches x s s := ⟨rfl, rfl, rfl, fun _ _ => rfl⟩

theorem Touches.modify (h : Touches x s t) (f : Session α → Session α) :
    Touches x s (t.modify x f) :=
  ⟨h.sessions, h.fault, h.trace, fun y hy =>
    (State.session_modify_of_ne _ _ hy f).trans (h.other y hy)⟩

theorem Touches.setOwner (h : Touches x s t) (event : SessionEvent) (owned : Bool) :
    Touches x s (t.setOwner x event owned) := h.modify _

theorem handleError_of_fatal {r : SocketResults} {code : ℕ} (h : IsFatal (.error code)) :
    s.handleError x r code = s.disconnect x r := by
  refine if_pos (h.imp ?_ ?_)
  all_goals
    intro h
    injection h

theorem handleError_of_not_fatal {r : SocketResults} {code : ℕ} (h : ¬ IsFatal (.error code)) :
    s.handleError x r code = s :=
  if_neg fun hcode => h (hcode.imp (congrArg _) (congrArg _))

theorem Touches.registerSend (h : Touches x s t) {r : SocketResults}
    (hgood : ¬ ((t.session x).connected = true ∧ IsFatal r.wsaSend)) :
    Touches x s (t.registerSend x r) := by
  unfold State.registerSend
  split_ifs with hconnected
  · have hmoved := (h.setOwner .send true).modify fun session =>
      { session with senderQueue := [], senders := session.senders ++ session.senderQueue }
    cases hsend : r.wsaSend with
    | success | pending => exact hmoved
    | error code =>
      rw [hsend] at hgood
      dsimp only
      rw [handleError_of_not_fatal fun hfatal => hgood ⟨hconnected, hfatal⟩]
      exact (hmoved.setOwner .send false).modify _
  · exact h

/-- A `Disconnect` that takes effect erases the session from `m_sessions`. -/
theorem sessions_disconnect {r : SocketResults} (hconnected : (s.session x).connected = true)
    (hmem : s.sessions.find? x = some ()) :
    (s.disconnect x r).sessions = s.sessions.erase x ∧ (s.disconnect x r).fault = s.fault := by
  unfold State.disconnect
  rw [if_pos hconnected]
  generalize hleft : (s.modify x fun session => { session with connected := false }).record
    (.onDisconnected x) = left
  have hreleased : (left.releaseSession x).sessions = s.sessions.erase x ∧
      (left.releaseSession x).fault = s.fault := by
    subst hleft
    have hmem' : ((s.modify x fun session => { session with connected := false }).record
      (.onDisconnected x)).sessions.find? x = some () := hmem
    rw [State.releaseSession, hmem']
    exact ⟨rfl, rfl⟩
  unfold State.registerDisconnect
  cases r.disconnectEx <;> exact hreleased

theorem send_of_not_fails (h : ¬ Fails s results x) (sender : α) :
    Touches x (s.record (.send x)) (s.send x (results x) sender) := by
  have hpushed := (Touches.refl x (s.record (.send x))).modify fun session =>
    { session with senderQueue := session.senderQueue ++ [sender] }
  unfold State.send
  split_ifs with hregistered
  · exact hpushed
  · refine (hpushed.modify _).registerSend ?_
    rintro ⟨hconnected, hfatal⟩
    refine h ⟨?_, Bool.eq_false_of_not_eq_true hregistered, hfatal⟩
    simpa [State.record] using hconnected

theorem send_of_fails (h : Fails s results x) (hmem : s.sessions.find? x = some ()) (sender : α) :
    (s.send x (results x) sender).sessions = s.sessions.erase x ∧
      (s.send x (results x) sender).fault = s.fault := by
  obtain ⟨hconnected, hregistered, hfatal⟩ := h
  obtain ⟨code, hcode⟩ : ∃ code, (results x).wsaSend = .error code :=
    hfatal.elim (fun h => ⟨_, h⟩) fun h => ⟨_, h⟩
  rw [hcode] at hfatal
  unfold State.send
  dsimp only
  rw [if_neg (by simp [hregistered]), State.registerSend, if_pos (by simpa [State.record]), hcode]
  dsimp only
  rw [handleError_of_fatal hfatal]
  exact sessions_disconnect (by simpa [State.setOwner, State.record]) hmem

end Sends

/-! ## The loop -/

section Loop

variable {S α : Type*} [LinearOrder S] {s : State S α} {results : S → SocketResults}

theorem Fails.of_touches {x y : S} {t : State S α} (h : Touches x (s.record (.send x)) t)
    (hne : y ≠ x) : Fails t results y ↔ Fails s results y := by
  have hsession : t.session y = s.session y := h.other y hne
  rw [Fails, Fails, hsession]

variable {x : S} {before after rest : List (S × Unit)}

theorem broadCastLoop_of_fails (hsplit : s.sessions.entries = before ++ (x, ()) :: after)
    (h : Fails s results x) (sender : α) (rounds : ℕ) :
    (s.broadCastLoop results sender (rounds + 1) (some x)).fault =
      s.fault.or (some .erasedIterator) := by
  have hmem : s.sessions.find? x = some () := SortedMap.find?_eq_some_iff.2 (by simp [hsplit])
  obtain ⟨hsessions, hfault⟩ := send_of_fails h hmem sender
  unfold State.broadCastLoop
  dsimp only
  rw [hsessions, SortedMap.find?_erase, if_pos rfl]
  dsimp only [State.fail]
  rw [hfault]

theorem broadCastLoop_of_not_fails (hsplit : s.sessions.entries = before ++ (x, ()) :: after)
    (h : ¬ Fails s results x) (sender : α) (rounds : ℕ) :
    s.broadCastLoop results sender (rounds + 1) (some x) =
      (s.send x (results x) sender).broadCastLoop results sender rounds
        (after.head?.map Prod.fst) := by
  have hmem : s.sessions.find? x = some () := SortedMap.find?_eq_some_iff.2 (by simp [hsplit])
  have hsessions : (s.send x (results x) sender).sessions = s.sessions :=
    (send_of_not_fails h sender).sessions
  rw [State.broadCastLoop, hsessions, hmem]
  dsimp only
  rw [SortedMap.keyAfter_of_split hsplit]

/-- In an iteration the sessions behind the iterator are those with greater pointers. -/
theorem ne_of_split (hsplit : s.sessions.entries = before ++ (x, ()) :: after) {e : S × Unit}
    (he : e ∈ after) : e.1 ≠ x := by
  have hsorted := s.sessions.sorted
  rw [hsplit, List.pairwise_append, List.pairwise_cons] at hsorted
  exact (hsorted.2.1.1 e he).ne'

/-- The loop over the remaining sessions, none of which fails. -/
theorem broadCastLoop_reaches (hsplit : s.sessions.entries = before ++ rest)
    (hgood : ∀ e ∈ rest, ¬ Fails s results e.1) (sender : α) :
    let t := s.broadCastLoop results sender rest.length (rest.head?.map Prod.fst)
    t.sessions = s.sessions ∧ t.fault = s.fault ∧
      t.trace = s.trace ++ rest.map fun e => .send e.1 := by
  induction rest generalizing s before with
  | nil => exact ⟨rfl, rfl, (List.append_nil _).symm⟩
  | cons e after ih =>
    obtain ⟨x, ⟨⟩⟩ := e
    have hx := hgood (x, ()) List.mem_cons_self
    have hsent := send_of_not_fails hx sender
    have hsplit' : (s.send x (results x) sender).sessions.entries =
        (before ++ [(x, ())]) ++ after := by
      rw [hsent.sessions, List.append_assoc]
      exact hsplit
    have hrest := ih hsplit' fun e he => (Fails.of_touches hsent (ne_of_split hsplit he)).not.2
      (hgood e (List.mem_cons_of_mem _ he))
    show _ ∧ _ ∧ _
    rw [List.length_cons, List.head?_cons, Option.map_some, broadCastLoop_of_not_fails hsplit hx]
    refine ⟨hrest.1.trans hsent.sessions, hrest.2.1.trans hsent.fault, ?_⟩
    rw [hrest.2.2, hsent.trace, List.map_cons, State.record, List.append_assoc,
      List.singleton_append]

/-- The loop over the remaining sessions, one of which fails. -/
theorem broadCastLoop_faults (hfault : s.fault = none)
    (hsplit : s.sessions.entries = before ++ rest) {e : S × Unit} (he : e ∈ rest)
    (hfails : Fails s results e.1) (sender : α) :
    (s.broadCastLoop results sender rest.length (rest.head?.map Prod.fst)).fault =
      some .erasedIterator := by
  induction rest generalizing s before with
  | nil => cases he
  | cons d after ih =>
    obtain ⟨x, ⟨⟩⟩ := d
    by_cases hx : Fails s results x
    · rw [List.length_cons, List.head?_cons, Option.map_some, broadCastLoop_of_fails hsplit hx,
        hfault]
      rfl
    · have hsent := send_of_not_fails hx sender
      have hafter : e ∈ after := by
        rcases List.mem_cons.1 he with rfl | h
        · exact absurd hfails hx
        · exact h
      have hsplit' : (s.send x (results x) sender).sessions.entries =
          (before ++ [(x, ())]) ++ after := by
        rw [hsent.sessions, List.append_assoc]
        exact hsplit
      rw [List.length_cons, List.head?_cons, Option.map_some, broadCastLoop_of_not_fails hsplit hx]
      exact ih (hsent.fault.trans hfault) hsplit' hafter
        ((Fails.of_touches hsent (ne_of_split hsplit hafter)).2 hfails)

theorem sends_map_entries (m : SortedMap S Unit) (x : S) :
    sends x (m.entries.map fun e => .send e.1) = if m.find? x = some () then 1 else 0 := by
  have hinj : Function.Injective (Call.send (S := S)) := fun _ _ h => Call.send.inj h
  have hkeys : (m.entries.map fun e => Call.send e.1) = (m.entries.map Prod.fst).map .send := by
    rw [List.map_map]
    rfl
  rw [sends, hkeys, List.count_map_of_injective _ _ hinj, SortedMap.nodup_keys.count]
  refine if_congr ?_ rfl rfl
  rw [SortedMap.find?_eq_some_iff, List.mem_map]
  exact ⟨fun ⟨e, he, hx⟩ => hx ▸ he, fun h => ⟨_, h, rfl⟩⟩

/-- `BroadCast` calls `Send` once on every session that was in `m_sessions`, never uses an iterator
to an erased element and leaves `m_sessions` without the sessions whose `Send` has failed, exactly
if there are no such sessions. -/
theorem broadCast_reaches_everyone_iff (hfault : s.fault = none) (results : S → SocketResults)
    (sender : α) :
    ((∃ calls, (s.broadCast results sender).trace = s.trace ++ calls ∧
        ∀ x, sends x calls = if s.sessions.find? x = some () then 1 else 0) ∧
      (s.broadCast results sender).fault ≠ some .erasedIterator ∧
      (∀ x, (s.broadCast results sender).sessions.find? x =
        if Fails s results x then none else s.sessions.find? x)) ↔
      ∀ x, s.sessions.find? x = some () → ¬ Fails s results x := by
  have hsplit : s.sessions.entries = [] ++ s.sessions.entries := rfl
  constructor
  · rintro ⟨-, hiterator, -⟩ x hmem hfails
    exact hiterator (broadCastLoop_faults hfault hsplit
      (SortedMap.find?_eq_some_iff.1 hmem) hfails sender)
  · intro hgood
    obtain ⟨hsessions, hsame, htrace⟩ := broadCastLoop_reaches hsplit
      (fun e he => hgood e.1 (SortedMap.find?_eq_some_iff.2 he)) sender
    refine ⟨⟨_, htrace, sends_map_entries s.sessions⟩, ?_, fun x => ?_⟩
    · intro hiterator
      cases (hsame.trans hfault).symm.trans hiterator
    · have hsame' : (s.broadCast results sender).sessions = s.sessions := hsessions
      rw [hsame']
      split_ifs with hfails
      · exact Option.eq_none_iff_forall_ne_some.2 fun _ hmem => hgood x hmem hfails
      · rfl

/-- Two sessions that are connected. -/
def connectedPair : State Bool Unit :=
  ((State.initial false none).processConnect false .accepted []).processConnect true .accepted []

/-- Both sessions are sent to. -/
theorem broadCast_reaches_both :
    ∃ calls,
      (connectedPair.broadCast (fun _ => .accepted) ()).trace = connectedPair.trace ++ calls ∧
      sends false calls = 1 ∧ sends true calls = 1 := by
  have hgood : ∀ x, connectedPair.sessions.find? x = some () →
      ¬ Fails connectedPair (fun _ => .accepted) x := by decide
  obtain ⟨⟨calls, htrace, hsends⟩, -⟩ := (broadCast_reaches_everyone_iff rfl _ ()).2 hgood
  exact ⟨calls, htrace, hsends false, hsends true⟩

/-- The first session is found reset: it is erased under the iterator, and the second session is not
sent to. -/
theorem broadCast_erases_under_iterator :
    connectedPair.fault = none ∧ connectedPair.sessions.find? false = some () ∧
      connectedPair.sessions.find? true = some () ∧
      let t := connectedPair.broadCast (fun x => if x = false then
        { SocketResults.accepted with wsaSend := .error wsaEConnReset } else .accepted) ()
      t.fault = some .erasedIterator ∧ t.sessions.find? false = none ∧ sends true t.trace = 0 := by
  decide

end Loop

end SessionCalls

end DhNet
