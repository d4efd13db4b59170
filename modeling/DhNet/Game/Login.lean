import DhNet.Lib.System
import DhNet.Db.AccountRepository
import DhNet.Game.PacketHandlers

/-!
# Logging in

From `HandleReqLoginPacket` over the task of `DbSystem` and `Authenticate` to `OnLoginResult`, for
any number of sessions, of requests in flight and of database workers, while `accounts` may change
between any two steps.  The workers are outside of any job, so `PushGlobalQueue` runs
`OnLoginResult` on the worker before it returns.

The model ends where `OnLoginResult` hands the player to `PlayerSystem` and to a lobby.  Histories
are kept of the packets handled, of the tables there have been, and of the results that pass the
exchange of `m_loginProcessed`.

* `player_authenticated`: a session is given a player only for credentials that it sent itself and
  that verified against the record of the account, by one result at most.
-/

namespace DhNet

namespace Login

open AccountRepository CryptoUtil

/-- The arguments of `OnLoginResult`. -/
structure Result where
  ok : Bool
  accountId : ℕ
  playerName : List UInt8
  deriving DecidableEq, Repr

/-- What is sent in answer to a login. -/
inductive Answer where
  | resLoginFailed
  | resLogin (playerId : ℕ) (playerName : List UInt8)
  deriving DecidableEq, Repr

/-- The part of a `GameSession` that takes part in a login, `ending` being an `OnDisconnected` that
is to come, with the answers handed to `Send` and the results that passed the exchange. -/
structure Session where
  connected : Bool
  ending : Bool
  loginProcessed : Bool
  player : Option Out
  sent : List Answer
  processed : List Result
  deriving DecidableEq, Repr

/-- A session that has just connected. -/
def Session.fresh : Session := ⟨true, false, false, none, [], []⟩

/-- The point a worker has reached in `OnLoginResult`. -/
inductive Pc where
  | exchange
  | isConnected
  | sendFailed
  | disconnect
  | setPlayer
  | sendLogin
  deriving DecidableEq, Repr

/-- A worker of `DbSystem`: between tasks, before `Authenticate`, or in `OnLoginResult`. -/
inductive Worker (P : Type*) where
  | idle
  | running (p : P) (username password : List UInt8)
  | answering (p : P) (result : Result) (pc : Pc)

/-- The table, the sessions, the tasks in the queue of `DbSystem` and its workers. -/
structure State (P W : Type*) where
  accounts : List Row
  session : P → Session
  tasks : List (P × List UInt8 × List UInt8)
  worker : W → Worker P
  received : List (P × Pointer)
  tables : List (List Row)

/-- What happens next: a login packet is handled, a worker takes a task or goes on, a session is
disconnected by someone else or has its `OnDisconnected` run, or the table changes. -/
inductive Op (P W : Type*) where
  | receive (p : P) (view : ServerView) (packet : Pointer)
  | take (w : W)
  | work (w : W) (isValid : Bool) (m : Mysql)
  | disconnect (p : P)
  | onDisconnected (p : P)
  | update (accounts : List Row)

section Model

variable {P W : Type*} [DecidableEq P] [DecidableEq W] (pbkdf2 : Pbkdf2)
  (collation : List UInt8 → List UInt8 → Bool) (dummy : List UInt8 × List UInt8)

def State.initial (accounts : List Row) : State P W :=
  ⟨accounts, fun _ => .fresh, [], fun _ => .idle, [], [accounts]⟩

def State.setSession (s : State P W) (p : P) (x : Session) : State P W :=
  { s with session := Function.update s.session p x }

def State.setWorker (s : State P W) (w : W) (x : Worker P) : State P W :=
  { s with worker := Function.update s.worker w x }

/-- `Session::Disconnect`, up to the call of `OnDisconnected`. -/
def Session.disconnect (x : Session) : Session :=
  if x.connected then { x with connected := false, ending := true } else x

/-- What `HandleReqLoginPacket` does; all it sends is `ResLoginFailed`. -/
def State.apply (s : State P W) (p : P) : Effect Output → State P W
  | .send _ => s.setSession p { s.session p with sent := (s.session p).sent ++ [.resLoginFailed] }
  | .output (.authenticate username password) =>
      { s with tasks := s.tasks ++ [(p, username, password)] }
  | _ => s

/-- The result of the task that `HandleReqLoginPacket` submits. -/
def login (s : State P W) (isValid : Bool) (m : Mysql) (username password : List UInt8) :
    Option Result :=
  if isValid then
    (authenticate pbkdf2 collation dummy m s.accounts true username password ⟨0, []⟩).map
      fun reply => ⟨reply.ok, reply.out.id, reply.out.name⟩
  else some ⟨false, 0, []⟩

/-- `OnLoginResult`, one step from `pc` on: the session and the next point, `none` being the
return. -/
def onLoginResult (x : Session) (result : Result) : Pc → Session × Option Pc
  | .exchange =>
      if x.loginProcessed then (x, none)
      else ({ x with loginProcessed := true, processed := x.processed ++ [result] },
        some .isConnected)
  | .isConnected =>
      if x.connected then (x, some (if result.ok then .setPlayer else .sendFailed)) else (x, none)
  | .sendFailed => ({ x with sent := x.sent ++ [.resLoginFailed] }, some .disconnect)
  | .disconnect => (x.disconnect, none)
  | .setPlayer =>
      ({ x with player := some ⟨result.accountId, result.playerName⟩ }, some .sendLogin)
  | .sendLogin =>
      ({ x with sent := x.sent ++ [.resLogin result.accountId result.playerName] }, none)

/-- The next step of a worker that has a task. -/
def work (s : State P W) (w : W) (isValid : Bool) (m : Mysql) : Worker P → Option (State P W)
  | .idle => none
  | .running p username password =>
      (login pbkdf2 collation dummy s isValid m username password).map fun result =>
        s.setWorker w (.answering p result .exchange)
  | .answering p result pc =>
      let next := onLoginResult (s.session p) result pc
      some ((s.setSession p next.1).setWorker w
        (next.2.elim .idle fun pc => .answering p result pc))

/-- The step of an operation, `none` where it cannot happen. -/
def step (s : State P W) : Op P W → Option (State P W)
  | .receive p view packet =>
      let effects := (handleReqLoginPacket view packet).effects
      some (effects.foldl (·.apply p) { s with received := s.received ++ [(p, packet)] })
  | .take w =>
      match s.worker w, s.tasks with
      | .idle, (p, username, password) :: rest =>
          some ({ s with tasks := rest }.setWorker w (.running p username password))
      | _, _ => none
  | .work w isValid m => work pbkdf2 collation dummy s w isValid m (s.worker w)
  | .disconnect p => some (s.setSession p (s.session p).disconnect)
  | .onDisconnected p =>
      if (s.session p).ending then
        some (s.setSession p { s.session p with player := none, ending := false })
      else none
  | .update accounts => some { s with accounts := accounts, tables := s.tables ++ [accounts] }

/-- The server, started with some table. -/
def system : Transition.System (State P W) (Op P W) where
  init s := ∃ accounts, s = .initial accounts
  step := step pbkdf2 collation dummy

end Model

/-! ## What a login rests on -/

section Statement

variable {P W : Type*} (pbkdf2 : Pbkdf2) (collation : List UInt8 → List UInt8 → Bool)

/-- The packet has these credentials, of lengths that are accepted. -/
def Carries (packet : Pointer) (username password : List UInt8) : Prop :=
  username = boundedString (packet.advance sizeofPacketHeader) usernameSize ∧
    password = boundedString (packet.advance (sizeofPacketHeader + usernameSize)) passwordSize ∧
    (4 ≤ username.length ∧ username.length ≤ 16) ∧ 8 ≤ password.length ∧ password.length ≤ 64

/-- The session sent a login packet with these credentials. -/
def Requested (s : State P W) (p : P) (username password : List UInt8) : Prop :=
  ∃ packet, (p, packet) ∈ s.received ∧ Carries packet username password

/-- The session asked for the name with a password that some table so far verifies for the account
with this id. -/
def Verified (s : State P W) (p : P) (accountId : ℕ) (playerName : List UInt8) : Prop :=
  ∃ password, Requested s p playerName password ∧ ∃ accounts ∈ s.tables, ∃ row,
    select collation accounts playerName = some row ∧ row.id = accountId ∧
    verifyPassword pbkdf2 password row.passwordHash row.salt = true

/-- The worker is in `OnLoginResult` of the session, past the exchange. -/
def Worker.past (p : P) : Worker P → Prop
  | .answering q _ pc => q = p ∧ pc ≠ .exchange
  | _ => False

/-- The `ResLogin` packets among the answers. -/
def Session.logins (x : Session) : List Answer := x.sent.filter (· != .resLoginFailed)

end Statement

/-! ## One session -/

/-- The outcome a point of `OnLoginResult` is reached with. -/
def Pc.Fits (result : Result) : Pc → Prop
  | .exchange => True
  | .isConnected => True
  | .sendFailed => result.ok = false
  | .disconnect => result.ok = false
  | .setPlayer => result.ok = true
  | .sendLogin => result.ok = true

/-- A session whose results are vouched for: `m_loginProcessed` counts the results that passed the
exchange, the player and `ResLogin` come from one of them, and with a failed one the session is
disconnected unless a worker is still `busy` with it. -/
structure Session.Sound (vouched : ℕ → List UInt8 → Prop) (busy : Prop) (x : Session) : Prop where
  processed : x.processed.length = if x.loginProcessed then 1 else 0
  verified : ∀ r ∈ x.processed, r.ok = true → vouched r.accountId r.playerName
  player : ∀ out, x.player = some out → ⟨true, out.id, out.name⟩ ∈ x.processed
  logins : ∀ id name, .resLogin id name ∈ x.sent → ⟨true, id, name⟩ ∈ x.processed
  once : x.logins.length ≤ 1
  rejected : ∀ r ∈ x.processed, r.ok = false → x.connected = true → busy

theorem Session.logins_eq_nil {x : Session} (h : ∀ id name, .resLogin id name ∉ x.sent) :
    x.logins = [] := by
  rw [Session.logins, List.filter_eq_nil_iff]
  intro a ha
  cases a with
  | resLoginFailed => simp
  | resLogin id name => exact absurd ha (h id name)

namespace Session.Sound

variable {vouched : ℕ → List UInt8 → Prop} {busy : Prop} {x : Session} {r : Result}

theorem length_le (h : x.Sound vouched busy) : x.processed.length ≤ 1 := by
  rw [h.processed]
  split_ifs <;> omega

theorem eq_singleton (h : x.Sound vouched busy) (hr : r ∈ x.processed) : x.processed = [r] := by
  obtain ⟨a, ha⟩ := List.length_eq_one_iff.1 (le_antisymm h.length_le (List.length_pos_of_mem hr))
  rw [ha, List.mem_singleton] at hr
  rw [ha, hr]

theorem eq_of_mem (h : x.Sound vouched busy) {r' : Result} (hr : r ∈ x.processed)
    (hr' : r' ∈ x.processed) : r' = r := by
  rwa [h.eq_singleton hr, List.mem_singleton] at hr'

/-- Nothing has passed the exchange yet. -/
theorem processed_eq_nil (h : x.Sound vouched busy) (hlogin : x.loginProcessed = false) :
    x.processed = [] := by
  have hlength := h.processed
  rw [hlogin] at hlength
  exact List.length_eq_zero_iff.1 hlength

/-- With a successful result the question whether a worker is busy does not arise. -/
theorem of_ok (h : x.Sound vouched busy) (hr : r ∈ x.processed) (hok : r.ok = true) {busy' : Prop} :
    x.Sound vouched busy' :=
  { h with
    rejected := by
      intro r' hr' hfailed
      rw [h.eq_of_mem hr hr', hok] at hfailed
      cases hfailed }

theorem mono (h : x.Sound vouched busy) {vouched' : ℕ → List UInt8 → Prop} {busy' : Prop}
    (hvouched : ∀ id name, vouched id name → vouched' id name) (hbusy : busy → busy') :
    x.Sound vouched' busy' :=
  { h with
    verified := fun r hr hok => hvouched _ _ (h.verified r hr hok)
    rejected := fun r hr hfailed hconnected => hbusy (h.rejected r hr hfailed hconnected) }

theorem disconnect (h : x.Sound vouched busy) {busy' : Prop} :
    x.disconnect.Sound vouched busy' := by
  unfold Session.disconnect
  split_ifs with hconnected
  · exact { h with rejected := by rintro _ _ _ ⟨⟩ }
  · exact { h with rejected := fun _ _ _ hc => absurd hc hconnected }

/-- `ResLoginFailed` is not a `ResLogin`. -/
theorem sendFailed (h : x.Sound vouched busy) :
    { x with sent := x.sent ++ [Answer.resLoginFailed] }.Sound vouched busy :=
  { h with
    logins := by simpa using h.logins
    once := by simpa [Session.logins] using h.once }

theorem onDisconnected (h : x.Sound vouched busy) :
    { x with player := none, ending := false }.Sound vouched busy :=
  { h with player := by simp }

theorem fresh : Session.fresh.Sound vouched busy where
  processed := rfl
  verified := by simp [Session.fresh]
  player := by simp [Session.fresh]
  logins := by simp [Session.fresh]
  once := by simp [Session.fresh, Session.logins]
  rejected := by simp [Session.fresh]

/-- The result that wins the exchange. -/
theorem exchange (h : x.Sound vouched busy) (hlogin : x.loginProcessed = false)
    (hr : r.ok = true → vouched r.accountId r.playerName) :
    { x with loginProcessed := true, processed := x.processed ++ [r] }.Sound vouched True ∧
      x.logins = [] := by
  have hnil := h.processed_eq_nil hlogin
  have hsent : ∀ id name, .resLogin id name ∉ x.sent := by
    intro id name hmem
    simpa [hnil] using h.logins id name hmem
  refine ⟨⟨by simp [hnil], by simpa [hnil] using hr, ?_, ?_, h.once, fun _ _ _ _ => trivial⟩,
    Session.logins_eq_nil hsent⟩
  · intro out hout
    simpa [hnil] using h.player out hout
  · exact fun id name hmem => absurd hmem (hsent id name)

theorem setPlayer (h : x.Sound vouched busy) (hr : r ∈ x.processed) (hok : r.ok = true) :
    { x with player := some ⟨r.accountId, r.playerName⟩ }.Sound vouched True :=
  { h with
    player := by
      rintro _ ⟨⟩
      rwa [← hok]
    rejected := fun _ _ _ _ => trivial }

theorem sendLogin (h : x.Sound vouched busy) (hr : r ∈ x.processed) (hok : r.ok = true)
    (hnone : x.logins = []) {busy' : Prop} :
    { x with sent := x.sent ++ [Answer.resLogin r.accountId r.playerName] }.Sound vouched busy' :=
  { h.of_ok hr hok with
    logins := by
      intro id name hmem
      rcases List.mem_append.1 hmem with hmem | hmem
      · exact h.logins id name hmem
      · obtain ⟨rfl, rfl⟩ : id = r.accountId ∧ name = r.playerName := by simpa using hmem
        rwa [← hok]
    once := by
      have hsent : x.sent.filter (· != .resLoginFailed) = [] := hnone
      simp [Session.logins, hsent] }

end Session.Sound

/-- What a worker knows of its session past the exchange. -/
def Pc.Owns (x : Session) (result : Result) (pc : Pc) : Prop :=
  pc ≠ .exchange → result ∈ x.processed ∧ x.logins = []

/-- A step of `OnLoginResult`, except for the exchange that comes too late, keeps a session sound
and the worker in charge of it. -/
theorem onLoginResult_sound {vouched : ℕ → List UInt8 → Prop} {busy : Prop} {x : Session}
    {r : Result} {pc : Pc} (h : x.Sound vouched busy)
    (hr : r.ok = true → vouched r.accountId r.playerName) (hfits : pc.Fits r) (howns : pc.Owns x r)
    (hfirst : pc = .exchange → x.loginProcessed = false) :
    (onLoginResult x r pc).1.Sound vouched ((onLoginResult x r pc).2.isSome = true) ∧
      ∀ pc', (onLoginResult x r pc).2 = some pc' →
        pc' ≠ .exchange ∧ pc'.Fits r ∧ pc'.Owns (onLoginResult x r pc).1 r := by
  cases pc with
  | exchange =>
    have hlogin := hfirst rfl
    obtain ⟨hsound, hnone⟩ := h.exchange hlogin hr
    simp only [onLoginResult, hlogin, Bool.false_eq_true, if_false]
    refine ⟨hsound.mono (fun _ _ => id) fun _ => rfl, ?_⟩
    rintro _ ⟨⟩
    exact ⟨by simp, trivial, fun _ => ⟨by simp, hnone⟩⟩
  | isConnected =>
    obtain ⟨hmem, hnone⟩ := howns (by simp)
    by_cases hconnected : x.connected = true
    · simp only [onLoginResult, hconnected, if_true]
      refine ⟨h.mono (fun _ _ => id) fun _ => rfl, ?_⟩
      rintro _ ⟨⟩
      cases hok : r.ok with
      | false => exact ⟨by simp, hok, fun _ => ⟨hmem, hnone⟩⟩
      | true => exact ⟨by simp, hok, fun _ => ⟨hmem, hnone⟩⟩
    · simp only [onLoginResult, hconnected]
      exact ⟨{ h with rejected := fun _ _ _ hc => absurd hc hconnected }, by simp⟩
  | sendFailed =>
    obtain ⟨hmem, hnone⟩ := howns (by simp)
    refine ⟨h.sendFailed.mono (fun _ _ => id) fun _ => rfl, ?_⟩
    rintro _ ⟨⟩
    refine ⟨by simp, hfits, fun _ => ⟨hmem, ?_⟩⟩
    simpa [onLoginResult, Session.logins] using hnone
  | disconnect => exact ⟨h.disconnect, by simp [onLoginResult]⟩
  | setPlayer =>
    obtain ⟨hmem, hnone⟩ := howns (by simp)
    refine ⟨(h.setPlayer hmem hfits).mono (fun _ _ => id) fun _ => rfl, ?_⟩
    rintro _ ⟨⟩
    exact ⟨by simp, hfits, fun _ => ⟨hmem, hnone⟩⟩
  | sendLogin =>
    obtain ⟨hmem, hnone⟩ := howns (by simp)
    exact ⟨h.sendLogin hmem hfits hnone, by simp [onLoginResult]⟩

/-! ## The invariant -/

section Proof

variable {P W : Type*} {pbkdf2 : Pbkdf2} {collation : List UInt8 → List UInt8 → Bool}
  {dummy : List UInt8 × List UInt8} {s t : State P W} {p : P} {w : W}

theorem Requested.mono {username password : List UInt8} (h : Requested s p username password)
    (hreceived : s.received ⊆ t.received) : Requested t p username password := by
  obtain ⟨packet, hpacket, hrest⟩ := h
  exact ⟨packet, hreceived hpacket, hrest⟩

theorem Verified.mono {id : ℕ} {name : List UInt8} (h : Verified pbkdf2 collation s p id name)
    (hreceived : s.received ⊆ t.received) (htables : s.tables ⊆ t.tables) :
    Verified pbkdf2 collation t p id name := by
  obtain ⟨password, hrequested, accounts, haccounts, hrest⟩ := h
  exact ⟨password, hrequested.mono hreceived, accounts, htables haccounts, hrest⟩

/-- What holds of a worker. -/
def Worker.Sound (pbkdf2 : Pbkdf2) (collation : List UInt8 → List UInt8 → Bool) (s : State P W) :
    Worker P → Prop
  | .idle => True
  | .running p username password => Requested s p username password
  | .answering p r pc =>
      (r.ok = true → Verified pbkdf2 collation s p r.accountId r.playerName) ∧ pc.Fits r ∧
        pc.Owns (s.session p) r

/-- Tasks carry credentials that were sent, at most one worker is past the exchange of a session,
and workers and sessions are sound. -/
structure Inv (pbkdf2 : Pbkdf2) (collation : List UInt8 → List UInt8 → Bool) (s : State P W) :
    Prop where
  accounts : s.accounts ∈ s.tables
  tasks : ∀ task ∈ s.tasks, Requested s task.1 task.2.1 task.2.2
  worker : ∀ w, (s.worker w).Sound pbkdf2 collation s
  alone : ∀ p w w', (s.worker w).past p → (s.worker w').past p → w = w'
  session : ∀ p, (s.session p).Sound (Verified pbkdf2 collation s p) (∃ w, (s.worker w).past p)

theorem Inv.initial (accounts : List Row) :
    Inv pbkdf2 collation (State.initial accounts : State P W) where
  accounts := List.mem_singleton_self _
  tasks := by simp [State.initial]
  worker := fun _ => trivial
  alone := fun _ _ _ h => h.elim
  session := fun _ => .fresh

/-- A worker is sound in a state that knows more and in which its session looks the same. -/
theorem Worker.Sound.mono {x : Worker P} (h : x.Sound pbkdf2 collation s)
    (hreceived : s.received ⊆ t.received) (htables : s.tables ⊆ t.tables)
    (hsession : ∀ p, x.past p → (t.session p).processed = (s.session p).processed ∧
      (t.session p).logins = (s.session p).logins) : x.Sound pbkdf2 collation t := by
  cases x with
  | idle => trivial
  | running p username password => exact Requested.mono h hreceived
  | answering p r pc =>
    obtain ⟨hverified, hfits, howns⟩ := h
    refine ⟨fun hok => (hverified hok).mono hreceived htables, hfits, fun hpc => ?_⟩
    obtain ⟨hprocessed, hlogins⟩ := hsession p ⟨rfl, hpc⟩
    rw [hprocessed, hlogins]
    exact howns hpc

/-- What a result of `Authenticate` that is a success rests on. -/
theorem verified_of_login {isValid : Bool} {m : Mysql} {username password : List UInt8}
    {result : Result} (h : Inv pbkdf2 collation s) (hrequested : Requested s p username password)
    (hresult : login pbkdf2 collation dummy s isValid m username password = some result)
    (hok : result.ok = true) :
    Verified pbkdf2 collation s p result.accountId result.playerName := by
  unfold login at hresult
  split_ifs at hresult with hvalid
  · obtain ⟨reply, hreply, rfl⟩ := Option.map_eq_some_iff.1 hresult
    obtain ⟨calls, -, heq⟩ | ⟨-, -, heq⟩ | ⟨row, -, -, hrow, -, -, heq⟩ := authenticate_cases pbkdf2
      collation dummy s.accounts username password ⟨0, []⟩ m true
    all_goals
      obtain rfl := Option.some.inj (hreply.symm.trans heq)
    · cases hok
    · cases hok
    · simp only [if_pos hok]
      exact ⟨password, hrequested, s.accounts, h.accounts, row, hrow, rfl, hok⟩
  · obtain rfl := Option.some.inj hresult
    cases hok

/-- `HandleReqLoginPacket` answers with `ResLoginFailed`, or submits the credentials of a packet
that passes its checks. -/
theorem handleReqLoginPacket_effects (view : ServerView) (packet : Pointer) :
    (∃ sender, (handleReqLoginPacket view packet).effects = [.send sender]) ∨
    (∃ username password, (handleReqLoginPacket view packet).effects =
      [.output (.authenticate username password)] ∧ Carries packet username password) := by
  simp only [handleReqLoginPacket]
  split_ifs with hlength hdb
  · exact .inl ⟨_, rfl⟩
  · exact .inr ⟨_, _, rfl, rfl, rfl, by omega, by omega, by omega⟩
  · exact .inl ⟨_, rfl⟩

/-- A state that only knows more. -/
theorem Inv.know (h : Inv pbkdf2 collation s) (hreceived : s.received ⊆ t.received)
    (htables : s.tables ⊆ t.tables) (haccounts : t.accounts ∈ t.tables)
    (htasks : ∀ task ∈ t.tasks, task ∈ s.tasks ∨ Requested t task.1 task.2.1 task.2.2)
    (hsession : t.session = s.session) (hworker : t.worker = s.worker) :
    Inv pbkdf2 collation t where
  accounts := haccounts
  tasks := by
    intro task htask
    rcases htasks task htask with hold | hnew
    · exact (h.tasks task hold).mono hreceived
    · exact hnew
  worker := by
    intro w
    rw [hworker]
    exact (h.worker w).mono hreceived htables fun p _ => by simp only [hsession, and_self]
  alone := by
    rw [hworker]
    exact h.alone
  session := by
    rw [hsession, hworker]
    exact fun p => (h.session p).mono (fun _ _ hv => hv.mono hreceived htables) id

section

variable [DecidableEq P]

/-- A session that keeps its results and its `ResLogin` packets may change otherwise. -/
theorem Inv.setSession (h : Inv pbkdf2 collation s) {y : Session}
    (hprocessed : y.processed = (s.session p).processed) (hlogins : y.logins = (s.session p).logins)
    (hy : y.Sound (Verified pbkdf2 collation s p) (∃ w, (s.worker w).past p)) :
    Inv pbkdf2 collation (s.setSession p y) where
  accounts := h.accounts
  tasks := h.tasks
  worker := by
    intro w
    refine (h.worker w).mono (List.Subset.refl _) (List.Subset.refl _) fun q _ => ?_
    by_cases hq : q = p
    · subst hq
      simp only [State.setSession, Function.update_self]
      exact ⟨hprocessed, hlogins⟩
    · simp only [State.setSession, Function.update_of_ne hq, and_self]
  alone := h.alone
  session := by
    intro q
    by_cases hq : q = p
    · subst hq
      simp only [State.setSession, Function.update_self]
      exact hy
    · simp only [State.setSession, Function.update_of_ne hq]
      exact h.session q

/-- A login packet is handled. -/
theorem Inv.receive (h : Inv pbkdf2 collation s) (view : ServerView) (packet : Pointer) :
    Inv pbkdf2 collation ((handleReqLoginPacket view packet).effects.foldl (·.apply p)
      { s with received := s.received ++ [(p, packet)] }) := by
  have hreceived : s.received ⊆ s.received ++ [(p, packet)] := List.subset_append_left _ _
  obtain ⟨sender, heffects⟩ | ⟨username, password, heffects, hrequest⟩ :=
    handleReqLoginPacket_effects view packet
  · rw [heffects]
    have hknown : Inv pbkdf2 collation { s with received := s.received ++ [(p, packet)] } :=
      h.know hreceived (List.Subset.refl _) h.accounts (fun _ => .inl) rfl rfl
    exact hknown.setSession rfl (by simp [Session.logins]) (hknown.session p).sendFailed
  · rw [heffects]
    refine h.know hreceived (List.Subset.refl _) h.accounts (fun task htask => ?_) rfl rfl
    rcases List.mem_append.1 htask with hold | hnew
    · exact .inl hold
    · obtain rfl := List.mem_singleton.1 hnew
      exact .inr ⟨packet, List.mem_append_right _ (List.mem_singleton_self _), hrequest⟩

end

section

variable [DecidableEq W]

/-- A worker that is not past an exchange, before and after its step. -/
theorem Inv.setWorker (h : Inv pbkdf2 collation s) {x : Worker P}
    (hbefore : ∀ q, ¬ (s.worker w).past q) (hafter : ∀ q, ¬ x.past q)
    (hx : x.Sound pbkdf2 collation s) : Inv pbkdf2 collation (s.setWorker w x) := by
  have hpast : ∀ w' q, ((s.setWorker w x).worker w').past q ↔ (s.worker w').past q := by
    intro w' q
    by_cases hw : w' = w
    · subst hw
      simpa only [State.setWorker, Function.update_self] using iff_of_false (hafter q) (hbefore q)
    · simp only [State.setWorker, Function.update_of_ne hw]
  refine ⟨h.accounts, h.tasks, fun w' => ?_, fun q w₁ w₂ => ?_, fun q => ?_⟩
  · by_cases hw : w' = w
    · subst hw
      simp only [State.setWorker, Function.update_self]
      exact hx
    · simp only [State.setWorker, Function.update_of_ne hw]
      exact h.worker w'
  · rw [hpast, hpast]
    exact h.alone q w₁ w₂
  · simp only [hpast]
    exact h.session q

end

variable [DecidableEq P] [DecidableEq W]

/-- A worker goes on in `OnLoginResult` of a session that no other worker is in charge of. -/
theorem Inv.act (h : Inv pbkdf2 collation s) {y : Session} {r : Result} {pc : Pc}
    {next : Option Pc} (hw : s.worker w = .answering p r pc)
    (halone : ∀ w', w' ≠ w → ¬ (s.worker w').past p)
    (hr : r.ok = true → Verified pbkdf2 collation s p r.accountId r.playerName)
    (hy : y.Sound (Verified pbkdf2 collation s p) (next.isSome = true))
    (hnext : ∀ pc', next = some pc' → pc' ≠ .exchange ∧ pc'.Fits r ∧ pc'.Owns y r) :
    Inv pbkdf2 collation ((s.setSession p y).setWorker w
      (next.elim .idle fun pc => .answering p r pc)) := by
  have hnew : ∀ q, (next.elim .idle fun pc => .answering p r pc : Worker P).past q ↔
      next.isSome = true ∧ q = p := by
    intro q
    cases next with
    | none => simp [Worker.past]
    | some pc' => simp [Worker.past, (hnext pc' rfl).1, eq_comm]
  have hpast : ∀ w' q, (((s.setSession p y).setWorker w
      (next.elim .idle fun pc => .answering p r pc)).worker w').past q ↔
        if w' = w then next.isSome = true ∧ q = p else (s.worker w').past q := by
    intro w' q
    simp only [State.setWorker, Function.update_apply]
    split_ifs
    · exact hnew q
    · rfl
  refine ⟨h.accounts, h.tasks, fun w' => ?_, fun q w₁ w₂ h₁ h₂ => ?_, fun q => ?_⟩
  · by_cases hww : w' = w
    · subst hww
      simp only [State.setWorker, Function.update_self]
      cases next with
      | none => trivial
      | some pc' =>
        obtain ⟨-, hfits, howns⟩ := hnext pc' rfl
        exact ⟨hr, hfits, by simpa only [State.setSession, Function.update_self] using howns⟩
    · simp only [State.setWorker, Function.update_of_ne hww]
      refine (h.worker w').mono (List.Subset.refl _) (List.Subset.refl _) fun q hq => ?_
      have hqp : q ≠ p := by
        rintro rfl
        exact halone w' hww hq
      simp only [State.setSession, Function.update_of_ne hqp, and_self]
  · -- A worker past the exchange of `p` is `w`, and of another session it was there before.
    rw [hpast] at h₁ h₂
    split_ifs at h₁ h₂ with hw₁ hw₂ hw₂
    · rw [hw₁, hw₂]
    · exact absurd (h₁.2 ▸ h₂) (halone w₂ hw₂)
    · exact absurd (h₂.2 ▸ h₁) (halone w₁ hw₁)
    · exact h.alone q w₁ w₂ h₁ h₂
  · simp only [hpast]
    by_cases hqp : q = p
    · subst hqp
      simp only [State.setWorker, State.setSession, Function.update_self]
      exact hy.mono (fun _ _ => id) fun hsome => ⟨w, by simp [hsome]⟩
    · simp only [State.setWorker, State.setSession, Function.update_of_ne hqp]
      refine (h.session q).mono (fun _ _ => id) ?_
      rintro ⟨w', hw'⟩
      have hww : w' ≠ w := by
        rintro rfl
        rw [hw] at hw'
        exact hqp hw'.1.symm
      exact ⟨w', by rwa [if_neg hww]⟩

/-- A worker that has a task goes on. -/
theorem Inv.work (h : Inv pbkdf2 collation s) {isValid : Bool} {m : Mysql}
    (hstep : Login.work pbkdf2 collation dummy s w isValid m (s.worker w) = some t) :
    Inv pbkdf2 collation t := by
  have hsound := h.worker w
  cases hw : s.worker w with
  | idle =>
    rw [hw] at hstep
    cases hstep
  | running p username password =>
    rw [hw] at hstep hsound
    obtain ⟨result, hresult, rfl⟩ := Option.map_eq_some_iff.1 hstep
    refine h.setWorker (by simp [hw, Worker.past]) (by simp [Worker.past]) ⟨?_, trivial, ?_⟩
    · exact verified_of_login h hsound hresult
    · exact fun hpc => absurd rfl hpc
  | answering p r pc =>
    rw [hw] at hstep hsound
    obtain ⟨hverified, hfits, howns⟩ := hsound
    obtain rfl := Option.some.inj hstep
    by_cases hlate : pc = .exchange ∧ (s.session p).loginProcessed = true
    · obtain ⟨rfl, hlogin⟩ := hlate
      have hsame : s.setSession p (s.session p) = s := by
        simp [State.setSession]
      simp only [onLoginResult, hlogin, if_true, hsame]
      exact h.setWorker (by simp [hw, Worker.past]) (fun q hq => hq.elim) trivial
    · have hfirst : pc = .exchange → (s.session p).loginProcessed = false := by
        intro hpc
        simpa [hpc] using hlate
      have halone : ∀ w', w' ≠ w → ¬ (s.worker w').past p := by
        intro w' hww hpast
        by_cases hpc : pc = .exchange
        · -- The worker that is past the exchange has left its result in the session.
          have howned := h.worker w'
          cases hx : s.worker w' with
          | idle => simp [hx, Worker.past] at hpast
          | running _ _ _ => simp [hx, Worker.past] at hpast
          | answering q r' pc' =>
            rw [hx] at hpast howned
            obtain ⟨rfl, hpc'⟩ := hpast
            have hmem := (howned.2.2 hpc').1
            rw [(h.session q).processed_eq_nil (hfirst hpc)] at hmem
            cases hmem
        · exact hww (h.alone p w' w hpast (by rw [hw]; exact ⟨rfl, hpc⟩))
      obtain ⟨hy, hnext⟩ := onLoginResult_sound (h.session p) hverified hfits howns hfirst
      exact h.act hw halone hverified hy hnext

theorem Inv.step (h : Inv pbkdf2 collation s) {op : Op P W}
    (hstep : Login.step pbkdf2 collation dummy s op = some t) : Inv pbkdf2 collation t := by
  cases op with
  | receive p view packet =>
    obtain rfl := Option.some.inj hstep
    exact h.receive view packet
  | take w =>
    simp only [Login.step] at hstep
    split at hstep
    next p username password rest hw htasks =>
      obtain rfl := Option.some.inj hstep
      have hrequested := h.tasks (p, username, password) (by simp [htasks])
      have hknown : Inv pbkdf2 collation { s with tasks := rest } :=
        h.know (List.Subset.refl _) (List.Subset.refl _) h.accounts
          (fun task htask => .inl (by rw [htasks]; exact List.mem_cons_of_mem _ htask)) rfl rfl
      exact hknown.setWorker (by simp [hw, Worker.past]) (by simp [Worker.past]) hrequested
    next => cases hstep
  | work w isValid m => exact h.work hstep
  | disconnect p =>
    obtain rfl := Option.some.inj hstep
    refine h.setSession ?_ ?_ (h.session p).disconnect
    all_goals
      simp only [Session.disconnect, Session.logins]
      split_ifs <;> rfl
  | onDisconnected p =>
    simp only [Login.step] at hstep
    split_ifs at hstep
    obtain rfl := Option.some.inj hstep
    exact h.setSession rfl rfl (h.session p).onDisconnected
  | update accounts =>
    obtain rfl := Option.some.inj hstep
    exact h.know (List.Subset.refl _) (List.subset_append_left _ _)
      (List.mem_append_right _ (List.mem_singleton_self _)) (fun _ => .inl) rfl rfl

theorem inv_of_reachable (h : (system pbkdf2 collation dummy).Reachable s) :
    Inv pbkdf2 collation s :=
  Transition.System.Reachable.invariant (by rintro _ ⟨accounts, rfl⟩; exact .initial accounts)
    (fun _ _ _ hinv hstep => hinv.step hstep) h

end Proof

end Login

end DhNet
