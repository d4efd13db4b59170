import Mathlib.Data.List.Chain
import DhNet.Client.PingMetrics

/-!
# The actions of a scenario

What the stress client decides for one registered session.  `ScenarioStateRegistry` applies every
function to the state of the session under its lock, so a run is a list of calls: ticks of
`AdvanceScenario` and `AdvancePing`, and the packets of the server, in any order.

`Res_LobbyEnter` opens the leg of the lobby and the own `Noti_RoomEnter` the leg of the room,
whatever the phase is.  Up to the next packet that opens a leg the actions follow the plan of the
leg: its chats, its request with the retries, and the record that the session is stuck.  A session
is stuck for good exactly as long as no such packet arrives.
-/

namespace DhNet

namespace StressTest

namespace ScenarioTraces

/-! ## The calls -/

/-- A leg of the scenario. -/
inductive Leg where
  | lobby
  | room
  deriving DecidableEq, Repr

/-- What is called with the state of a registered session. -/
inductive Op where
  | advanceScenario (now : ℤ)
  | advancePing (now : ℤ)
  | handleResLobbyEnter (now : ℤ)
  | handleNotiRoomEnter (now : ℤ) (own : Bool)
  | handleResTest
  deriving DecidableEq, Repr

/-- The leg that the call opens, and when. -/
def Op.opens : Op → Option (Leg × ℤ)
  | .handleResLobbyEnter now => some (.lobby, now)
  | .handleNotiRoomEnter now true => some (.room, now)
  | _ => none

section Runs

variable (cfg : ScenarioConfig)

/-- The state after a call. -/
def Op.apply (st : ScenarioState) : Op → ScenarioState
  | .advanceScenario now => (StressTest.advanceScenario cfg now st).1
  | .advancePing now => (StressTest.advancePing cfg now st).1
  | .handleResLobbyEnter now => StressTest.handleResLobbyEnter now st
  | .handleNotiRoomEnter now own => if own then StressTest.handleNotiRoomEnter now st else st
  | .handleResTest => StressTest.handleResTest st

/-- What the call decides to do, with the time. -/
def Op.decides (st : ScenarioState) : Op → List (ℤ × ScenarioAction)
  | .advanceScenario now =>
      if (StressTest.advanceScenario cfg now st).2 = .none then []
      else [(now, (StressTest.advanceScenario cfg now st).2)]
  | _ => []

/-- The state after a run. -/
def after (st : ScenarioState) (ops : List Op) : ScenarioState := ops.foldl (Op.apply cfg) st

/-- The actions that a run decides, in order. -/
def decided : ScenarioState → List Op → List (ℤ × ScenarioAction)
  | _, [] => []
  | st, op :: ops => op.decides cfg st ++ decided (op.apply cfg st) ops

variable (st : ScenarioState) (ops ops' : List Op)

theorem after_append : after cfg st (ops ++ ops') = after cfg (after cfg st ops) ops' :=
  List.foldl_append

/-- A call that neither opens a leg nor is a tick of the scenario is about the pings only. -/
theorem Op.apply_ping {op : Op} (hopens : op.opens = none)
    (htick : ∀ now, op ≠ .advanceScenario now) :
    op.decides cfg st = [] ∧
      ∃ flight sent last, op.apply cfg st =
        { st with pingInFlight := flight, pingSentTime := sent, lastPingSentTime := last } := by
  cases op with
  | advanceScenario now => exact absurd rfl (htick now)
  | advancePing now =>
    refine ⟨rfl, ?_⟩
    simp only [Op.apply, StressTest.advancePing, expirePing]
    split_ifs <;> exact ⟨_, _, _, rfl⟩
  | handleResLobbyEnter now => cases hopens
  | handleNotiRoomEnter now own =>
    cases own with
    | true => cases hopens
    | false => exact ⟨rfl, _, _, _, rfl⟩
  | handleResTest =>
    refine ⟨rfl, ?_⟩
    simp only [Op.apply, StressTest.handleResTest]
    split_ifs <;> exact ⟨_, _, _, rfl⟩

end Runs

/-! ## The plan of a leg -/

namespace Leg

/-- The phase in which the chats are sent. -/
def chatting : Leg → ScenarioPhase
  | lobby => .inLobby
  | room => .inRoom

/-- The phase in which the answer to the request is awaited. -/
def awaiting : Leg → ScenarioPhase
  | lobby => .awaitingRoomEnter
  | room => .awaitingRoomExit

/-- The chat. -/
def chat : Leg → ScenarioAction
  | lobby => .sendLobbyChat
  | room => .sendRoomChat

/-- The request that ends the leg. -/
def request : Leg → ScenarioAction
  | lobby => .sendRoomEnter
  | room => .sendRoomExit

/-- The record that the request has been retried too often. -/
def stuck : Leg → ScenarioAction
  | lobby => .logStuckRoomEnter
  | room => .logStuckRoomExit

/-- The number of chats sent. -/
def chatsSent (st : ScenarioState) : Leg → ℤ
  | lobby => st.lobbyChatsSent
  | room => st.roomChatsSent

section Plan

variable (cfg : ScenarioConfig)

/-- The number of chats to send. -/
def chatCount : Leg → ℤ
  | lobby => cfg.lobbyChatCount
  | room => cfg.roomChatCount

/-- The time between two chats. -/
def chatIntervalMs : Leg → ℤ
  | lobby => cfg.lobbyChatIntervalMs
  | room => cfg.roomChatIntervalMs

/-- All that a leg can do, in order. -/
def plan (leg : Leg) : List ScenarioAction :=
  List.replicate (leg.chatCount cfg).toNat leg.chat ++
    (List.replicate (1 + cfg.maxRoomActionRetries.toNat) leg.request ++ [leg.stuck])

/-- Two chats are at least the interval apart, two requests at least the timeout. -/
def Apart (leg : Leg) (a b : ℤ × ScenarioAction) : Prop :=
  (a.2 = leg.chat → b.2 = leg.chat → milliseconds (leg.chatIntervalMs cfg) ≤ b.1 - a.1) ∧
    (a.2 = leg.request → b.2 = leg.request → milliseconds cfg.roomActionTimeoutMs ≤ b.1 - a.1)

theorem length_plan (leg : Leg) :
    (leg.plan cfg).length = (leg.chatCount cfg).toNat + (cfg.maxRoomActionRetries.toNat + 2) := by
  simp only [plan, List.length_append, List.length_replicate, List.length_singleton]
  omega

/-- The plan starts with the chats. -/
theorem plan_chat (leg : Leg) {n : ℕ} (hn : n < (leg.chatCount cfg).toNat) :
    (leg.plan cfg)[n]? = some leg.chat := by
  rw [plan, List.getElem?_append_left (by simpa using hn), List.getElem?_replicate, if_pos hn]

/-- After the chats come the requests. -/
theorem plan_request (leg : Leg) {n : ℕ} (hn : n ≤ cfg.maxRoomActionRetries.toNat) :
    (leg.plan cfg)[(leg.chatCount cfg).toNat + n]? = some leg.request := by
  rw [plan, List.getElem?_append_right (by simp), List.length_replicate, Nat.add_sub_cancel_left,
    List.getElem?_append_left (by simp; omega), List.getElem?_replicate, if_pos (by omega)]

/-- After the requests comes the record. -/
theorem plan_stuck (leg : Leg) :
    (leg.plan cfg)[(leg.chatCount cfg).toNat + (cfg.maxRoomActionRetries.toNat + 1)]? =
      some leg.stuck := by
  rw [plan, List.getElem?_append_right (by simp), List.length_replicate, Nat.add_sub_cancel_left,
    List.getElem?_append_right (by simp; omega), List.length_replicate, Nat.add_comm 1,
    Nat.sub_self, List.getElem?_cons_zero]

end Plan

theorem chat_ne_request (leg : Leg) : leg.chat ≠ leg.request := by cases leg <;> decide

theorem chat_ne_none (leg : Leg) : leg.chat ≠ .none := by cases leg <;> decide

theorem request_ne_none (leg : Leg) : leg.request ≠ .none := by cases leg <;> decide

theorem stuck_ne_none (leg : Leg) : leg.stuck ≠ .none := by cases leg <;> decide

theorem stuck_ne_chat (leg : Leg) : leg.stuck ≠ leg.chat := by cases leg <;> decide

theorem stuck_ne_request (leg : Leg) : leg.stuck ≠ leg.request := by cases leg <;> decide

theorem chatting_ne_stuck (leg : Leg) : leg.chatting ≠ .stuck := by cases leg <;> decide

theorem awaiting_ne_chatting (leg : Leg) : leg.awaiting ≠ leg.chatting := by cases leg <;> decide

theorem awaiting_ne_stuck (leg : Leg) : leg.awaiting ≠ .stuck := by cases leg <;> decide

/-! ## A tick of `AdvanceScenario` in a leg -/

/-- The state after a chat. -/
def sendChat (now : ℤ) (st : ScenarioState) : Leg → ScenarioState
  | lobby => { st with lobbyChatsSent := st.lobbyChatsSent + 1, lastActionTime := now }
  | room => { st with roomChatsSent := st.roomChatsSent + 1, lastActionTime := now }

theorem sendChat_phase (leg : Leg) (now : ℤ) (st : ScenarioState) :
    (leg.sendChat now st).phase = st.phase := by cases leg <;> rfl

theorem sendChat_chatsSent (leg : Leg) (now : ℤ) (st : ScenarioState) :
    leg.chatsSent (leg.sendChat now st) = leg.chatsSent st + 1 := by cases leg <;> rfl

theorem sendChat_lastActionTime (leg : Leg) (now : ℤ) (st : ScenarioState) :
    (leg.sendChat now st).lastActionTime = now := by cases leg <;> rfl

/-- The packet that opens a leg starts its chats, whatever the phase was. -/
theorem op_opens (cfg : ScenarioConfig) (st : ScenarioState) {op : Op} {leg : Leg} {start : ℤ}
    (hopens : op.opens = some (leg, start)) :
    (op.apply cfg st).phase = leg.chatting ∧ leg.chatsSent (op.apply cfg st) = 0 ∧
      (op.apply cfg st).lastActionTime = start := by
  cases op with
  | handleResLobbyEnter now =>
    cases hopens
    exact ⟨rfl, rfl, rfl⟩
  | handleNotiRoomEnter now own =>
    cases own with
    | true =>
      cases hopens
      exact ⟨rfl, rfl, rfl⟩
    | false => cases hopens
  | _ => cases hopens

section Tick

variable (cfg : ScenarioConfig) (now : ℤ) {st : ScenarioState} {leg : Leg}

theorem advanceScenario_chatting (hphase : st.phase = leg.chatting) :
    advanceScenario cfg now st =
      if leg.chatsSent st < leg.chatCount cfg ∧
          milliseconds (leg.chatIntervalMs cfg) ≤ now - st.lastActionTime then
        (leg.sendChat now st, leg.chat)
      else if leg.chatCount cfg ≤ leg.chatsSent st then
        ({ st with phase := leg.awaiting, phaseStartTime := now, actionRetries := 0 }, leg.request)
      else (st, .none) := by
  cases st
  cases hphase
  cases leg <;> rfl

theorem advanceScenario_awaiting (hphase : st.phase = leg.awaiting) :
    advanceScenario cfg now st = retryRoomAction cfg now st leg.request leg.stuck := by
  cases leg <;> rw [advanceScenario, hphase] <;> rfl

end Tick

end Leg

theorem advanceScenario_stuck (cfg : ScenarioConfig) (now : ℤ) {st : ScenarioState}
    (hphase : st.phase = .stuck) : advanceScenario cfg now st = (st, .none) := by
  rw [advanceScenario, hphase]

theorem advanceScenario_handshaking (cfg : ScenarioConfig) (now : ℤ) {st : ScenarioState}
    (hphase : st.phase = .handshaking) : advanceScenario cfg now st = (st, .none) := by
  rw [advanceScenario, hphase]

/-! ## The state of a leg and its actions so far -/

namespace Leg

section Position

variable (cfg : ScenarioConfig) (leg : Leg) (st : ScenarioState)

/-- The number of actions of the plan that are done. -/
def done : ℕ :=
  if st.phase = leg.chatting then (leg.chatsSent st).toNat
  else if st.phase = leg.awaiting then
    (leg.chatCount cfg).toNat + (st.actionRetries.toNat + 1)
  else (leg.plan cfg).length

/-- The last chat or request, where the leg itself counts as a chat when it is opened. -/
def last : ℤ × ScenarioAction :=
  if st.phase = leg.chatting then (st.lastActionTime, leg.chat)
  else (st.phaseStartTime, leg.request)

/-- The session is in the leg, with its counters in their bounds. -/
def Holds : Prop :=
  st.phase = leg.chatting ∧ 0 ≤ leg.chatsSent st ∧
      (leg.chatsSent st).toNat ≤ (leg.chatCount cfg).toNat ∨
    st.phase = leg.awaiting ∧ 0 ≤ st.actionRetries ∧
      st.actionRetries.toNat ≤ cfg.maxRoomActionRetries.toNat ∨
    st.phase = .stuck

/-- The leg was opened at `start`, and `trace` is what has been decided in it. -/
structure Follows (start : ℤ) (trace : List (ℤ × ScenarioAction)) : Prop where
  holds : leg.Holds cfg st
  done : trace.map Prod.snd = (leg.plan cfg).take (leg.done cfg st)
  last : st.phase ≠ .stuck → ((start, leg.chat) :: trace).getLast? = some (leg.last st)
  apart : ((start, leg.chat) :: trace).IsChain (leg.Apart cfg)

end Position

section Steps

variable {cfg : ScenarioConfig} {leg : Leg} {st st' : ScenarioState} {start now : ℤ}
  {trace : List (ℤ × ScenarioAction)}

theorem done_chatting (h : st.phase = leg.chatting) :
    leg.done cfg st = (leg.chatsSent st).toNat :=
  if_pos h

theorem done_awaiting (h : st.phase = leg.awaiting) :
    leg.done cfg st = (leg.chatCount cfg).toNat + (st.actionRetries.toNat + 1) := by
  rw [done, if_neg (h ▸ leg.awaiting_ne_chatting), if_pos h]

theorem done_stuck (h : st.phase = .stuck) : leg.done cfg st = (leg.plan cfg).length := by
  rw [done, if_neg (h ▸ leg.chatting_ne_stuck.symm), if_neg (h ▸ leg.awaiting_ne_stuck.symm)]

theorem last_chatting (h : st.phase = leg.chatting) :
    leg.last st = (st.lastActionTime, leg.chat) :=
  if_pos h

theorem last_awaiting (h : st.phase = leg.awaiting) :
    leg.last st = (st.phaseStartTime, leg.request) :=
  if_neg (h ▸ leg.awaiting_ne_chatting)

/-- A leg that has just been opened. -/
theorem Follows.opened (hphase : st.phase = leg.chatting) (hsent : leg.chatsSent st = 0) :
    leg.Follows cfg st st.lastActionTime [] where
  holds := .inl ⟨hphase, by omega, by omega⟩
  done := by rw [done_chatting hphase, hsent]; rfl
  last _ := by rw [last_chatting hphase]; rfl
  apart := .singleton _

/-- The next action of the plan is done, at a time that is late enough. -/
theorem Follows.snoc (h : leg.Follows cfg st start trace) {action : ScenarioAction}
    (hstuck : st.phase ≠ .stuck) (hholds : leg.Holds cfg st')
    (hnext : (leg.plan cfg)[leg.done cfg st]? = some action)
    (hdone : leg.done cfg st' = leg.done cfg st + 1)
    (hlast : st'.phase ≠ .stuck → leg.last st' = (now, action))
    (hapart : leg.Apart cfg (leg.last st) (now, action)) :
    leg.Follows cfg st' start (trace ++ [(now, action)]) where
  holds := hholds
  done := by
    obtain ⟨hlt, hget⟩ := List.getElem?_eq_some_iff.mp hnext
    rw [List.map_append, h.done, hdone, List.take_succ_eq_append_getElem hlt, hget]
    rfl
  last hne := by
    rw [hlast hne, ← List.cons_append, List.getLast?_append]
    rfl
  apart := by
    rw [← List.cons_append]
    refine h.apart.append (.singleton _) fun a ha b hb => ?_
    rw [h.last hstuck] at ha
    cases ha
    cases hb
    exact hapart

/-- A tick in the phase of the chats. -/
theorem Follows.chatting (h : leg.Follows cfg st start trace) (hphase : st.phase = leg.chatting)
    (hsent : 0 ≤ leg.chatsSent st)
    (hcount : (leg.chatsSent st).toNat ≤ (leg.chatCount cfg).toNat) :
    leg.Follows cfg ((Op.advanceScenario now).apply cfg st) start
      (trace ++ (Op.advanceScenario now).decides cfg st) := by
  have hstuck : st.phase ≠ .stuck := hphase ▸ leg.chatting_ne_stuck
  rw [Op.apply, Op.decides, advanceScenario_chatting cfg now hphase]
  by_cases hsend : leg.chatsSent st < leg.chatCount cfg ∧
      milliseconds (leg.chatIntervalMs cfg) ≤ now - st.lastActionTime
  · have hphase' : (leg.sendChat now st).phase = leg.chatting := by rw [sendChat_phase, hphase]
    have hsent' := leg.sendChat_chatsSent now st
    have hholds : leg.Holds cfg (leg.sendChat now st) :=
      .inl ⟨hphase', by omega, by omega⟩
    rw [if_pos hsend, if_neg leg.chat_ne_none]
    refine h.snoc hstuck hholds ?_ ?_ (fun _ => ?_) ?_
    · rw [done_chatting hphase]
      exact leg.plan_chat cfg (by omega)
    · rw [done_chatting hphase, done_chatting hphase', hsent', Int.toNat_add hsent zero_le_one]
      rfl
    · rw [last_chatting hphase', sendChat_lastActionTime]
    · rw [last_chatting hphase]
      exact ⟨fun _ _ => hsend.2, fun hrequest => absurd hrequest leg.chat_ne_request⟩
  rw [if_neg hsend]
  by_cases hdone : leg.chatCount cfg ≤ leg.chatsSent st
  · have hfull : (leg.chatsSent st).toNat = (leg.chatCount cfg).toNat := by omega
    rw [if_pos hdone, if_neg leg.request_ne_none]
    refine h.snoc hstuck (.inr (.inl ⟨rfl, le_rfl, Nat.zero_le _⟩)) ?_ ?_ (fun _ => ?_) ?_
    · rw [done_chatting hphase, hfull]
      exact leg.plan_request cfg (Nat.zero_le _)
    · rw [done_chatting hphase, done_awaiting rfl, hfull]
      rfl
    · exact last_awaiting rfl
    · rw [last_chatting hphase]
      exact ⟨fun _ hchat => absurd hchat.symm leg.chat_ne_request,
        fun hrequest => absurd hrequest leg.chat_ne_request⟩
  · rw [if_neg hdone, if_pos rfl, List.append_nil]
    exact h

/-- A tick in the phase of the request. -/
theorem Follows.awaiting (h : leg.Follows cfg st start trace) (hphase : st.phase = leg.awaiting)
    (hretries : 0 ≤ st.actionRetries)
    (hmax : st.actionRetries.toNat ≤ cfg.maxRoomActionRetries.toNat) :
    leg.Follows cfg ((Op.advanceScenario now).apply cfg st) start
      (trace ++ (Op.advanceScenario now).decides cfg st) := by
  have hstuck : st.phase ≠ .stuck := hphase ▸ leg.awaiting_ne_stuck
  rw [Op.apply, Op.decides, advanceScenario_awaiting cfg now hphase, retryRoomAction]
  by_cases hdue : milliseconds cfg.roomActionTimeoutMs ≤ now - st.phaseStartTime
  · rw [if_pos hdue]
    by_cases hlimit : cfg.maxRoomActionRetries ≤ st.actionRetries
    · have hfull : st.actionRetries.toNat = cfg.maxRoomActionRetries.toNat := by omega
      rw [if_pos hlimit, if_neg leg.stuck_ne_none]
      refine h.snoc hstuck (.inr (.inr rfl)) ?_ ?_ (fun hne => absurd rfl hne) ?_
      · rw [done_awaiting hphase, hfull]
        exact leg.plan_stuck cfg
      · rw [done_awaiting hphase, done_stuck rfl, hfull, length_plan]
        rfl
      · rw [last_awaiting hphase]
        exact ⟨fun _ hchat => absurd hchat leg.stuck_ne_chat,
          fun _ hrequest => absurd hrequest leg.stuck_ne_request⟩
    · have hphase' : ({ st with
          actionRetries := st.actionRetries + 1, phaseStartTime := now } : ScenarioState).phase =
            leg.awaiting := hphase
      have hretries' : (st.actionRetries + 1).toNat = st.actionRetries.toNat + 1 :=
        Int.toNat_add hretries zero_le_one
      rw [if_neg hlimit, if_neg leg.request_ne_none]
      refine h.snoc hstuck (.inr (.inl ⟨hphase, ?_, ?_⟩)) ?_ ?_ (fun _ => ?_) ?_
      · exact Int.add_nonneg hretries zero_le_one
      · exact hretries'.trans_le (by omega)
      · rw [done_awaiting hphase]
        exact leg.plan_request cfg (by omega)
      · rw [done_awaiting hphase, done_awaiting hphase', hretries']
        rfl
      · exact last_awaiting hphase
      · rw [last_awaiting hphase]
        exact ⟨fun hchat => absurd hchat.symm leg.chat_ne_request, fun _ _ => hdue⟩
  · rw [if_neg hdue, if_pos rfl, List.append_nil]
    exact h

/-- A call that opens no leg. -/
theorem Follows.step (h : leg.Follows cfg st start trace) {op : Op} (hopens : op.opens = none) :
    leg.Follows cfg (op.apply cfg st) start (trace ++ op.decides cfg st) := by
  by_cases htick : ∃ now, op = .advanceScenario now
  · obtain ⟨now, rfl⟩ := htick
    rcases h.holds with ⟨hphase, hsent, hcount⟩ | ⟨hphase, hretries, hmax⟩ | hphase
    · exact h.chatting hphase hsent hcount
    · exact h.awaiting hphase hretries hmax
    · rw [Op.apply, Op.decides, advanceScenario_stuck cfg now hphase, if_pos rfl, List.append_nil]
      exact h
  · obtain ⟨hdecides, flight, sent, last, happly⟩ :=
      Op.apply_ping cfg st hopens fun now hop => htick ⟨now, hop⟩
    rw [hdecides, happly, List.append_nil]
    -- nothing above reads the members of the pings
    cases leg <;> exact ⟨h.holds, h.done, h.last, h.apart⟩

/-- A run without a packet that opens a leg. -/
theorem Follows.run (h : leg.Follows cfg st start trace) {ops : List Op}
    (hopens : ∀ op ∈ ops, op.opens = none) :
    leg.Follows cfg (after cfg st ops) start (trace ++ decided cfg st ops) := by
  induction ops generalizing st trace with
  | nil => simpa [after, decided] using h
  | cons op ops ih =>
    rw [decided, ← List.append_assoc]
    exact ih (h.step (hopens op List.mem_cons_self))
      fun op' hop' => hopens op' (List.mem_cons_of_mem _ hop')

/-- The packet that opens the leg. -/
theorem Follows.of_opens (cfg : ScenarioConfig) (st : ScenarioState) {op : Op}
    (hopens : op.opens = some (leg, start)) : leg.Follows cfg (op.apply cfg st) start [] := by
  obtain ⟨hphase, hsent, hstart⟩ := op_opens cfg st hopens
  exact hstart ▸ Follows.opened hphase hsent

end Steps

end Leg

/-- Before the first packet that opens a leg the session is in the handshake. -/
theorem decided_handshaking (cfg : ScenarioConfig) {st : ScenarioState}
    (hphase : st.phase = .handshaking) {ops : List Op} (hopens : ∀ op ∈ ops, op.opens = none) :
    decided cfg st ops = [] := by
  induction ops generalizing st with
  | nil => rfl
  | cons op ops ih =>
    have hstep : op.decides cfg st = [] ∧ (op.apply cfg st).phase = .handshaking := by
      by_cases htick : ∃ now, op = .advanceScenario now
      · obtain ⟨now, rfl⟩ := htick
        rw [Op.decides, Op.apply, advanceScenario_handshaking cfg now hphase]
        exact ⟨if_pos rfl, hphase⟩
      · obtain ⟨hdecides, flight, sent, last, happly⟩ :=
          Op.apply_ping cfg st (hopens op List.mem_cons_self) fun now hop => htick ⟨now, hop⟩
        rw [happly]
        exact ⟨hdecides, hphase⟩
    rw [decided, hstep.1, List.nil_append]
    exact ih hstep.2 fun op' hop' => hopens op' (List.mem_cons_of_mem _ hop')

/-- Between two packets that open a leg the actions are a prefix of the plan of the leg that the
first one opens, with the chats and the requests far enough apart, where the clock of the chats
starts when the leg is opened; before the first such packet there are none. -/
theorem scenario_action_traces (cfg : ScenarioConfig) (before during : List Op)
    (hduring : ∀ op ∈ during, op.opens = none) :
    decided cfg {} during = [] ∧
      ∀ opening leg start, opening.opens = some (leg, start) →
        let trace := decided cfg (after cfg {} (before ++ [opening])) during
        trace.map Prod.snd <+: leg.plan cfg ∧
          ((start, leg.chat) :: trace).IsChain (leg.Apart cfg) := by
  refine ⟨decided_handshaking cfg rfl hduring, fun opening leg start hopens => ?_⟩
  rw [after_append]
  have h := (Leg.Follows.of_opens cfg (after cfg {} before) hopens).run hduring
  exact ⟨h.done ▸ List.take_prefix _ _, h.apart⟩

/-- Ticks of `AdvanceScenario` at the given seconds. -/
def ticks (seconds : List ℤ) : List Op :=
  seconds.map fun n => .advanceScenario (milliseconds (1000 * n))

/-- A session that enters the lobby, where the room never answers. -/
theorem scenario_action_traces_lobby :
    (decided {} (after {} {} [.handleResLobbyEnter 0]) (ticks [1, 2, 3, 8, 13, 18, 23])).map
        Prod.snd = Leg.lobby.plan {} ∧
      (decided {} (after {} {} ([] ++ [.handleResLobbyEnter 0]))
          (ticks [1, 2, 3, 8, 13, 18, 23])).map Prod.snd <+: Leg.lobby.plan {} :=
  ⟨by decide +kernel,
    ((scenario_action_traces {} [] (ticks [1, 2, 3, 8, 13, 18, 23]) (by decide +kernel)).2
      (.handleResLobbyEnter 0) .lobby 0 rfl).1⟩

/-! ## Stuck sessions -/

section Stuck

variable (cfg : ScenarioConfig) (st : ScenarioState) (ops : List Op)

/-- Once the session is stuck it stays so and nothing is decided for it any more. -/
def StuckIsFinal : Prop :=
  ∀ before during later, ops = before ++ during ++ later →
    (after cfg st before).phase = .stuck →
      (after cfg st (before ++ during)).phase = .stuck ∧
        decided cfg (after cfg st before) during = []

/-- The number of calls of `RecordStuck`. -/
def stuckRecords : ℕ := (decided cfg st ops).countP fun action => action.2.recordsStuck

/-- No packet that opens a leg arrives at a stuck session. -/
def NoLateAnswer : Prop :=
  ∀ before op later, ops = before ++ op :: later →
    (after cfg st before).phase = .stuck → op.opens = none

variable {cfg st ops}

/-- A stuck session under a call that opens no leg. -/
theorem stuck_step (cfg : ScenarioConfig) (hphase : st.phase = .stuck) {op : Op}
    (hopens : op.opens = none) :
    op.decides cfg st = [] ∧ (op.apply cfg st).phase = .stuck := by
  by_cases htick : ∃ now, op = .advanceScenario now
  · obtain ⟨now, rfl⟩ := htick
    rw [Op.decides, Op.apply, advanceScenario_stuck cfg now hphase]
    exact ⟨if_pos rfl, hphase⟩
  · obtain ⟨hdecides, flight, sent, last, happly⟩ :=
      Op.apply_ping cfg st hopens fun now hop => htick ⟨now, hop⟩
    rw [happly]
    exact ⟨hdecides, hphase⟩

theorem advanceScenario_recordsStuck (cfg : ScenarioConfig) (now : ℤ) (st : ScenarioState)
    (hrecords : (advanceScenario cfg now st).2.recordsStuck = true) :
    (advanceScenario cfg now st).1.phase = .stuck := by
  revert hrecords
  unfold advanceScenario retryRoomAction
  repeat' split
  all_goals first | exact fun _ => rfl | exact fun hrecords => absurd hrecords Bool.false_ne_true

/-- A call that records the session as stuck leaves it stuck. -/
theorem records_step (cfg : ScenarioConfig) (st : ScenarioState) (op : Op) :
    stuckRecords cfg st [op] = 0 ∨
      stuckRecords cfg st [op] = 1 ∧ (op.apply cfg st).phase = .stuck := by
  cases op with
  | advanceScenario now =>
    cases hrecords : (advanceScenario cfg now st).2.recordsStuck with
    | false =>
      left
      simp only [stuckRecords, decided, Op.decides, List.append_nil]
      split_ifs
      · rfl
      · simp [hrecords]
    | true =>
      have hne : (advanceScenario cfg now st).2 ≠ .none := by
        intro hnone
        rw [hnone] at hrecords
        cases hrecords
      refine .inr ⟨?_, advanceScenario_recordsStuck cfg now st hrecords⟩
      simp only [stuckRecords, decided, Op.decides, List.append_nil, if_neg hne]
      simp [hrecords]
  | _ => exact .inl rfl

theorem stuckRecords_cons (op : Op) :
    stuckRecords cfg st (op :: ops) =
      stuckRecords cfg st [op] + stuckRecords cfg (op.apply cfg st) ops := by
  simp only [stuckRecords, decided, List.append_nil, List.countP_append]

/-- A part of a run without late answers. -/
theorem NoLateAnswer.part (before during later : List Op)
    (h : NoLateAnswer cfg st (before ++ during ++ later)) :
    NoLateAnswer cfg (after cfg st before) during := by
  intro before' op later' hduring hphase
  refine h (before ++ before') op (later' ++ later) ?_ ?_
  · rw [hduring]
    simp only [List.append_assoc, List.cons_append]
  · rwa [after_append]

theorem NoLateAnswer.tail {op : Op} (h : NoLateAnswer cfg st (op :: ops)) :
    NoLateAnswer cfg (op.apply cfg st) ops :=
  .part [op] ops [] (by simpa using h)

/-- A stuck session under a run without late answers. -/
theorem NoLateAnswer.stuck_run (h : NoLateAnswer cfg st ops) (hphase : st.phase = .stuck) :
    (after cfg st ops).phase = .stuck ∧ decided cfg st ops = [] := by
  induction ops generalizing st with
  | nil => exact ⟨hphase, rfl⟩
  | cons op ops ih =>
    obtain ⟨hdecides, hphase'⟩ := stuck_step cfg hphase (h [] op ops rfl hphase)
    obtain ⟨hafter, hdecided⟩ := ih h.tail hphase'
    exact ⟨hafter, by rw [decided, hdecides, hdecided, List.append_nil]⟩

/-- Without late answers a session is recorded as stuck at most once. -/
theorem NoLateAnswer.stuckRecords_le (h : NoLateAnswer cfg st ops) :
    stuckRecords cfg st ops ≤ 1 := by
  induction ops generalizing st with
  | nil => exact Nat.zero_le _
  | cons op ops ih =>
    rw [stuckRecords_cons]
    rcases records_step cfg st op with hnone | ⟨hone, hphase⟩
    · rw [hnone, Nat.zero_add]
      exact ih h.tail
    · have hrest : stuckRecords cfg (op.apply cfg st) ops = 0 := by
        rw [stuckRecords, (h.tail.stuck_run hphase).2, List.countP_nil]
      rw [hone, hrest]

end Stuck

/-- A session is stuck for good, and is recorded as stuck at most once, exactly if no
`Res_LobbyEnter` and no own `Noti_RoomEnter` arrives while it is stuck. -/
theorem stuck_final_iff (cfg : ScenarioConfig) (ops : List Op) :
    StuckIsFinal cfg {} ops ∧ stuckRecords cfg {} ops ≤ 1 ↔ NoLateAnswer cfg {} ops := by
  constructor
  · rintro ⟨hfinal, -⟩ before op later hops hphase
    cases hopens : op.opens with
    | none => rfl
    | some opened =>
      obtain ⟨hstay, -⟩ := hfinal before [op] later (by simpa using hops) hphase
      rw [after_append] at hstay
      have hleave := (Leg.op_opens cfg (after cfg {} before) hopens).1
      exact absurd (hleave.symm.trans hstay) opened.1.chatting_ne_stuck
  · intro h
    refine ⟨fun before during later hops hphase => ?_, h.stuckRecords_le⟩
    rw [after_append]
    exact (NoLateAnswer.part before during later (hops ▸ h)).stuck_run hphase

/-- The room answers after the last retry: the session is stuck, goes on in the room, and is
recorded as stuck once more. -/
theorem stuck_twice :
    let early := .handleResLobbyEnter 0 :: ticks [1, 2, 3, 8, 13, 18, 23]
    let late := .handleNotiRoomEnter (milliseconds 24000) true ::
      ticks [25, 26, 27, 28, 29, 30, 35, 40, 45, 50]
    (after {} {} early).phase = .stuck ∧
      (decided {} (after {} {} early) late).map Prod.snd = Leg.room.plan {} ∧
      stuckRecords {} {} (early ++ late) = 2 := by
  decide +kernel

/-! ## The sessions of the registry -/

section Registry

variable {S : Type*} [DecidableEq S] {cfg : ScenarioConfig} {s s' : PingMetrics.State S}

/-- Every state in the registry is the one after a run since its registration. -/
def Registered (cfg : ScenarioConfig) (s : PingMetrics.State S) : Prop :=
  ∀ session e, s.entry session = some e → ∃ ops, e.state = after cfg {} ops

theorem Registered.update (h : Registered cfg s) (session : S) {entry : Option PingMetrics.Entry}
    (hentry : ∀ e, entry = some e → ∃ ops, e.state = after cfg {} ops) :
    ∀ session' e, Function.update s.entry session entry session' = some e →
      ∃ ops, e.state = after cfg {} ops := by
  intro session' e hsome
  by_cases heq : session' = session
  · subst heq
    rw [Function.update_self] at hsome
    exact hentry e hsome
  · rw [Function.update_of_ne heq] at hsome
    exact h session' e hsome

/-- `Apply` is one more call. -/
theorem Registered.apply (h : Registered cfg s) (session : S)
    {f : ScenarioState → ScenarioState × PingMetrics.Decision} (op : Op)
    (hf : ∀ st, (f st).1 = op.apply cfg st) : Registered cfg (s.apply session f) := by
  unfold PingMetrics.State.apply
  cases hentry : s.entry session with
  | none => exact h
  | some e =>
    refine h.update session ?_
    rintro e' ⟨⟩
    obtain ⟨ops, hops⟩ := h session e hentry
    exact ⟨ops ++ [op], by rw [hf, after_append, ← hops]; rfl⟩

theorem Registered.proceed (h : Registered cfg s) (call : PingMetrics.Call S) :
    Registered cfg (s.proceed cfg call) := by
  cases call with
  | advancePing session now => exact h.apply session (.advancePing now) fun _ => rfl
  | advanceScenario session now => exact h.apply session (.advanceScenario now) fun _ => rfl
  | handleResTest session now => exact h.apply session .handleResTest fun _ => rfl
  | handleResLobbyEnter session now =>
    exact h.apply session (.handleResLobbyEnter now) fun _ => rfl
  | handleNotiRoomEnter session now =>
    exact h.apply session (.handleNotiRoomEnter now true) fun _ => rfl
  | _ => exact h

theorem Registered.step (h : Registered cfg s) {op : PingMetrics.Op S}
    (ht : PingMetrics.step cfg s op = some s') : Registered cfg s' := by
  cases op with
  | register session =>
    cases ht
    refine h.update session ?_
    rintro e ⟨⟩
    exact ⟨[], rfl⟩
  | unregister session =>
    cases ht
    refine h.update session ?_
    rintro e ⟨⟩
  | call call =>
    obtain ⟨-, ⟨⟩⟩ := Option.ite_none_right_eq_some.1 ht
    exact h
  | proceed call =>
    obtain ⟨-, ⟨⟩⟩ := Option.ite_none_right_eq_some.1 ht
    exact Registered.proceed (s := { s with calls := s.calls.erase call }) h call

/-- The runs are all there is: whatever the threads of the stress client do, the state of a
registered session is the one after some run. -/
theorem registered_of_reachable (reach : (PingMetrics.system S cfg).Reachable s) :
    Registered cfg s := by
  refine reach.invariant (P := Registered cfg) ?_ fun _ _ _ h ht => h.step ht
  rintro s rfl session e hsome
  cases hsome

end Registry

end ScenarioTraces

end StressTest

end DhNet
