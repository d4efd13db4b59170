import DhNet.Game.Server
import DhNet.Lib.System
import Mathlib.Data.Finset.Union

/-!
# Lobby assignment

`AssignLobby` over any number of lobbies, first by itself and then with other calls and releases of
slots between its accesses.

* `Fullest`: the earliest lobby with the most players among those that are not full.
* `assignLobby`: a call that nobody interferes with, for any spurious failures of its exchanges.
* `Alone`: where such a call can be, and what it has found out; `Alone.next` is one access.
* `Assignment.system`: calls of `AssignLobby` in any number of threads and releases of slots, with
  the lobbies that each call has met full.
* `lobby_assignment`: what a call returns and reserves, alone and among others.
-/

namespace DhNet

namespace Server

/-- `GetPlayerCount`. -/
def getPlayerCount (availableSlots : ℤ) : ℤ := maxLobbyPlayers - availableSlots

section Alone

variable {lobbies : ℕ} {availableSlots : ℕ → ℤ} {search : Search} {pc : ReservePc} {i b : ℕ}

/-! ## What a call alone is for -/

/-- Lobby `b` is the earliest one with the most players among those of the first `n` that are not
full. -/
structure Fullest (n : ℕ) (availableSlots : ℕ → ℤ) (b : ℕ) : Prop where
  lt : b < n
  free : 0 < availableSlots b
  most : ∀ j < n, 0 < availableSlots j →
    getPlayerCount (availableSlots j) ≤ getPlayerCount (availableSlots b)
  earliest : ∀ j < b, 0 < availableSlots j →
    getPlayerCount (availableSlots j) < getPlayerCount (availableSlots b)

/-- What a call returns and leaves in the counters: `nullptr` and no change if every lobby is full,
and otherwise the fullest lobby that is not, with one slot less. -/
def Assigned (lobbies : ℕ) (availableSlots : ℕ → ℤ) : (ℕ → ℤ) × Option ℕ → Prop
  | (slots, none) => (∀ i < lobbies, availableSlots i ≤ 0) ∧ slots = availableSlots
  | (slots, some i) =>
      i < lobbies ∧ 0 < availableSlots i ∧
      slots = Function.update availableSlots i (availableSlots i - 1) ∧
      ((∀ j < lobbies, availableSlots j ≤ maxLobbyPlayers) → Fullest lobbies availableSlots i)

/-- The accesses of a call that nobody interferes with, one for each entry of `spurious`, which says
whether an exchange at that point fails spuriously. -/
def assignLobby (lobbies : ℕ) (availableSlots : ℕ → ℤ) :
    List Bool → Search → Option ((ℕ → ℤ) × Option ℕ)
  | [], _ => none
  | spurious :: rest, search =>
      match search.next lobbies availableSlots spurious with
      | .again search => assignLobby lobbies availableSlots rest search
      | .reserved i => some (Function.update availableSlots i (availableSlots i - 1), some i)
      | .failed => some (availableSlots, none)

/-! ## One access -/

/-- The counters do not change between a load and the exchange that follows it. -/
def ReservePc.Alone (availableSlots : ℤ) : ReservePc → Prop
  | .load => True
  | .exchange avail => avail = availableSlots ∧ 0 < avail

/-- What a call alone knows of the counters. -/
def Search.Alone (lobbies : ℕ) (availableSlots : ℕ → ℤ) : Search → Prop
  | .count i (some b) bestCount =>
      i ≤ lobbies ∧ Fullest i availableSlots b ∧ bestCount = getPlayerCount (availableSlots b) ∧
      0 ≤ bestCount
  | .count i none bestCount =>
      i ≤ lobbies ∧ bestCount = -1 ∧
      ∀ j < i, 0 < availableSlots j → maxLobbyPlayers < availableSlots j
  | .best i pc => Fullest lobbies availableSlots i ∧ pc.Alone (availableSlots i)
  | .scan i pc =>
      i ≤ lobbies ∧ pc.Alone (availableSlots i) ∧ (∀ j < i, availableSlots j ≤ 0) ∧
      ∀ j < lobbies, 0 < availableSlots j → maxLobbyPlayers < availableSlots j

/-- A bound on the accesses that are left when no exchange fails spuriously. -/
def Search.left (lobbies : ℕ) : Search → ℕ
  | .count i _ _ => lobbies - i + (2 * lobbies + 5)
  | .best _ .load => 2 * lobbies + 4
  | .best _ (.exchange _) => 2 * lobbies + 3
  | .scan i .load => 2 * (lobbies - i) + 2
  | .scan i (.exchange _) => 2 * (lobbies - i) + 1

/-- What an access may lead to. -/
def SearchOutcome.Alone (lobbies : ℕ) (availableSlots : ℕ → ℤ) (spurious : Bool)
    (search : Search) : SearchOutcome → Prop
  | .again search' =>
      search'.Alone lobbies availableSlots ∧
      (spurious = false → search'.left lobbies < search.left lobbies)
  | .reserved i =>
      i < lobbies ∧ 0 < availableSlots i ∧
      ((∀ j < lobbies, availableSlots j ≤ maxLobbyPlayers) → Fullest lobbies availableSlots i)
  | .failed => ∀ i < lobbies, availableSlots i ≤ 0

/-- A lobby that beats the best one so far is the fullest one so far. -/
theorem Fullest.succ (free : 0 < availableSlots i)
    (beats : ∀ j < i, 0 < availableSlots j →
      getPlayerCount (availableSlots j) < getPlayerCount (availableSlots i)) :
    Fullest (i + 1) availableSlots i where
  lt := i.lt_succ_self
  free := free
  most j hj hfree := by
    rcases Nat.lt_succ_iff_lt_or_eq.1 hj with hlt | rfl
    · exact (beats j hlt hfree).le
    · exact le_rfl
  earliest := beats

/-- A lobby that does not beat the best one so far leaves it the fullest. -/
theorem Fullest.keep (h : Fullest i availableSlots b)
    (hi : 0 < availableSlots i →
      getPlayerCount (availableSlots i) ≤ getPlayerCount (availableSlots b)) :
    Fullest (i + 1) availableSlots b where
  lt := h.lt.trans i.lt_succ_self
  free := h.free
  most j hj hfree := by
    rcases Nat.lt_succ_iff_lt_or_eq.1 hj with hlt | rfl
    · exact h.most j hlt hfree
    · exact hi hfree
  earliest := h.earliest

/-- `TryReserveSlot` alone: a load finds the lobby full or goes on to the exchange, and an exchange
fails only spuriously. -/
theorem ReservePc.Alone.next {slots : ℤ} (alone : pc.Alone slots) (spurious : Bool) :
    (pc = .load ∧ slots ≤ 0 ∧ tryReserveSlot slots spurious pc = .full) ∨
    (pc = .load ∧ 0 < slots ∧ tryReserveSlot slots spurious pc = .again (.exchange slots)) ∨
    (∃ avail, pc = .exchange avail ∧ 0 < slots ∧ spurious = true ∧
      tryReserveSlot slots spurious pc = .again .load) ∨
    (0 < slots ∧ tryReserveSlot slots spurious pc = .reserved) := by
  cases pc with
  | load =>
    by_cases hfull : slots ≤ 0
    · exact .inl ⟨rfl, hfull, if_pos hfull⟩
    · exact .inr (.inl ⟨rfl, not_le.1 hfull, if_neg hfull⟩)
  | exchange avail =>
    obtain ⟨rfl, hfree⟩ := alone
    cases spurious with
    | true => exact .inr (.inr (.inl ⟨avail, rfl, hfree, rfl, by simp [tryReserveSlot]⟩))
    | false => exact .inr (.inr (.inr ⟨hfree, by simp [tryReserveSlot]⟩))

/-- One iteration of the first loop. -/
theorem Search.Alone.next_count {fullest : Option ℕ} {bestCount : ℤ} (hi : i < lobbies)
    (alone : (Search.count i fullest bestCount).Alone lobbies availableSlots) (spurious : Bool) :
    ∃ fullest' bestCount', (Search.count i fullest bestCount).next lobbies availableSlots spurious =
        .again (.count (i + 1) fullest' bestCount') ∧
      (Search.count (i + 1) fullest' bestCount').Alone lobbies availableSlots := by
  by_cases hbest : maxLobbyPlayers - availableSlots i < maxLobbyPlayers ∧
      bestCount < maxLobbyPlayers - availableSlots i
  · refine ⟨some i, maxLobbyPlayers - availableSlots i, ?_, hi, ?_, rfl, ?_⟩
    · simp only [Search.next, if_pos hi, if_pos hbest]
    · refine Fullest.succ (by omega) fun j hj hfree => ?_
      cases fullest with
      | none =>
        obtain ⟨-, rfl, hover⟩ := alone
        have hj' := hover j hj hfree
        simp only [getPlayerCount]
        omega
      | some b =>
        obtain ⟨-, hb, rfl, -⟩ := alone
        exact (hb.most j hj hfree).trans_lt hbest.2
    · cases fullest with
      | none =>
        obtain ⟨-, rfl, -⟩ := alone
        omega
      | some b =>
        obtain ⟨-, -, -, hcount⟩ := alone
        omega
  · refine ⟨fullest, bestCount, ?_, ?_⟩
    · simp only [Search.next, if_pos hi, if_neg hbest]
    · cases fullest with
      | none =>
        obtain ⟨-, rfl, hover⟩ := alone
        refine ⟨hi, rfl, fun j hj hfree => ?_⟩
        rcases Nat.lt_succ_iff_lt_or_eq.1 hj with hlt | rfl
        · exact hover j hlt hfree
        · omega
      | some b =>
        obtain ⟨-, hb, rfl, hcount⟩ := alone
        refine ⟨hi, hb.keep fun hfree => ?_, rfl, hcount⟩
        simp only [getPlayerCount] at hbest ⊢
        omega

/-- What one access of a call alone leads to. -/
theorem Search.Alone.next (alone : search.Alone lobbies availableSlots) (spurious : Bool) :
    (search.next lobbies availableSlots spurious).Alone lobbies availableSlots spurious search := by
  cases search with
  | count i fullest bestCount =>
    by_cases hi : i < lobbies
    · obtain ⟨fullest', bestCount', hnext, halone⟩ := alone.next_count hi spurious
      rw [hnext]
      exact ⟨halone, fun _ => by simp only [Search.left]; omega⟩
    · cases fullest with
      | none =>
        obtain ⟨hle, -, hover⟩ := alone
        obtain rfl : i = lobbies := by omega
        simp only [Search.next, if_neg hi]
        exact ⟨⟨Nat.zero_le _, trivial, nofun, hover⟩, fun _ => by simp only [Search.left]; omega⟩
      | some b =>
        obtain ⟨hle, hb, -⟩ := alone
        obtain rfl : i = lobbies := by omega
        simp only [Search.next, if_neg hi]
        exact ⟨⟨hb, trivial⟩, fun _ => by simp only [Search.left]; omega⟩
  | best i pc =>
    obtain ⟨hb, hpc⟩ := alone
    simp only [Search.next]
    rcases hpc.next spurious with ⟨-, hfull, -⟩ | ⟨rfl, hfree, h⟩ | ⟨avail, rfl, hfree, rfl, h⟩ |
      ⟨hfree, h⟩
    · exact absurd hb.free (not_lt.2 hfull)
    · rw [h]
      exact ⟨⟨hb, rfl, hfree⟩, fun _ => by simp only [Search.left]; omega⟩
    · rw [h]
      exact ⟨⟨hb, trivial⟩, nofun⟩
    · rw [h]
      exact ⟨hb.lt, hfree, fun _ => hb⟩
  | scan i pc =>
    obtain ⟨hle, hpc, hfull, hover⟩ := alone
    by_cases hi : i < lobbies
    · simp only [Search.next, if_pos hi]
      rcases hpc.next spurious with ⟨rfl, hslots, h⟩ | ⟨rfl, hfree, h⟩ |
        ⟨avail, rfl, hfree, rfl, h⟩ | ⟨hfree, h⟩
      · rw [h]
        refine ⟨⟨hi, trivial, fun j hj => ?_, hover⟩, fun _ => by simp only [Search.left]; omega⟩
        rcases Nat.lt_succ_iff_lt_or_eq.1 hj with hlt | rfl
        · exact hfull j hlt
        · exact hslots
      · rw [h]
        exact ⟨⟨hle, ⟨rfl, hfree⟩, hfull, hover⟩, fun _ => by simp only [Search.left]; omega⟩
      · rw [h]
        exact ⟨⟨hle, trivial, hfull, hover⟩, nofun⟩
      · rw [h]
        exact ⟨hi, hfree, fun hcap => absurd (hover i hi hfree) (not_lt.2 (hcap i hi))⟩
    · simp only [Search.next, if_neg hi]
      exact fun j hj => hfull j (by omega)

theorem Search.Alone.start (lobbies : ℕ) (availableSlots : ℕ → ℤ) :
    (Search.start .lobby).Alone lobbies availableSlots :=
  ⟨Nat.zero_le _, rfl, nofun⟩

/-! ## Whole calls -/

/-- A call alone that returns has done what it is for. -/
theorem Search.Alone.assigned (alone : search.Alone lobbies availableSlots) {spurious : List Bool}
    {result : (ℕ → ℤ) × Option ℕ}
    (h : assignLobby lobbies availableSlots spurious search = some result) :
    Assigned lobbies availableSlots result := by
  induction spurious generalizing search with
  | nil => exact absurd h nofun
  | cons b rest ih =>
    have hnext := alone.next b
    rw [assignLobby] at h
    cases houtcome : search.next lobbies availableSlots b with
    | again search' =>
      rw [houtcome] at h hnext
      exact ih hnext.1 h
    | reserved i =>
      rw [houtcome] at h hnext
      obtain rfl := Option.some.inj h
      exact ⟨hnext.1, hnext.2.1, rfl, hnext.2.2⟩
    | failed =>
      rw [houtcome] at h hnext
      obtain rfl := Option.some.inj h
      exact ⟨hnext, rfl⟩

/-- A call alone returns once its exchanges have stopped to fail spuriously. -/
theorem Search.Alone.returns (alone : search.Alone lobbies availableSlots) (spurious : List Bool) :
    ∃ accesses, (assignLobby lobbies availableSlots
      (spurious ++ List.replicate accesses false) search).isSome = true := by
  induction spurious generalizing search with
  | nil =>
    -- without spurious failures every access lowers the bound
    induction hleft : search.left lobbies using Nat.strong_induction_on generalizing search with
    | h left ih =>
      have hnext := alone.next false
      cases houtcome : search.next lobbies availableSlots false with
      | again search' =>
        rw [houtcome] at hnext
        obtain ⟨accesses, h⟩ := ih _ (hleft ▸ hnext.2 rfl) hnext.1 rfl
        refine ⟨accesses + 1, ?_⟩
        simpa only [List.nil_append, List.replicate_succ, assignLobby, houtcome] using h
      | reserved i => exact ⟨1, by simp [assignLobby, houtcome]⟩
      | failed => exact ⟨1, by simp [assignLobby, houtcome]⟩
  | cons b rest ih =>
    have hnext := alone.next b
    cases houtcome : search.next lobbies availableSlots b with
    | again search' =>
      rw [houtcome] at hnext
      obtain ⟨accesses, h⟩ := ih hnext.1
      exact ⟨accesses, by simpa only [List.cons_append, assignLobby, houtcome] using h⟩
    | reserved i => exact ⟨0, by simp [assignLobby, houtcome]⟩
    | failed => exact ⟨0, by simp [assignLobby, houtcome]⟩

end Alone

/-! ## Calls among others -/

namespace Assignment

/-- A call that has returned: its result, the lobbies it has taken a slot of, and the lobbies that
had no free slot at some moment between its start and its return. -/
structure Return where
  result : Option ℕ
  taken : List ℕ
  metFull : Finset ℕ

/-- The counters, the calls in progress with what they have taken and met so far, and what has
happened before. -/
structure State (T : Type*) where
  availableSlots : ℕ → ℤ
  call : T → Option Search
  taken : T → List ℕ
  metFull : T → Finset ℕ
  returns : List Return
  releases : List ℕ

/-- A thread calls `AssignLobby`, a call makes its next access, or a slot is released. -/
inductive Op (T : Type*) where
  | assignLobby (thread : T)
  | next (thread : T) (spurious : Bool)
  | releaseReservedSlot (lobby : ℕ)

/-- The lobbies that have no free slot now. -/
def fullNow (lobbies : ℕ) (availableSlots : ℕ → ℤ) : Finset ℕ :=
  (Finset.range lobbies).filter fun i => availableSlots i ≤ 0

variable {T : Type*} {lobbies : ℕ} {start : ℕ → ℤ} {s s' : State T} {m m' : Finset ℕ}
  {search search' : Search}

/-- Every call in progress has now met the lobbies that are full. -/
def State.observe (lobbies : ℕ) (s : State T) : State T :=
  { s with metFull := fun t => s.metFull t ∪ fullNow lobbies s.availableSlots }

section Step

variable [DecidableEq T]

/-- A successful exchange of a call. -/
def State.reserve (s : State T) (t : T) (i : ℕ) : State T :=
  { s with
    availableSlots := Function.update s.availableSlots i (s.availableSlots i - 1)
    taken := Function.update s.taken t (s.taken t ++ [i]) }

/-- A call returns. -/
def State.finish (s : State T) (t : T) (result : Option ℕ) : State T :=
  { s with
    call := Function.update s.call t none
    returns := s.returns ++ [⟨result, s.taken t, s.metFull t⟩] }

/-- One step, before the full lobbies are noted. -/
def act (lobbies : ℕ) (s : State T) : Op T → Option (State T)
  | .assignLobby t =>
      match s.call t with
      | none => some { s with
          call := Function.update s.call t (some (.start .lobby))
          taken := Function.update s.taken t []
          metFull := Function.update s.metFull t ∅ }
      | some _ => none
  | .next t spurious =>
      match s.call t with
      | none => none
      | some search =>
          match search.next lobbies s.availableSlots spurious with
          | .again search => some { s with call := Function.update s.call t (some search) }
          | .reserved i => some ((s.reserve t i).finish t (some i))
          | .failed => some (s.finish t none)
  | .releaseReservedSlot i => some
      { s with
        availableSlots := Function.update s.availableSlots i (s.availableSlots i + 1)
        releases := s.releases ++ [i] }

/-- Calls in any number of threads and releases of slots, from the given counters. -/
def system (T : Type*) [DecidableEq T] (lobbies : ℕ) (availableSlots : ℕ → ℤ) :
    Transition.System (State T) (Op T) where
  init s := s =
    State.observe lobbies ⟨availableSlots, fun _ => none, fun _ => [], fun _ => ∅, [], []⟩
  step s op := (act lobbies s op).map (State.observe lobbies)

end Step

/-! ## What a call has met -/

/-- The scan has met the lobbies behind it full. -/
def Passed (m : Finset ℕ) : Search → Prop
  | .scan i _ => ∀ j < i, j ∈ m
  | _ => True

theorem Passed.mono (h : Passed m search) (hm : m ⊆ m') : Passed m' search := by
  cases search with
  | count | best => trivial
  | scan i pc => exact fun j hj => hm (h j hj)

theorem tryReserveSlot_full {slots : ℤ} {spurious : Bool} {pc : ReservePc}
    (h : tryReserveSlot slots spurious pc = .full) : slots ≤ 0 := by
  cases pc <;> simp only [tryReserveSlot] at h <;> split_ifs at h
  assumption

/-- An access that moves the scan on finds the lobby full. -/
theorem Passed.again {availableSlots : ℕ → ℤ} {spurious : Bool} (h : Passed m search)
    (hm : fullNow lobbies availableSlots ⊆ m)
    (hnext : search.next lobbies availableSlots spurious = .again search') : Passed m search' := by
  cases search with
  | count i fullest bestCount =>
    simp only [Search.next] at hnext
    split_ifs at hnext
    · cases hnext; trivial
    · cases hnext; trivial
    · cases fullest <;> cases hnext
      · exact fun j hj => absurd hj (Nat.not_lt_zero j)
      · trivial
  | best i pc =>
    simp only [Search.next] at hnext
    split at hnext <;> cases hnext
    · trivial
    · exact fun j hj => absurd hj (Nat.not_lt_zero j)
  | scan i pc =>
    simp only [Search.next] at hnext
    split_ifs at hnext with hi
    split at hnext <;> cases hnext
    · exact h
    · intro j hj
      rcases Nat.lt_succ_iff_lt_or_eq.1 hj with hlt | rfl
      · exact h j hlt
      · exact hm (Finset.mem_filter.2
          ⟨Finset.mem_range.2 hi, tryReserveSlot_full ‹tryReserveSlot _ _ _ = .full›⟩)

/-- A call fails after the scan has passed all lobbies. -/
theorem Passed.failed {availableSlots : ℕ → ℤ} {spurious : Bool} (h : Passed m search)
    (hnext : search.next lobbies availableSlots spurious = .failed) : ∀ i < lobbies, i ∈ m := by
  cases search with
  | count i fullest bestCount =>
    simp only [Search.next] at hnext
    split_ifs at hnext
    cases fullest <;> cases hnext
  | best i pc =>
    simp only [Search.next] at hnext
    split at hnext <;> cases hnext
  | scan i pc =>
    simp only [Search.next] at hnext
    split_ifs at hnext with hi
    · split at hnext <;> cases hnext
    · exact fun j hj => h j (hj.trans_le (not_lt.1 hi))

/-! ## The invariant -/

/-- What is right about a call that has returned. -/
structure Return.Right (lobbies : ℕ) (r : Return) : Prop where
  taken : r.taken = r.result.toList
  metFull : r.result = none → ∀ i < lobbies, i ∈ r.metFull

/-- A call in progress has taken nothing and met the lobbies it has passed full. -/
def State.OnCall (s : State T) (t : T) : Prop :=
  ∀ search, s.call t = some search → s.taken t = [] ∧ Passed (s.metFull t) search

/-- The calls in progress have taken nothing, those that have returned have taken what they have
returned, and the counters have changed by that and by the releases. -/
structure Inv (lobbies : ℕ) (start : ℕ → ℤ) (s : State T) : Prop where
  calls : ∀ t, s.OnCall t
  right : ∀ r ∈ s.returns, r.Right lobbies
  slots : ∀ i, s.availableSlots i =
    start i + s.releases.count i - (s.returns.flatMap Return.taken).count i

/-- Every call has met the lobbies that are full now. -/
def State.Noted (lobbies : ℕ) (s : State T) : Prop :=
  ∀ t, fullNow lobbies s.availableSlots ⊆ s.metFull t

theorem State.noted_observe (lobbies : ℕ) (s : State T) : (s.observe lobbies).Noted lobbies :=
  fun _ => Finset.subset_union_right

theorem Inv.observe (inv : Inv lobbies start s) : Inv lobbies start (s.observe lobbies) where
  calls t search hcall :=
    ⟨(inv.calls t search hcall).1, (inv.calls t search hcall).2.mono Finset.subset_union_left⟩
  right := inv.right
  slots := inv.slots

/-- A counter that changes by `n`. -/
theorem update_add_eq (slots : ℕ → ℤ) (i j : ℕ) (n : ℤ) :
    Function.update slots i (slots i + n) j = slots j + n * [i].count j := by
  by_cases hj : j = i
  · subst hj
    simp
  · rw [Function.update_of_ne hj, List.count_singleton, if_neg (by simpa using Ne.symm hj)]
    simp

theorem Inv.release (inv : Inv lobbies start s) (i : ℕ) :
    Inv lobbies start { s with
      availableSlots := Function.update s.availableSlots i (s.availableSlots i + 1)
      releases := s.releases ++ [i] } where
  calls := inv.calls
  right := inv.right
  slots j := by
    have hslots := inv.slots j
    simp only [update_add_eq, List.count_append]
    omega

/-- A step of one thread leaves the calls of the others alone. -/
theorem onCall_frame {t : T} (h : ∀ t, s.OnCall t) (own : s'.OnCall t)
    (frame : ∀ t' ≠ t, s'.call t' = s.call t' ∧ s'.taken t' = s.taken t' ∧
      s'.metFull t' = s.metFull t') : ∀ t, s'.OnCall t := by
  intro t' search hcall
  by_cases ht : t' = t
  · subst ht
    exact own search hcall
  · obtain ⟨hcall', htaken, hmet⟩ := frame t' ht
    rw [htaken, hmet]
    exact h t' search (hcall' ▸ hcall)

variable [DecidableEq T] {t : T}

theorem Inv.assignLobby (inv : Inv lobbies start s) (t : T) :
    Inv lobbies start { s with
      call := Function.update s.call t (some (.start .lobby))
      taken := Function.update s.taken t []
      metFull := Function.update s.metFull t ∅ } where
  calls := by
    refine onCall_frame (t := t) inv.calls ?_ fun t' ht =>
      ⟨Function.update_of_ne ht .., Function.update_of_ne ht .., Function.update_of_ne ht ..⟩
    intro search hcall
    cases (Function.update_self t _ s.call).symm.trans hcall
    exact ⟨Function.update_self .., trivial⟩
  right := inv.right
  slots := inv.slots

theorem Inv.again (inv : Inv lobbies start s) (hcall : s.call t = some search)
    (hpassed : Passed (s.metFull t) search') :
    Inv lobbies start { s with call := Function.update s.call t (some search') } where
  calls := by
    refine onCall_frame (t := t) inv.calls ?_ fun t' ht =>
      ⟨Function.update_of_ne ht .., rfl, rfl⟩
    intro search'' hcall'
    cases (Function.update_self t _ s.call).symm.trans hcall'
    exact ⟨(inv.calls t search hcall).1, hpassed⟩
  right := inv.right
  slots := inv.slots

theorem Inv.failed (inv : Inv lobbies start s) (hcall : s.call t = some search)
    (hpassed : ∀ i < lobbies, i ∈ s.metFull t) : Inv lobbies start (s.finish t none) where
  calls := by
    refine onCall_frame (t := t) inv.calls ?_ fun t' ht =>
      ⟨Function.update_of_ne ht .., rfl, rfl⟩
    intro search' hcall'
    cases (Function.update_self t _ s.call).symm.trans hcall'
  right r hr := by
    rcases List.mem_append.1 hr with hr | hr
    · exact inv.right r hr
    · obtain rfl := List.mem_singleton.1 hr
      exact ⟨(inv.calls t search hcall).1, fun _ => hpassed⟩
  slots i := by
    simp only [State.finish, List.flatMap_append, List.flatMap_singleton,
      (inv.calls t search hcall).1, List.append_nil]
    exact inv.slots i

theorem Inv.reserved (inv : Inv lobbies start s) (hcall : s.call t = some search) (i : ℕ) :
    Inv lobbies start ((s.reserve t i).finish t (some i)) where
  calls := by
    refine onCall_frame (t := t) inv.calls ?_ fun t' ht =>
      ⟨Function.update_of_ne ht .., Function.update_of_ne ht .., rfl⟩
    intro search' hcall'
    cases (Function.update_self t _ s.call).symm.trans hcall'
  right r hr := by
    rcases List.mem_append.1 hr with hr | hr
    · exact inv.right r hr
    · obtain rfl := List.mem_singleton.1 hr
      refine ⟨?_, nofun⟩
      show Function.update s.taken t (s.taken t ++ [i]) t = [i]
      rw [Function.update_self, (inv.calls t search hcall).1, List.nil_append]
  slots j := by
    have hslots := inv.slots j
    simp only [State.finish, State.reserve, List.flatMap_append, List.flatMap_singleton,
      Function.update_self, (inv.calls t search hcall).1, List.nil_append, List.count_append,
      sub_eq_add_neg (s.availableSlots i) 1, update_add_eq]
    omega

/-- One step keeps the invariant. -/
theorem Inv.act (inv : Inv lobbies start s) (noted : s.Noted lobbies) {op : Op T}
    (h : act lobbies s op = some s') : Inv lobbies start s' := by
  cases op with
  | assignLobby t =>
    rw [Assignment.act] at h
    split at h <;> cases h
    exact inv.assignLobby t
  | next t spurious =>
    rw [Assignment.act] at h
    cases hcall : s.call t with
    | none =>
      rw [hcall] at h
      cases h
    | some search =>
      have hpassed := (inv.calls t search hcall).2
      rw [hcall] at h
      dsimp only at h
      split at h <;> cases h
      · exact inv.again hcall (hpassed.again (noted t) ‹_›)
      · exact inv.reserved hcall _
      · exact inv.failed hcall (hpassed.failed ‹_›)
  | releaseReservedSlot i =>
    cases h
    exact inv.release i

theorem inv_of_reachable (reach : (system T lobbies start).Reachable s) :
    Inv lobbies start s ∧ s.Noted lobbies := by
  refine reach.invariant (P := fun s => Inv lobbies start s ∧ s.Noted lobbies) ?_ ?_
  · rintro s rfl
    refine ⟨Inv.observe ⟨fun t search hcall => absurd hcall nofun, nofun, fun i => ?_⟩,
      State.noted_observe _ _⟩
    simp
  · rintro s op s' ⟨inv, noted⟩ hstep
    obtain ⟨after, hact, rfl⟩ := Option.map_eq_some_iff.1 hstep
    exact ⟨(inv.act noted hact).observe, State.noted_observe _ _⟩

end Assignment

/-- `AssignLobby` alone, with any spurious failures of its exchanges, returns the fullest lobby that
is not full with one of its slots, or `nullptr` if all are full, and it returns once the failures
stop.  Among any other calls and releases, a call that returns a lobby has taken one slot of it and
nothing else, a call that returns `nullptr` has taken nothing and every lobby was full at some
moment of the call, and nothing but that and the releases changes the counters. -/
theorem lobby_assignment (T : Type*) [DecidableEq T] (lobbies : ℕ) (availableSlots : ℕ → ℤ) :
    (∀ spurious : List Bool,
      (∀ result, assignLobby lobbies availableSlots spurious (.start .lobby) = some result →
        Assigned lobbies availableSlots result) ∧
      ∃ accesses, (assignLobby lobbies availableSlots
        (spurious ++ List.replicate accesses false) (.start .lobby)).isSome = true) ∧
    ∀ s : Assignment.State T, (Assignment.system T lobbies availableSlots).Reachable s →
      (∀ r ∈ s.returns, r.taken = r.result.toList ∧
        (r.result = none → ∀ i < lobbies, i ∈ r.metFull)) ∧
      (∀ t, (s.call t).isSome = true → s.taken t = []) ∧
      ∀ i, s.availableSlots i = availableSlots i + s.releases.count i -
        (s.returns.flatMap Assignment.Return.taken).count i := by
  refine ⟨fun spurious => ⟨fun result h => ?_, ?_⟩, fun s reach => ?_⟩
  · exact (Search.Alone.start lobbies availableSlots).assigned h
  · exact (Search.Alone.start lobbies availableSlots).returns spurious
  · obtain ⟨inv, -⟩ := Assignment.inv_of_reachable reach
    refine ⟨fun r hr => ⟨(inv.right r hr).taken, (inv.right r hr).metFull⟩, fun t hcall => ?_,
      inv.slots⟩
    obtain ⟨search, hsearch⟩ := Option.isSome_iff_exists.1 hcall
    exact (inv.calls t search hsearch).1

end Server

end DhNet
