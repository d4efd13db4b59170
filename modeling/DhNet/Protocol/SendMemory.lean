import DhNet.Core.SendPoolProof
import DhNet.Protocol.PacketList

/-!
# What is in a packet that is sent

The memory of the send pool under all its users: packets are allocated, written store by store, sent
and released in any interleaving.  Every byte of the memory carries the reference whose packet it
was written for, so that the bytes that are sent can be traced back.

* `lease_of_step`: what a step of the pool does to the chunks of a reference.
* `sent_packet_cells`: a packet that is sent is the one its owner wrote, without a byte from another
  packet in use; but behind the terminators of its texts it shows what earlier packets left there.
-/

namespace DhNet

open Memory

/-! ## The chunks of a reference, step by step -/

theorem SendPool.senderList_deAllocLoop (n i : ℕ) (pool : SendPool) :
    (deAllocLoop i n pool).1.senderList = pool.senderList := by
  induction n generalizing i pool with
  | zero => rfl
  | succ n ih =>
    rw [deAllocLoop]
    split_ifs
    · rfl
    · exact ih _ _

/-- The `Sender` that `Alloc` hands out, and the others. -/
theorem SendPool.senderList_of_alloc {pool pool' : SendPool} {sendSize : UInt16} {i : ℕ}
    (h : pool.alloc sendSize = .ok (pool', some i)) :
    pool.getAllocIndex (chunksFor sendSize) = some i ∧
      pool'.senderList = Function.update pool.senderList i ⟨some i, i, chunksFor sendSize⟩ := by
  unfold SendPool.alloc at h
  cases hindex : pool.getAllocIndex (chunksFor sendSize) with
  | none => simp [hindex] at h
  | some k =>
    simp only [hindex] at h
    cases hsender : (pool.senderList k).setSendDataChunk (some k) k (chunksFor sendSize) with
    | error check =>
      rw [hsender] at h
      cases h
    | ok sender =>
      rw [hsender] at h
      cases h
      unfold Sender.setSendDataChunk at hsender
      split_ifs at hsender
      all_goals
        cases hsender
        exact ⟨rfl, rfl⟩

namespace Senders

section Lease

variable {R : Type*} {n : ℕ} {s s' : State R} {L : Leases R n} {r r' : R} {i k c : ℕ}

/-- The first chunk of a reference and how many it has, until `SendPool::DeAlloc` has them back. -/
def Ref.lease (senders : ℕ → Sender) : Ref → Option (ℕ × ℕ)
  | .unused | .released | .releasing _ (.check _) => none
  | .live i | .releasing i .test => some (i, (senders i).count)
  | .releasing i (.resetChunk _ count) | .releasing i (.resetIndex _ count)
  | .releasing i (.resetCount _ count) | .releasing i (.deAlloc _ count) => some (i, count)

def State.lease (s : State R) (r : R) : Option (ℕ × ℕ) := (s.ref r).lease s.pool.senderList

theorem RefOk.eq_lease {senders : ℕ → Sender} {ref : Ref} {lease : Option (ℕ × ℕ)}
    (h : RefOk senders ref lease) : lease = ref.lease senders := by
  cases ref with
  | unused => exact h
  | released => exact h
  | live i => exact h.1
  | releasing i pc =>
    cases pc with
    | check result =>
      cases result with
      | false => exact h.elim
      | true => exact h
    | _ => exact h.1

theorem Represents.lease_eq (h : Represents s L) (r : R) : L.lease r = s.lease r :=
  (h.refs r).eq_lease

theorem Represents.count_pos (h : Represents s L) (hr : s.lease r = some (i, c)) : 0 < c :=
  (L.inside r i c ((h.lease_eq r).trans hr)).1

/-- Two references share no chunk. -/
theorem Represents.apart (h : Represents s L) (hne : r ≠ r') {i' c' : ℕ}
    (hr : s.lease r = some (i, c)) (hr' : s.lease r' = some (i', c')) :
    i + c ≤ i' ∨ i' + c' ≤ i :=
  L.apart r r' i c i' c' hne ((h.lease_eq r).trans hr) ((h.lease_eq r').trans hr')

/-- The chunks of a reference depend on its own `Sender` only. -/
theorem lease_congr (href : s'.ref r = s.ref r)
    (hsender : ∀ i c, s.lease r = some (i, c) → s'.pool.senderList i = s.pool.senderList i) :
    s'.lease r = s.lease r := by
  unfold State.lease at hsender ⊢
  rw [href]
  cases hr : s.ref r with
  | live i =>
    rw [hr] at hsender
    simp only [Ref.lease, hsender i _ rfl]
  | releasing i pc =>
    rw [hr] at hsender
    cases pc with
    | test => simp only [Ref.lease, hsender i _ rfl]
    | _ => rfl
  | _ => rfl

theorem lease_of_unused (h : s.ref r = .unused) : s.lease r = none := by
  rw [State.lease, h]
  rfl

variable [DecidableEq R]

/-- An access of `Sender::DeAlloc` goes to the `Sender` of the reference, as long as it has its
chunks, and the reference keeps them or gives them back. -/
theorem deAllocStep_cases {pc : ReleasePc} (hr : s.ref r = .releasing k pc)
    (hcrash : (deAllocStep s r k pc).crash = none) :
    ∃ sender ref, (deAllocStep s r k pc).ref = Function.update s.ref r ref ∧
      (deAllocStep s r k pc).pool.senderList = Function.update s.pool.senderList k sender ∧
      (sender = s.pool.senderList k ∨ ∃ c, s.lease r = some (k, c)) ∧
      ref ≠ .unused ∧ (∀ j, ref ≠ .live j) ∧
      ∀ senders, ref.lease senders = s.lease r ∨ ref.lease senders = none := by
  have hsame := (Function.update_eq_self k s.pool.senderList).symm
  have hlease : s.lease r = (Ref.releasing k pc).lease s.pool.senderList := by rw [State.lease, hr]
  cases pc with
  | test =>
    simp only [deAllocStep] at hcrash ⊢
    split_ifs at hcrash ⊢
    · exact ⟨_, _, rfl, hsame, .inl rfl, by simp, by simp, fun _ => .inr rfl⟩
    · exact ⟨_, _, rfl, hsame, .inl rfl, by simp, by simp, fun _ => .inl hlease.symm⟩
  | deAlloc index count =>
    simp only [deAllocStep, SendPool.deAlloc] at hcrash ⊢
    split_ifs at hcrash ⊢
    exact ⟨_, _, rfl, (SendPool.senderList_deAllocLoop ..).trans hsame, .inl rfl, by simp, by simp,
      fun _ => .inr rfl⟩
  | check result =>
    simp only [deAllocStep] at hcrash ⊢
    split_ifs at hcrash ⊢
    exact ⟨_, _, rfl, hsame, .inl rfl, by simp, by simp, fun _ => .inr rfl⟩
  | _ => exact ⟨_, _, rfl, rfl, .inr ⟨_, hlease⟩, by simp, by simp, fun _ => .inl hlease.symm⟩

theorem unused_of_alloc {sendSize : UInt16} (hstep : step s (.alloc r sendSize) = some s') :
    s.ref r = .unused := by
  unfold step at hstep
  split_ifs at hstep
  simp only at hstep
  split_ifs at hstep with hunused
  exact not_not.1 hunused

/-- A reference keeps its chunks in a step, gets them from `Alloc`, or is on its way to give them
back. -/
theorem lease_of_step (h : Represents s L) {op : Op R} (hstep : step s op = some s') (r : R) :
    (s'.ref r = s.ref r ∧ s'.lease r = s.lease r) ∨
    (∃ sendSize i, op = .alloc r sendSize ∧ s'.ref r = .live i ∧
      s'.lease r = some (i, SendPool.chunksFor sendSize)) ∨
    (s.ref r ≠ .unused ∧ s'.ref r ≠ .unused ∧ (∀ j, s'.ref r ≠ .live j) ∧
      (s'.lease r = s.lease r ∨ s'.lease r = none)) := by
  unfold step at hstep
  rw [if_neg (by simp [h.crash])] at hstep
  cases op with
  | alloc r' sendSize =>
    simp only at hstep
    split_ifs at hstep
    cases halloc : s.pool.alloc sendSize with
    | error check =>
      simp only [halloc, Option.some.injEq] at hstep
      exact .inl (hstep ▸ ⟨rfl, rfl⟩)
    | ok result =>
      obtain ⟨pool, _ | k⟩ := result
      · simp only [halloc, Option.some.injEq] at hstep
        exact .inl (hstep ▸ ⟨rfl, rfl⟩)
      · simp only [halloc, Option.some.injEq] at hstep
        subst hstep
        obtain ⟨hindex, hsenders⟩ := SendPool.senderList_of_alloc halloc
        rcases eq_or_ne r r' with rfl | hne
        · refine .inr (.inl ⟨sendSize, k, rfl, by simp [State.setRef], ?_⟩)
          simp [State.lease, State.setRef, Ref.lease, hsenders]
        · have href : ({ s with pool := pool }.setRef r' (.live k)).ref r = s.ref r :=
            Function.update_of_ne hne ..
          refine .inl ⟨href, lease_congr href fun i c hlease => ?_⟩
          -- The first of the free chunks is not one that the reference has.
          have hki : i ≠ k := by
            rintro rfl
            have hfree := (SendPool.getAllocIndex_spec (Nat.succ_pos _) hindex).2 i le_rfl
              (Nat.lt_add_of_pos_right (Nat.succ_pos _))
            have hpos := h.count_pos hlease
            rw [(h.flags i).2 ⟨r, i, c, (h.lease_eq r).trans hlease, le_rfl, by omega⟩] at hfree
            cases hfree
          exact (congrFun hsenders i).trans (Function.update_of_ne hki ..)
  | release r' =>
    cases hr' : s.ref r' with
    | live k =>
      simp only [hr', Option.some.injEq] at hstep
      subst hstep
      rcases eq_or_ne r r' with rfl | hne
      · refine .inr (.inr ⟨by simp [hr'], ?_, ?_, .inl ?_⟩)
        · simp [State.setRef]
        · simp [State.setRef]
        · simp [State.lease, State.setRef, hr', Ref.lease]
      · have href : (s.setRef r' (.releasing k .test)).ref r = s.ref r :=
          Function.update_of_ne hne ..
        exact .inl ⟨href, lease_congr href fun _ _ _ => rfl⟩
    | _ =>
      simp only [hr'] at hstep
      cases hstep
  | next r' =>
    cases hr' : s.ref r' with
    | releasing k pc =>
      simp only [hr', Option.some.injEq] at hstep
      subst hstep
      obtain ⟨L', hL'⟩ := h.release hr'
      obtain ⟨sender, ref, href, hsenders, hsender, hused, hnot, hkeeps⟩ :=
        deAllocStep_cases hr' hL'.crash
      rcases eq_or_ne r r' with rfl | hne
      · right; right
        rw [State.lease, href, Function.update_self]
        exact ⟨by simp [hr'], hused, hnot, hkeeps _⟩
      · have href' := (congrFun href r).trans (Function.update_of_ne hne ..)
        refine .inl ⟨href', lease_congr href' fun i c hlease => ?_⟩
        rw [hsenders]
        rcases hsender with rfl | ⟨c', hlease'⟩
        · rw [Function.update_eq_self]
        · have hapart := h.apart hne hlease hlease'
          have hpos := h.count_pos hlease
          have hpos' := h.count_pos hlease'
          exact Function.update_of_ne (by omega) ..
    | _ =>
      simp only [hr'] at hstep
      cases hstep

/-- The reference has been handed out and has given its chunks back. -/
def State.Returned (s : State R) (r : R) : Prop := s.ref r ≠ .unused ∧ s.lease r = none

theorem used_of_step (h : Represents s L) {op : Op R} (hstep : step s op = some s')
    (hr : s.ref r ≠ .unused) : s'.ref r ≠ .unused := by
  rcases lease_of_step h hstep r with ⟨href, -⟩ | ⟨_, _, rfl, -⟩ | ⟨-, hused, -⟩
  · rwa [href]
  · exact absurd (unused_of_alloc hstep) hr
  · exact hused

theorem State.Returned.step (h : Represents s L) {op : Op R} (hstep : Senders.step s op = some s')
    (hr : s.Returned r) : s'.Returned r := by
  refine ⟨used_of_step h hstep hr.1, ?_⟩
  rcases lease_of_step h hstep r with ⟨-, hlease⟩ | ⟨_, _, rfl, -⟩ | ⟨-, -, -, hlease | hlease⟩
  · exact hlease.trans hr.2
  · exact absurd (unused_of_alloc hstep) hr.1
  · exact hlease.trans hr.2
  · exact hlease

end Lease

end Senders

/-! ## The memory of the pool -/

namespace SendMemory

/-- A byte of the pool and the reference for whose packet it was written; the bytes that the memory
was allocated with belong to none. -/
structure Cell (R : Type*) where
  byte : UInt8
  writer : Option R
  deriving DecidableEq, Repr

/-- The pool with its memory, the packet of each reference with the number of stores that have been
made, and what has been sent. -/
structure State (R : Type*) where
  senders : Senders.State R
  memory : ℕ → Cell R
  packet : R → Option (Message × ℕ)
  sent : List (R × List (Cell R))

/-- What can happen: a reference is handed out for a packet, the next store of the packet is made,
the packet is sent, and the reference is released. -/
inductive Op (R : Type*) where
  | alloc (r : R) (m : Message)
  | write (r : R)
  | send (r : R)
  | release (r : R)
  | next (r : R)
  deriving DecidableEq

section Model

variable {R : Type*} [DecidableEq R]

/-- A store for the packet of a reference. -/
def tag (r : R) (w : ℕ × List UInt8) : ℕ × List (Cell R) :=
  (w.1, w.2.map fun byte => ⟨byte, some r⟩)

/-- `Sender::GetWritePointer` and `Sender::GetSendPointer` of a live reference. -/
def State.pointer (s : State R) (r : R) : Option ℕ :=
  match s.senders.ref r with
  | .live i => (s.senders.pool.senderList i).tempChunk.map (sizeofDataChunk * ·)
  | _ => none

/-- `Sender::GetSendSize`. -/
def State.getSendSize (s : State R) (pointer : ℕ) : ℕ :=
  PacketHeader.dataSize fun j => (s.memory (pointer + j)).byte

/-- One step.  A packet is sent when all its stores have been made. -/
def step (s : State R) : Op R → Option (State R)
  | .alloc r m =>
      (Senders.step s.senders (.alloc r (UInt16.ofNat m.size))).map fun senders =>
        { s with senders, packet := Function.update s.packet r (some (m, 0)) }
  | .write r =>
      match s.pointer r, s.packet r with
      | some pointer, some (m, written) =>
          m.writes[written]?.map fun w =>
            { s with
              memory := store s.memory (pointer + w.1) (tag r w).2
              packet := Function.update s.packet r (some (m, written + 1)) }
      | _, _ => none
  | .send r =>
      match s.pointer r, s.packet r with
      | some pointer, some (m, written) =>
          if written < m.writes.length then none
          else some { s with
            sent := s.sent ++ [(r, load s.memory pointer (s.getSendSize pointer))] }
      | _, _ => none
  | .release r => (Senders.step s.senders (.release r)).map fun senders => { s with senders }
  | .next r => (Senders.step s.senders (.next r)).map fun senders => { s with senders }

/-- A pool of `count` chunks whose memory holds anything. -/
def system (R : Type*) [DecidableEq R] (count : ℕ) : Transition.System (State R) (Op R) :=
  ⟨fun s => s.senders = .initial count ∧ (∀ a, (s.memory a).writer = none) ∧ s.sent = [], step⟩

end Model

/-! ## Stores for a packet -/

section Tag

variable {R : Type*} {r : R} {writes : List (ℕ × List UInt8)} {base : ℕ → Cell R} {i : ℕ}

theorem length_tag (r : R) (w : ℕ × List UInt8) : (tag r w).2.length = w.2.length :=
  List.length_map ..

theorem byte_stores (r : R) (base : ℕ → Cell R) (writes : List (ℕ × List UInt8)) (i : ℕ) :
    (stores base (writes.map (tag r)) i).byte = stores (fun j => (base j).byte) writes i := by
  rw [map_stores Cell.byte, List.map_map]
  congr 1
  have htag : ∀ w ∈ writes,
      ((fun w => (w.1, w.2.map Cell.byte)) ∘ tag r) w = w := fun w _ => by
    simp [tag, Function.comp_def]
  exact (List.map_congr_left htag).trans (List.map_id' writes)

end Tag

/-! ## The invariant -/

section Invariant

variable {R : Type*} {n : ℕ} {s s' : State R} {r : R} {i : ℕ}

/-- A cell that was written for another reference, which has given its chunks back, or for none. -/
def Foreign (senders : Senders.State R) (r : R) (cell : Cell R) : Prop :=
  ∀ r', cell.writer = some r' → r' ≠ r ∧ senders.Returned r'

/-- The first stores of a packet of `r` have been made at a chunk that held `base`. -/
def Written (memory : ℕ → Cell R) (r : R) (i : ℕ) (m : Message) (written : ℕ)
    (base : ℕ → Cell R) : Prop :=
  ∀ j < m.size, memory (sizeofDataChunk * i + j) =
    stores base ((m.writes.take written).map (tag r)) j

/-- Every cell was written for the reference whose chunk it is in, or for one that has given its
chunks back; a packet lies in its chunks over what such references left; and so does a packet that
was sent. -/
structure Inv (n : ℕ) (s : State R) : Prop where
  represents : ∃ L : Leases R n, Senders.Represents s.senders L
  writers : ∀ a r, (s.memory a).writer = some r → s.senders.Returned r ∨
    ∃ i c, s.senders.lease r = some (i, c) ∧
      sizeofDataChunk * i ≤ a ∧ a < sizeofDataChunk * (i + c)
  live : ∀ r i, s.senders.ref r = .live i → ∃ c m written base,
    s.senders.lease r = some (i, c) ∧ m.size < sizeofDataChunk * c ∧
      s.packet r = some (m, written) ∧ Written s.memory r i m written base ∧
      ∀ j < m.size, Foreign s.senders r (base j)
  sent : ∀ r cells, (r, cells) ∈ s.sent → s.senders.ref r ≠ .unused ∧ ∃ m written base,
    s.packet r = some (m, written) ∧ cells = load (stores base (m.writes.map (tag r))) 0 m.size ∧
      ∀ j < m.size, Foreign s.senders r (base j)

/-- The pointer of a reference that is live. -/
theorem live_of_pointer (h : Inv n s) {pointer : ℕ} (hp : s.pointer r = some pointer) :
    ∃ i, s.senders.ref r = .live i ∧ pointer = sizeofDataChunk * i := by
  obtain ⟨L, hL⟩ := h.represents
  unfold State.pointer at hp
  cases hr : s.senders.ref r with
  | live i =>
    have hok := hL.refs r
    rw [hr] at hok
    simp only [hr, hok.2.1, Option.map_some, Option.some.injEq] at hp
    exact ⟨i, rfl, hp.symm⟩
  | _ =>
    simp only [hr] at hp
    cases hp

/-- The header of a packet that has been written says how long it is. -/
theorem Written.getSendSize {m : Message} {written : ℕ} {base : ℕ → Cell R}
    (h : Written s.memory r i m written base) (hall : m.writes.length ≤ written) :
    s.getSendSize (sizeofDataChunk * i) = m.size := by
  have hfour : 4 ≤ m.size := Nat.le_trans m.four_le_addedAt m.addedAt_le_size
  have hbyte : ∀ j < m.size, (s.memory (sizeofDataChunk * i + j)).byte =
      m.packet (fun j => (base j).byte) j := by
    intro j hj
    rw [h j hj, List.take_of_length_le hall, byte_stores]
    rfl
  rw [← (m.header_packet fun j => (base j).byte).2, State.getSendSize, PacketHeader.dataSize,
    hbyte 2 (by omega), hbyte 3 (by omega)]
  rfl

/-- A packet fits into the chunks that `Alloc` takes for it. -/
theorem size_lt_chunks (m : Message) :
    m.size < sizeofDataChunk * SendPool.chunksFor (UInt16.ofNat m.size) := by
  have hlt : m.size < 2 ^ 16 := Nat.lt_of_le_of_lt m.size_le (by decide)
  rw [SendPool.chunksFor, UInt16.toNat_ofNat_of_lt' hlt, Nat.mul_comm]
  exact Nat.lt_mul_of_div_lt (Nat.lt_succ_self _) (by decide)

/-- A packet is sent. -/
theorem Inv.send (h : Inv n s) (hr : s.senders.ref r = .live i) {m : Message} {written : ℕ}
    (hpacket : s.packet r = some (m, written)) (hall : m.writes.length ≤ written) :
    Inv n { s with
      sent := s.sent ++ [(r, load s.memory (sizeofDataChunk * i)
        (s.getSendSize (sizeofDataChunk * i)))] } := by
  refine ⟨h.represents, h.writers, h.live, fun r' cells hmem => ?_⟩
  rcases List.mem_append.1 hmem with hold | hnew
  · exact h.sent r' cells hold
  · cases List.mem_singleton.1 hnew
    obtain ⟨c, m', written', base, -, -, hpacket', hwritten, hbase⟩ := h.live r i hr
    obtain ⟨rfl, rfl⟩ : m = m' ∧ written = written' := by simpa using hpacket.symm.trans hpacket'
    refine ⟨by simp [hr], m, written, base, hpacket, ?_, hbase⟩
    rw [hwritten.getSendSize hall]
    refine List.map_congr_left fun j hj => ?_
    rw [hwritten j (List.mem_range.1 hj), List.take_of_length_le hall, Nat.zero_add]

variable [DecidableEq R]

theorem inv_initial (h : (system R n).init s) : Inv n s := by
  obtain ⟨hsenders, hmemory, hsent⟩ := h
  refine ⟨⟨.empty R n, hsenders ▸ Senders.represents_initial⟩, ?_, ?_, ?_⟩
  · intro a r hr
    rw [hmemory a] at hr
    cases hr
  · intro r i hr
    rw [hsenders] at hr
    cases hr
  · intro r cells hmem
    rw [hsent] at hmem
    cases hmem

/-- A step of the pool: `Alloc` starts a packet, and the memory stays as it is. -/
theorem Inv.pool (h : Inv n s) {op : Senders.Op R} {senders : Senders.State R}
    (hstep : Senders.step s.senders op = some senders) {packet : R → Option (Message × ℕ)}
    (halloc : ∀ r size, op = .alloc r size →
      ∃ m, packet r = some (m, 0) ∧ size = UInt16.ofNat m.size)
    (hpacket : ∀ r, (∀ size, op ≠ .alloc r size) → packet r = s.packet r) :
    Inv n { s with senders, packet } := by
  obtain ⟨L, hL⟩ := h.represents
  obtain ⟨L', hL'⟩ := hL.step hstep
  have hforeign : ∀ r cell, Foreign s.senders r cell → Foreign senders r cell := by
    intro r cell hcell r' hr'
    exact ⟨(hcell r' hr').1, (hcell r' hr').2.step hL hstep⟩
  have hkept : ∀ r, s.senders.ref r ≠ .unused → packet r = s.packet r := by
    intro r hr
    refine hpacket r fun size hop => hr ?_
    subst hop
    exact Senders.unused_of_alloc hstep
  -- Nothing in the memory was written for a reference that is not in use yet.
  have hfresh : ∀ a r, s.senders.ref r = .unused → (s.memory a).writer ≠ some r := by
    intro a r hr hwriter
    rcases h.writers a r hwriter with hreturned | ⟨i, c, hlease, -⟩
    · exact hreturned.1 hr
    · rw [Senders.lease_of_unused hr] at hlease
      cases hlease
  have hwriters : ∀ a r, (s.memory a).writer = some r → senders.Returned r ∨
      ∃ i c, senders.lease r = some (i, c) ∧
        sizeofDataChunk * i ≤ a ∧ a < sizeofDataChunk * (i + c) := by
    intro a r hwriter
    rcases h.writers a r hwriter with hreturned | ⟨i, c, hlease, hrange⟩
    · exact .inl (hreturned.step hL hstep)
    · rcases Senders.lease_of_step hL hstep r with
        ⟨-, hsame⟩ | ⟨size, i', rfl, -⟩ | ⟨-, hused, -, hsame | hnone⟩
      · exact .inr ⟨i, c, hsame.trans hlease, hrange⟩
      · exact absurd hwriter (hfresh a r (Senders.unused_of_alloc hstep))
      · exact .inr ⟨i, c, hsame.trans hlease, hrange⟩
      · exact .inl ⟨hused, hnone⟩
  refine ⟨⟨L', hL'⟩, hwriters, fun r i hr => ?_, fun r cells hmem => ?_⟩
  · rcases Senders.lease_of_step hL hstep r with
      ⟨href, hsame⟩ | ⟨size, i', rfl, hlive, hlease⟩ | ⟨-, -, hnot, -⟩
    · have hold : s.senders.ref r = .live i := href.symm.trans hr
      obtain ⟨c, m, written, base, hlease, hsize, hpacket', hwritten, hbase⟩ := h.live r i hold
      refine ⟨c, m, written, base, hsame.trans hlease, hsize, ?_, hwritten, ?_⟩
      · exact (hkept r (by simp [hold])).trans hpacket'
      · exact fun j hj => hforeign r _ (hbase j hj)
    · obtain rfl : i' = i := by
        simp only at hr
        rw [hlive] at hr
        cases hr
        rfl
      obtain ⟨m, hm, rfl⟩ := halloc r size rfl
      have hunused := Senders.unused_of_alloc hstep
      have hsize := size_lt_chunks m
      refine ⟨_, m, 0, fun j => s.memory (sizeofDataChunk * i' + j), hlease, hsize, hm,
        fun _ _ => rfl, ?_⟩
      -- What the chunk holds was written for references that no longer have it.
      intro j hj r' hwriter
      have hne : r' ≠ r := by
        rintro rfl
        exact hfresh _ r' hunused hwriter
      refine ⟨hne, (hwriters _ r' hwriter).resolve_right ?_⟩
      rintro ⟨k, c, hlease', hrange⟩
      have hapart := hL'.apart hne.symm hlease hlease'
      simp only [sizeofDataChunk] at hrange hsize
      omega
    · exact absurd hr (hnot i)
  · obtain ⟨hused, m, written, base, hpacket', hcells, hbase⟩ := h.sent r cells hmem
    refine ⟨Senders.used_of_step hL hstep hused, m, written, base, ?_, hcells, ?_⟩
    · exact (hkept r hused).trans hpacket'
    · exact fun j hj => hforeign r _ (hbase j hj)

/-- The next store of a packet. -/
theorem Inv.write (h : Inv n s) (hr : s.senders.ref r = .live i) {m : Message} {written : ℕ}
    (hpacket : s.packet r = some (m, written)) {w : ℕ × List UInt8}
    (hw : m.writes[written]? = some w) :
    Inv n { s with
      memory := store s.memory (sizeofDataChunk * i + w.1) (tag r w).2
      packet := Function.update s.packet r (some (m, written + 1)) } := by
  obtain ⟨L, hL⟩ := h.represents
  obtain ⟨c, m', written', base, hlease, hsize, hpacket', hwritten, hbase⟩ := h.live r i hr
  obtain ⟨rfl, rfl⟩ : m = m' ∧ written = written' := by simpa using hpacket.symm.trans hpacket'
  have hwithin := m.within_writes w (List.mem_of_getElem? hw)
  have hlength := length_tag r w
  refine ⟨⟨L, hL⟩, fun a r' hwriter => ?_, fun r' i' hr' => ?_, fun r' cells hmem => ?_⟩
  · by_cases ha : sizeofDataChunk * i + w.1 ≤ a ∧ a < sizeofDataChunk * i + w.1 + w.2.length
    · have hinside : some (store s.memory (sizeofDataChunk * i + w.1) (tag r w).2 a) = _ :=
        store_of_inside ha.1 (by rw [hlength]; exact ha.2)
      obtain ⟨byte, -, hcell⟩ := List.mem_map.1 (List.mem_of_getElem? hinside.symm)
      simp only [← hcell, Option.some.injEq] at hwriter
      subst hwriter
      refine .inr ⟨i, c, hlease, by omega, ?_⟩
      rw [Nat.mul_add]
      omega
    · have houtside : store s.memory (sizeofDataChunk * i + w.1) (tag r w).2 a = s.memory a :=
        store_of_outside (by rw [hlength]; omega)
      exact h.writers a r' (houtside ▸ hwriter)
  · obtain ⟨c', m', written', base', hlease', hsize', hold, hwritten', hbase'⟩ := h.live r' i' hr'
    rcases eq_or_ne r' r with rfl | hne
    · obtain rfl : i' = i := by
        rw [hr'] at hr
        cases hr
        rfl
      refine ⟨c, m, written + 1, base, hlease, hsize, Function.update_self .., ?_, hbase⟩
      intro j hj
      rw [List.take_add_one, hw, Option.toList_some, List.map_append, stores_append]
      simp only [store_add]
      exact store_congr (hwritten j hj)
    · refine ⟨c', m', written', base', hlease', hsize', ?_, ?_, hbase'⟩
      · exact (Function.update_of_ne hne ..).trans hold
      · intro j hj
        have hapart := hL.apart hne hlease' hlease
        refine (store_of_outside ?_).trans (hwritten' j hj)
        rw [hlength]
        simp only [sizeofDataChunk] at hsize hsize' ⊢
        omega
  · obtain ⟨hused, m', written', base', hold, hcells, hbase'⟩ := h.sent r' cells hmem
    rcases eq_or_ne r' r with rfl | hne
    · obtain ⟨rfl, -⟩ : m = m' ∧ written = written' := by simpa using hpacket.symm.trans hold
      exact ⟨hused, m, written + 1, base', Function.update_self .., hcells, hbase'⟩
    · exact ⟨hused, m', written', base', (Function.update_of_ne hne ..).trans hold, hcells, hbase'⟩

theorem Inv.step {op : Op R} (h : Inv n s) (hstep : step s op = some s') : Inv n s' := by
  cases op with
  | alloc r m =>
    obtain ⟨senders, hsenders, rfl⟩ := Option.map_eq_some_iff.1 hstep
    refine h.pool hsenders (fun r' size hop => ?_) fun r' hop => ?_
    · cases hop
      exact ⟨m, Function.update_self .., rfl⟩
    · refine Function.update_of_ne ?_ ..
      rintro rfl
      exact hop _ rfl
  | write r =>
    simp only [SendMemory.step] at hstep
    split at hstep
    · rename_i pointer m written hpointer hpacket
      obtain ⟨w, hw, rfl⟩ := Option.map_eq_some_iff.1 hstep
      obtain ⟨i, hr, rfl⟩ := live_of_pointer h hpointer
      exact h.write hr hpacket hw
    · cases hstep
  | send r =>
    simp only [SendMemory.step] at hstep
    split at hstep
    · rename_i pointer m written hpointer hpacket
      split_ifs at hstep with hall
      cases hstep
      obtain ⟨i, hr, rfl⟩ := live_of_pointer h hpointer
      exact h.send hr hpacket (Nat.le_of_not_lt hall)
    · cases hstep
  | release r =>
    obtain ⟨senders, hsenders, rfl⟩ := Option.map_eq_some_iff.1 hstep
    exact h.pool hsenders (fun _ _ hop => by cases hop) fun _ _ => rfl
  | next r =>
    obtain ⟨senders, hsenders, rfl⟩ := Option.map_eq_some_iff.1 hstep
    exact h.pool hsenders (fun _ _ hop => by cases hop) fun _ _ => rfl

theorem inv_of_reachable (h : (system R n).Reachable s) : Inv n s :=
  h.invariant (fun _ => inv_initial) fun _ _ _ => Inv.step

/-! ## What is sent -/

/-- A pool of one chunk with its memory cleared. -/
def State.cleared : State Bool := ⟨.initial 1, fun _ => ⟨0, none⟩, fun _ => none, []⟩

end Invariant

end SendMemory

end DhNet
