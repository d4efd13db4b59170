import Mathlib.Data.List.TakeWhile
import DhNet.Game.PacketHandlers
import DhNet.Game.GameSessionProof

/-!
# What the dispatch of a decrypted packet depends on

`OnRecv` ignores the length of the plaintext and hands `plainBuf` to the handlers, which read what
their packet types and its terminators tell them to.  A plaintext determines the outcome when none
of these reads reaches the bytes that the stack held before.

* `Determined`: the plaintexts for which this is so.
* `outcome_eq`: the outcome of `OnRecv` in terms of the handler that is found.
* `dispatch_determined_iff`: the outcome is the same for all contents of the stack exactly when the
  plaintext is determined.
-/

namespace DhNet

/-! ## Fields of a packet behind which the stack shows -/

/-- The bounded copy of the field at this offset stays inside the plaintext. -/
def FieldDetermined (plain : List UInt8) (offset size : ℕ) : Prop :=
  offset + size ≤ plain.length ∨ 0 ∈ (plain.drop offset).take size

instance (plain : List UInt8) (offset size : ℕ) : Decidable (FieldDetermined plain offset size) :=
  inferInstanceAs (Decidable (_ ∨ _))

/-- The characters of a field that stays inside the plaintext. -/
def fieldOf (plain : List UInt8) (offset size : ℕ) : List UInt8 :=
  ((plain.drop offset).take size).takeWhile (· != 0)

theorem takeWhile_append_of_mem {xs ys : List UInt8} (h : (0 : UInt8) ∈ xs) :
    (xs ++ ys).takeWhile (· != 0) = xs.takeWhile (· != 0) := by
  induction xs with
  | nil => cases h
  | cons x xs ih =>
    rw [List.cons_append, List.takeWhile_cons, List.takeWhile_cons]
    by_cases hx : x = 0
    · simp [hx]
    · rw [ih ((List.mem_cons.1 h).resolve_left (Ne.symm hx))]

theorem bytes_field (plain : List UInt8) (stack : Pointer) (offset size : ℕ) :
    ((Pointer.overlay plain stack).advance offset).bytes size =
      (plain.drop offset).take size ++ (stack.advance (offset + (plain.drop offset).length)).bytes
        (size - (plain.drop offset).length) := by
  rw [Pointer.overlay_advance, Pointer.bytes_overlay, Pointer.advance_advance]

theorem boundedString_of_determined {plain : List UInt8} {offset size : ℕ}
    (h : FieldDetermined plain offset size) (stack : Pointer) :
    boundedString ((Pointer.overlay plain stack).advance offset) size =
      fieldOf plain offset size := by
  unfold boundedString fieldOf
  rw [bytes_field]
  rcases h with h | h
  · have hinside : size - (plain.drop offset).length = 0 := by
      rw [List.length_drop]
      omega
    rw [hinside]
    simp [Pointer.bytes]
  · exact takeWhile_append_of_mem h

/-- A stack filled with one byte. -/
def filled (byte : UInt8) : Pointer := fun _ => byte

theorem filled_advance (byte : UInt8) (n : ℕ) : (filled byte).advance n = filled byte := rfl

theorem bytes_filled (byte : UInt8) (n : ℕ) : (filled byte).bytes n = List.replicate n byte := by
  apply List.ext_getElem?
  intro i
  rw [Pointer.getElem?_bytes, List.getElem?_replicate]
  rfl

theorem length_boundedString_le (p : Pointer) (size : ℕ) : (boundedString p size).length ≤ size :=
  (List.takeWhile_sublist _).length_le.trans (Pointer.length_bytes p size).le

/-- An undetermined field continues with the bytes of the stack. -/
theorem boundedString_of_not_determined {plain : List UInt8} {offset size : ℕ} (hsize : 0 < size)
    (h : ¬ FieldDetermined plain offset size) {byte : UInt8} (hbyte : byte ≠ 0) :
    boundedString ((Pointer.overlay plain (filled byte)).advance offset) size =
      plain.drop offset ++ List.replicate (size - (plain.drop offset).length) byte ∧
        (plain.drop offset).length < size := by
  unfold FieldDetermined at h
  rw [not_or] at h
  obtain ⟨hlen, hzero⟩ := h
  have hdrop : (plain.drop offset).length < size := by
    rw [List.length_drop]
    omega
  rw [List.take_of_length_le hdrop.le] at hzero
  refine ⟨?_, hdrop⟩
  unfold boundedString
  rw [bytes_field, List.take_of_length_le hdrop.le, filled_advance, bytes_filled]
  rw [List.takeWhile_eq_self_iff]
  intro x hmem
  rw [bne_iff_ne]
  rintro rfl
  rcases List.mem_append.1 hmem with hmem | hmem
  · exact hzero hmem
  · exact hbyte (List.eq_of_mem_replicate hmem).symm

/-- An unbounded string that ends inside the plaintext. -/
theorem cString_of_mem {plain : List UInt8} {offset size : ℕ} (h : 0 ∈ plain.drop offset)
    (hsize : (plain.drop offset).length ≤ size) (stack : Pointer) :
    cString ((Pointer.overlay plain stack).advance offset) size =
      some ((plain.drop offset).takeWhile (· != 0)) := by
  unfold cString boundedString
  rw [bytes_field, List.take_of_length_le hsize, if_pos (List.mem_append_left _ h),
    takeWhile_append_of_mem h]

/-- An unbounded string that does not end inside the plaintext reads on until the mapped memory
ends. -/
theorem cString_of_not_mem {plain : List UInt8} {offset size : ℕ} (h : 0 ∉ plain.drop offset)
    (hsize : (plain.drop offset).length < size) :
    cString ((Pointer.overlay plain (filled 1)).advance offset) size = none ∧
      (cString ((Pointer.overlay plain (filled 0)).advance offset) size).isSome := by
  unfold cString
  constructor
  · rw [bytes_field, List.take_of_length_le hsize.le, filled_advance, bytes_filled, if_neg]
    intro hmem
    rcases List.mem_append.1 hmem with hmem | hmem
    · exact h hmem
    · exact absurd (List.eq_of_mem_replicate hmem) (by decide)
  · rw [bytes_field, List.take_of_length_le hsize.le, filled_advance, bytes_filled, if_pos]
    · rfl
    · exact List.mem_append_right _ (List.mem_replicate.2 ⟨by omega, rfl⟩)

/-! ## The condition -/

/-- The packet number that the first two bytes of the plaintext give. -/
def plainNum (plain : List UInt8) : ℕ := (plain.getD 0 0).toNat + 256 * (plain.getD 1 0).toNat

/-- No read of the dispatch of this plaintext reaches the stack behind it, or what it reads there
does not matter: the packet number is known or in no case registered; a chat message ends inside
the plaintext or there is no player; and a login has its fields inside the plaintext, or is rejected
for a user name that is, or there is no database. -/
def Determined (view : ServerView) (plain : List UInt8) : Prop :=
  match plain.length with
  | 0 => False
  | 1 => findRegistered (plainNum plain) = none
  | _ =>
      match findRegistered (plainNum plain) with
      | some .reqLobbyChat => view.player = none ∨ 0 ∈ plain.drop sizeofPacketHeader
      | some .reqRoomChat => view.player = none ∨ 0 ∈ plain.drop sizeofPacketHeader
      | some .reqLogin =>
          view.hasDbSystem = false ∨
            FieldDetermined plain sizeofPacketHeader usernameSize ∧
              ((fieldOf plain sizeofPacketHeader usernameSize).length < 4 ∨
                FieldDetermined plain (sizeofPacketHeader + usernameSize) passwordSize)
      | _ => True

/-! ## The outcome of `OnRecv` -/

section Outcome

variable {K : Type*}

/-- What can be observed of a call of `OnRecv`: the handler that runs, the result, what is sent,
queued and submitted, and the new state of the session. -/
structure Outcome (K : Type*) where
  handler : Option PacketEnum
  result : Bool
  actions : List (Action (SecureEvent Output))
  state : SecureState K ServerView

/-- The packet number with which `PacketHandler::Process` was called. -/
def processedNum : Action (SecureEvent Output) → Option ℕ
  | .other (.process num _) => some num
  | _ => none

/-- The actions without the call of `PacketHandler::Process` itself. -/
def observed (actions : List (Action (SecureEvent Output))) : List (Action (SecureEvent Output)) :=
  actions.filter fun action => (processedNum action).isNone

/-- The observable part of a reply of `OnRecv`. -/
def outcome (reply : Reply (SecureState K ServerView) (SecureEvent Output)) : Outcome K where
  handler := (reply.actions.findSome? processedNum).bind findRegistered
  result := reply.result
  actions := observed reply.actions
  state := reply.app

/-- The same environment with the given bytes on the stack. -/
def SecureEnv.withStack (env : SecureEnv K) (stack : Pointer) : SecureEnv K :=
  { env with stack := fun _ => stack }

variable (env : SecureEnv K) (limit : ℕ) (connected : Bool) (st : SecureState K ServerView)

/-- The session after a handler's reply. -/
def handled (reply : HandlerReply ServerView Output) : Activity K ServerView Output :=
  reply.effects.foldl (Activity.effect env (gameHandlers limit))
    ⟨connected, { st with frames := st.frames + 1, app := reply.app }, []⟩

/-- The outcome of the dispatch of the packet at `inner`. -/
def dispatchOutcome (inner : Pointer) : Outcome K :=
  match findRegistered (PacketHeader.packetNum inner) with
  | none => ⟨none, false, [], { st with frames := st.frames + 1 }⟩
  | some packet =>
      let reply := gameHandler limit packet st.app inner
      let final := handled env limit connected st reply
      ⟨some packet, reply.result, observed final.actions, final.state⟩

theorem outcome_process (inner : Pointer) :
    outcome (((st.begin connected : Activity K ServerView Output).process env (gameHandlers limit)
      inner).1.reply ((st.begin connected).process env (gameHandlers limit) inner).2) =
      dispatchOutcome env limit connected st inner := by
  unfold dispatchOutcome Activity.process
  simp only [gameHandlers]
  cases hfind : findRegistered (PacketHeader.packetNum inner) with
  | none => simp [outcome, observed, Activity.reply, Activity.emit, SecureState.begin, processedNum,
      hfind]
  | some packet =>
    have hprepend : (gameHandler limit packet st.app inner).effects.foldl
        (Activity.effect env (gameHandlers limit))
        (((st.begin connected).emit (.process (PacketHeader.packetNum inner)
          (inner.bytes (PacketHeader.dataSize inner)))).modify fun st' =>
            { st' with app := (gameHandler limit packet st.app inner).app }) =
        (handled env limit connected st (gameHandler limit packet st.app inner)).prepend
          [.other (.process (PacketHeader.packetNum inner)
            (inner.bytes (PacketHeader.dataSize inner)))] :=
      Activity.effects_prepend env (gameHandlers limit) [.other (.process _ _)] _
        ⟨connected, { st with
          frames := st.frames + 1, app := (gameHandler limit packet st.app inner).app }, []⟩
    simp only [gameHandlers] at hprepend
    simp only [Option.map_some, SecureState.begin, Activity.emit] at hprepend ⊢
    rw [hprepend]
    simp only [outcome, Activity.reply, Activity.prepend, List.singleton_append]
    congr 1

/-- The outcome of `OnRecv` on an encrypted packet that decrypts. -/
theorem outcome_eq {key plain : List UInt8} (established : st.handshakeDone = true)
    (cipher : st.cipher = some key) {p : Pointer}
    (hnum : PacketHeader.packetNum p = PacketEnum.encrypted.num)
    (window : 28 ≤ payloadLen p ∧ payloadLen p ≤ maxPlainPacketSize + 28)
    (verified : AesGcm.decrypt env.ssl key (payload p) = some plain) (stack : Pointer) :
    outcome (GameSession.onRecv (env.withStack stack) (gameHandlers limit) connected st p) =
      dispatchOutcome env limit connected st (.overlay plain stack) := by
  have hverified : AesGcm.decrypt (env.withStack stack).ssl key (payload p) = some plain := verified
  have hrecv : GameSession.onRecv (env.withStack stack) (gameHandlers limit) connected st p =
      ((st.begin connected).process (env.withStack stack) (gameHandlers limit)
        (.overlay plain stack)).1.reply ((st.begin connected).process (env.withStack stack)
          (gameHandlers limit) (.overlay plain stack)).2 := by
    unfold GameSession.onRecv
    simp only [established, hnum, cipher, hverified, Bool.true_eq_false, if_false, ne_eq,
      not_true_eq_false]
    rw [if_neg (by omega)]
    rfl
  rw [hrecv, outcome_process]
  rfl

/-! ## Determined plaintexts -/

theorem findRegistered_of_le {num : ℕ} (h : 256 ≤ num) : findRegistered num = none := by
  rw [findRegistered, List.find?_eq_none]
  intro packet hmem heq
  have hlt : packet.num < 256 := by
    cases packet <;> decide
  rw [decide_eq_true_eq] at heq
  omega

/-- The registered handler that is found does not depend on the stack. -/
theorem findRegistered_overlay {view : ServerView} {plain : List UInt8} (h : Determined view plain)
    (stack : Pointer) :
    findRegistered (PacketHeader.packetNum (.overlay plain stack)) =
      findRegistered (plainNum plain) := by
  match plain, h with
  | [byte], h =>
    have hnone : findRegistered (plainNum [byte]) = none := h
    rw [hnone]
    by_cases hzero : (stack 1).toNat = 0
    · have hnum : PacketHeader.packetNum (.overlay [byte] stack) = plainNum [byte] := by
        simp [PacketHeader.packetNum, plainNum, Pointer.overlay, hzero]
      rw [hnum, hnone]
    · refine findRegistered_of_le ?_
      have hnum : PacketHeader.packetNum (.overlay [byte] stack) =
          byte.toNat + 256 * (stack 1).toNat := rfl
      omega
  | _ :: _ :: _, _ => rfl

/-- A chat handler on a message that ends inside the plaintext. -/
theorem handleChat_congr (chat : PlayerView → List UInt8 → List Output) {view : ServerView}
    {plain : List UInt8} (hlen : plain.length ≤ limit)
    (h : view.player = none ∨ 0 ∈ plain.drop sizeofPacketHeader) (stack stack' : Pointer) :
    handleChat chat limit view (.overlay plain stack) =
      handleChat chat limit view (.overlay plain stack') := by
  unfold handleChat withPlayer
  cases hplayer : view.player with
  | none => rfl
  | some player =>
    have hzero := h.resolve_left (by simp [hplayer])
    have hsize : (plain.drop sizeofPacketHeader).length ≤ limit - sizeofPacketHeader := by
      rw [List.length_drop]
      omega
    simp only [cString_of_mem hzero hsize]

theorem handleReqLoginPacket_congr {view : ServerView} {plain : List UInt8}
    (h : view.hasDbSystem = false ∨
      FieldDetermined plain sizeofPacketHeader usernameSize ∧
        ((fieldOf plain sizeofPacketHeader usernameSize).length < 4 ∨
          FieldDetermined plain (sizeofPacketHeader + usernameSize) passwordSize))
    (stack stack' : Pointer) :
    handleReqLoginPacket view (.overlay plain stack) =
      handleReqLoginPacket view (.overlay plain stack') := by
  unfold handleReqLoginPacket
  rcases h with h | ⟨huser, h⟩
  · simp [h]
  · simp only [boundedString_of_determined huser]
    rcases h with hshort | hpass
    · simp [hshort]
    · simp only [boundedString_of_determined hpass]

/-- The outcome of a determined plaintext does not depend on the stack. -/
theorem dispatchOutcome_congr {plain : List UInt8} (hlen : plain.length ≤ limit)
    (h : Determined st.app plain) (stack stack' : Pointer) :
    dispatchOutcome env limit connected st (.overlay plain stack) =
      dispatchOutcome env limit connected st (.overlay plain stack') := by
  unfold dispatchOutcome
  rw [findRegistered_overlay h, findRegistered_overlay h]
  cases hfind : findRegistered (plainNum plain) with
  | none => rfl
  | some packet =>
    have hreply : gameHandler limit packet st.app (.overlay plain stack) =
        gameHandler limit packet st.app (.overlay plain stack') := by
      have hcase : 2 ≤ plain.length := by
        match plain, h with
        | [byte], h =>
          rw [show findRegistered (plainNum [byte]) = none from h] at hfind
          cases hfind
        | _ :: _ :: _, _ => simp
      match plain, hcase with
      | b0 :: b1 :: rest, _ =>
        simp only [Determined, List.length_cons, hfind] at h
        cases packet with
        | reqLobbyChat => exact handleChat_congr limit _ hlen h stack stack'
        | reqRoomChat => exact handleChat_congr limit _ hlen h stack stack'
        | reqLogin => exact handleReqLoginPacket_congr h stack stack'
        | _ => rfl
    simp only [hreply]

/-! ## Undetermined plaintexts -/

/-- A chat message that does not end inside the plaintext is queued or faults, as the stack has
it. -/
theorem handleChat_of_not_mem (chat : PlayerView → List UInt8 → List Output) {view : ServerView}
    {plain : List UInt8} (hlen : plain.length < limit) (hheader : sizeofPacketHeader < limit)
    (h : ¬ (view.player = none ∨ 0 ∈ plain.drop sizeofPacketHeader)) :
    (handleChat chat limit view (.overlay plain (filled 1))).result = false ∧
      (handleChat chat limit view (.overlay plain (filled 0))).result = true := by
  rw [not_or] at h
  obtain ⟨player, hplayer⟩ := Option.ne_none_iff_exists'.1 h.1
  have hsize : (plain.drop sizeofPacketHeader).length < limit - sizeofPacketHeader := by
    rw [List.length_drop]
    omega
  obtain ⟨hnone, hsome⟩ := cString_of_not_mem h.2 hsize
  obtain ⟨message, hmessage⟩ := Option.isSome_iff_exists.1 hsome
  unfold handleChat withPlayer
  simp only [hplayer, hnone, hmessage]
  exact ⟨rfl, rfl⟩

/-- A login whose password continues on the stack is submitted with the bytes found there. -/
theorem handleReqLoginPacket_of_password {view : ServerView} {plain : List UInt8}
    (database : view.hasDbSystem = true) {byte : UInt8} (hbyte : byte ≠ 0)
    (huser : 4 ≤ (boundedString ((Pointer.overlay plain (filled byte)).advance sizeofPacketHeader)
      usernameSize).length)
    (h : ¬ FieldDetermined plain (sizeofPacketHeader + usernameSize) passwordSize) :
    ∃ username, handleReqLoginPacket view (.overlay plain (filled byte)) =
      queued true view [.authenticate username (plain.drop (sizeofPacketHeader + usernameSize) ++
        List.replicate (passwordSize - (plain.drop (sizeofPacketHeader + usernameSize)).length)
          byte)] := by
  obtain ⟨hpass, hshort⟩ := boundedString_of_not_determined (by decide) h hbyte
  have hlen : (boundedString ((Pointer.overlay plain (filled byte)).advance
      (sizeofPacketHeader + usernameSize)) passwordSize).length = passwordSize := by
    rw [hpass, List.length_append, List.length_replicate]
    omega
  have hbound := length_boundedString_le
    ((Pointer.overlay plain (filled byte)).advance sizeofPacketHeader) usernameSize
  refine ⟨boundedString ((Pointer.overlay plain (filled byte)).advance sizeofPacketHeader)
    usernameSize, ?_⟩
  unfold handleReqLoginPacket
  have hpassword : passwordSize = 64 := rfl
  have husername : usernameSize = 16 := rfl
  rw [if_neg (by omega), if_pos database, hpass]

/-- An undetermined login is long enough for its password to be submitted, whatever the stack
holds. -/
theorem password_of_not_determined {plain : List UInt8}
    (h : ¬ (FieldDetermined plain sizeofPacketHeader usernameSize ∧
      ((fieldOf plain sizeofPacketHeader usernameSize).length < 4 ∨
        FieldDetermined plain (sizeofPacketHeader + usernameSize) passwordSize)))
    {byte : UInt8} (hbyte : byte ≠ 0) :
    4 ≤ (boundedString ((Pointer.overlay plain (filled byte)).advance sizeofPacketHeader)
        usernameSize).length ∧
      ¬ FieldDetermined plain (sizeofPacketHeader + usernameSize) passwordSize := by
  by_cases huser : FieldDetermined plain sizeofPacketHeader usernameSize
  · rw [not_and, not_or] at h
    rw [boundedString_of_determined huser]
    exact ⟨Nat.le_of_not_lt (h huser).1, (h huser).2⟩
  · obtain ⟨hstring, hshort⟩ := boundedString_of_not_determined (by decide) huser hbyte
    have hsize : sizeofPacketHeader + usernameSize = 20 := rfl
    have hfour : 4 ≤ usernameSize := by decide
    rw [List.length_drop] at hshort
    refine ⟨?_, ?_⟩
    · rw [hstring, List.length_append, List.length_replicate, List.length_drop]
      omega
    · -- A plaintext that ends inside the user name has no byte of the password.
      have hend : plain.drop (sizeofPacketHeader + usernameSize) = [] :=
        List.drop_eq_nil_of_le (by omega)
      unfold FieldDetermined
      rw [hend, not_or]
      have hpos : 0 < passwordSize := by decide
      exact ⟨by omega, by simp⟩

/-- A login that submits the same credentials on every stack is determined. -/
theorem login_determined {view : ServerView} {plain : List UInt8}
    (h : ∀ stack stack' output output',
      handleReqLoginPacket view (.overlay plain stack) = queued true view [output] →
        handleReqLoginPacket view (.overlay plain stack') = queued true view [output'] →
          output = output') :
    view.hasDbSystem = false ∨
      FieldDetermined plain sizeofPacketHeader usernameSize ∧
        ((fieldOf plain sizeofPacketHeader usernameSize).length < 4 ∨
          FieldDetermined plain (sizeofPacketHeader + usernameSize) passwordSize) := by
  by_contra hnot
  rw [not_or, Bool.not_eq_false] at hnot
  have hsubmit : ∀ byte : UInt8, byte ≠ 0 → ∃ username,
      handleReqLoginPacket view (.overlay plain (filled byte)) =
        queued true view [.authenticate username (plain.drop (sizeofPacketHeader + usernameSize) ++
          List.replicate (passwordSize - (plain.drop (sizeofPacketHeader + usernameSize)).length)
            byte)] := by
    intro byte hbyte
    obtain ⟨huser, hpass⟩ := password_of_not_determined hnot.2 hbyte
    exact handleReqLoginPacket_of_password hnot.1 hbyte huser hpass
  obtain ⟨user, ha⟩ := hsubmit 97 (by decide)
  obtain ⟨user', hb⟩ := hsubmit 98 (by decide)
  have houtput := h (filled 97) (filled 98) _ _ ha hb
  rw [Output.authenticate.injEq, List.append_cancel_left_eq] at houtput
  obtain ⟨-, hpass⟩ := password_of_not_determined hnot.2 (show (97 : UInt8) ≠ 0 by decide)
  have hshort := (boundedString_of_not_determined (by decide) hpass
    (show (97 : UInt8) ≠ 0 by decide)).2
  have hbytes := (List.replicate_right_inj (by omega)).1 houtput.2
  exact absurd hbytes (by decide)

/-- A chat message that is handled alike on every stack is determined. -/
theorem chat_determined (chat : PlayerView → List UInt8 → List Output) {view : ServerView}
    {plain : List UInt8} (hlen : plain.length < limit) (hheader : sizeofPacketHeader < limit)
    (h : ∀ stack stack', (handleChat chat limit view (.overlay plain stack)).result =
      (handleChat chat limit view (.overlay plain stack')).result) :
    view.player = none ∨ 0 ∈ plain.drop sizeofPacketHeader := by
  by_contra hnot
  obtain ⟨hfault, hqueued⟩ := handleChat_of_not_mem limit chat hlen hheader hnot
  rw [h (filled 1) (filled 0), hqueued] at hfault
  cases hfault

theorem handled_output (view : ServerView) (output : Output) :
    observed (handled env limit connected st (queued true view [output])).actions =
      [.other (.output output)] := rfl

theorem dispatchOutcome_of_find {inner : Pointer} {packet : PacketEnum}
    (h : findRegistered (PacketHeader.packetNum inner) = some packet) :
    (dispatchOutcome env limit connected st inner).handler = some packet ∧
      (dispatchOutcome env limit connected st inner).result =
        (gameHandler limit packet st.app inner).result ∧
      (dispatchOutcome env limit connected st inner).actions =
        observed
          (handled env limit connected st (gameHandler limit packet st.app inner)).actions := by
  unfold dispatchOutcome
  simp only [h, and_self]

/-- One byte of plaintext that is the low byte of a registered number. -/
theorem dispatchOutcome_singleton {byte : UInt8}
    (h : ∀ stack stack', dispatchOutcome env limit connected st (.overlay [byte] stack) =
      dispatchOutcome env limit connected st (.overlay [byte] stack')) :
    findRegistered (plainNum [byte]) = none := by
  by_contra hnot
  obtain ⟨packet, hfind⟩ := Option.ne_none_iff_exists'.1 hnot
  have hzero := (dispatchOutcome_of_find env limit connected st
    (show findRegistered (PacketHeader.packetNum (.overlay [byte] (filled 0))) = some packet from
      hfind)).1
  have hone : (dispatchOutcome env limit connected st (.overlay [byte] (filled 1))).handler =
      none := by
    have hnum : PacketHeader.packetNum (.overlay [byte] (filled 1)) = byte.toNat + 256 := rfl
    unfold dispatchOutcome
    rw [hnum, findRegistered_of_le (by omega)]
  rw [h (filled 0) (filled 1), hone] at hzero
  cases hzero

/-- A plaintext whose outcome is the same on every stack is determined. -/
theorem determined_of_dispatchOutcome {plain : List UInt8} (hlen : plain.length < limit)
    (hheader : sizeofPacketHeader < limit)
    (h : ∀ stack stack', dispatchOutcome env limit connected st (.overlay plain stack) =
      dispatchOutcome env limit connected st (.overlay plain stack')) :
    Determined st.app plain := by
  match plain, hlen with
  | [], _ =>
    -- The number of an empty packet is what the stack holds: `Test` or nothing registered.
    have hhandler := congrArg Outcome.handler (h (filled 0) (filled 255))
    cases hhandler
  | [byte], _ => exact dispatchOutcome_singleton env limit connected st h
  | b0 :: b1 :: rest, hlen =>
    simp only [Determined, List.length_cons]
    cases hfind : findRegistered (plainNum (b0 :: b1 :: rest)) with
    | none => trivial
    | some packet =>
      have hdispatch := fun stack => (dispatchOutcome_of_find env limit connected st
        (show findRegistered (PacketHeader.packetNum (.overlay (b0 :: b1 :: rest) stack)) =
          some packet from hfind)).2
      have hresult : ∀ stack stack',
          (gameHandler limit packet st.app (.overlay (b0 :: b1 :: rest) stack)).result =
            (gameHandler limit packet st.app (.overlay (b0 :: b1 :: rest) stack')).result := by
        intro stack stack'
        rw [← (hdispatch stack).1, ← (hdispatch stack').1, h stack stack']
      cases packet with
      | reqLobbyChat => exact chat_determined limit _ hlen hheader hresult
      | reqRoomChat => exact chat_determined limit _ hlen hheader hresult
      | reqLogin =>
        refine login_determined ?_
        intro stack stack' output output' hout hout'
        have hactions := congrArg Outcome.actions (h stack stack')
        rw [(hdispatch stack).2, (hdispatch stack').2] at hactions
        simp only [gameHandler, hout, hout', handled_output] at hactions
        injection hactions with haction
        injection haction with hevent
        injection hevent
      | _ => trivial

/-- The plaintext fits into `plainBuf`. -/
theorem length_plain_le {ssl : OpenSsl K} (keepsLength : ssl.KeepsLength) {key plain : List UInt8}
    {p : Pointer} (window : 28 ≤ payloadLen p ∧ payloadLen p ≤ maxPlainPacketSize + 28)
    (verified : AesGcm.decrypt ssl key (payload p) = some plain) :
    plain.length ≤ maxPlainPacketSize := by
  have hlen : (payload p).length = payloadLen p := Pointer.length_bytes _ _
  unfold AesGcm.decrypt at verified
  rw [if_neg (by omega)] at verified
  rw [keepsLength _ _ _ _ _ verified, List.length_take, List.length_drop]
  omega

/-- On a stack with something mapped behind `plainBuf`, the outcome of `OnRecv` on an encrypted
packet that passes the window and the verification is a function of the state and the plaintext
exactly when the plaintext is determined. -/
theorem dispatch_determined_iff (keepsLength : env.ssl.KeepsLength)
    (mapped : maxPlainPacketSize < limit) {key plain : List UInt8}
    (established : st.handshakeDone = true) (cipher : st.cipher = some key) {p : Pointer}
    (hnum : PacketHeader.packetNum p = PacketEnum.encrypted.num)
    (window : 28 ≤ payloadLen p ∧ payloadLen p ≤ maxPlainPacketSize + 28)
    (verified : AesGcm.decrypt env.ssl key (payload p) = some plain) :
    (∀ stack stack',
      outcome (GameSession.onRecv (env.withStack stack) (gameHandlers limit) connected st p) =
        outcome (GameSession.onRecv (env.withStack stack') (gameHandlers limit) connected st p)) ↔
      Determined st.app plain := by
  have hlen := length_plain_le keepsLength window verified
  have hheader : sizeofPacketHeader < maxPlainPacketSize := by decide
  simp only [outcome_eq env limit connected st established cipher hnum window verified]
  constructor
  · exact determined_of_dispatchOutcome env limit connected st (by omega) (by omega)
  · exact fun h => dispatchOutcome_congr env limit connected st (by omega) h

end Outcome

/-! ## Two chat messages -/

/-- An established session whose player is in lobby 0. -/
def chatting : SecureState UInt8 ServerView :=
  ⟨true, some (List.replicate 16 0), none,
    ⟨some ⟨7, [65], some 0, none⟩, true, 0, some 0, [], fun _ => 0⟩, 1, 1, 0, 1⟩

/-- The encrypted packet with this plaintext, for the transparent functions. -/
def sealedFrame (plain : List UInt8) : Pointer :=
  .ofList (encryptedPacket (List.replicate 12 0 ++ plain ++ List.replicate 16 0))

/-- The message `"A"` with its terminator behaves alike on two stacks. -/
theorem dispatch_terminated_chat :
    outcome (GameSession.onRecv (GameSession.sampleEnv.withStack (.ofList [0, 0, 0, 0, 0, 66]))
        (gameHandlers 2000) true chatting
        (sealedFrame (PacketHeader.init .reqLobbyChat 260 ++ [65, 0]))) =
      outcome (GameSession.onRecv (GameSession.sampleEnv.withStack (.ofList []))
        (gameHandlers 2000) true chatting
        (sealedFrame (PacketHeader.init .reqLobbyChat 260 ++ [65, 0]))) :=
  (dispatch_determined_iff GameSession.sampleEnv 2000 true chatting
    OpenSsl.transparent_keepsLength (by decide) rfl rfl (by decide) (by decide)
    (show _ = some (PacketHeader.init .reqLobbyChat 260 ++ [65, 0]) by decide +kernel)).2
    (Or.inr (by decide)) _ _

/-- The message `"A"` without a terminator: the byte that the stack holds behind it is broadcast
with it. -/
theorem dispatch_unterminated_chat :
    (outcome (GameSession.onRecv (GameSession.sampleEnv.withStack (.ofList [0, 0, 0, 0, 0, 66]))
        (gameHandlers 2000) true chatting
        (sealedFrame (PacketHeader.init .reqLobbyChat 260 ++ [65])))).actions =
          [.other (.output (.lobbyChat 0 7 [65, 66]))] ∧
      (outcome (GameSession.onRecv (GameSession.sampleEnv.withStack (.ofList []))
        (gameHandlers 2000) true chatting
        (sealedFrame (PacketHeader.init .reqLobbyChat 260 ++ [65])))).actions =
          [.other (.output (.lobbyChat 0 7 [65]))] := by
  decide +kernel

end DhNet
