import Mathlib.Data.List.TakeWhile
import DhNet.Client.ServerSession
import DhNet.Game.SessionSenders

/-!
# The names and passwords of a login

`ReqLogin` and `ResLogin` hold their strings in fixed fields.  `Init` copies at most the size of a
field less one and stores a terminator in its last byte, whereas `HandleReqLoginPacket` reads up to
the size of the field and accepts a user name or a password that fills it.

* `boundedString_overlay`: a terminated string is read back from a field.
* `copyField_eq`: what `Init` leaves in a field.
* `login_round_trip_iff`: user name and password arrive as they are, and the name comes back,
  exactly if both are shorter than their fields.
-/

namespace DhNet

/-- A `uint64` in little-endian order. -/
def uint64At (p : Pointer) : ℕ := (p.bytes 8).foldr (fun b n => b.toNat + 256 * n) 0

/-- `HandleResLoginPacket`: the id and the name it gives to the session, `none` when the name is not
terminated within the `limit` bytes that are mapped from the packet on. -/
def handleResLoginPacket (limit : ℕ) (p : Pointer) : Option (ℕ × List UInt8) :=
  (cString (p.advance (sizeofPacketHeader + 8)) (limit - (sizeofPacketHeader + 8))).map fun name =>
    (uint64At (p.advance sizeofPacketHeader), name)

/-! ## Terminated strings -/

section Fields

variable {text tail : List UInt8} {rest : Pointer} {size : ℕ}

theorem zero_notMem_fieldChars (text : List UInt8) (size : ℕ) : 0 ∉ fieldChars text size := by
  intro hmem
  simpa using List.mem_takeWhile_imp (List.mem_of_mem_take hmem)

theorem length_fieldChars_lt (text : List UInt8) (hsize : 0 < size) :
    (fieldChars text size).length < size := by
  rw [fieldChars, List.length_take]
  omega

theorem fieldChars_of_notMem (h : 0 ∉ text) : fieldChars text size = text.take (size - 1) := by
  have hall : text.takeWhile (· != 0) = text := by
    refine List.takeWhile_eq_self_iff.2 fun c hc => ?_
    simpa using fun hzero : c = 0 => h (hzero ▸ hc)
  rw [fieldChars, hall]

/-- A field keeps the strings that are shorter than it. -/
theorem fieldChars_eq_self_iff (h : 0 ∉ text) (hsize : 0 < size) :
    fieldChars text size = text ↔ text.length < size := by
  rw [fieldChars_of_notMem h]
  constructor
  · intro htake
    have hlength := congrArg List.length htake
    rw [List.length_take] at hlength
    omega
  · intro hlt
    exact List.take_of_length_le (by omega)

theorem bytes_overlay_terminated (tail : List UInt8) (rest : Pointer) (hlt : text.length < size) :
    ∃ more, (Pointer.overlay (text ++ 0 :: tail) rest).bytes size = text ++ 0 :: more := by
  obtain ⟨k, hk⟩ : ∃ k, size - text.length = k + 1 := ⟨size - text.length - 1, by omega⟩
  rw [Pointer.bytes_overlay, List.take_append, List.take_of_length_le hlt.le, hk,
    List.take_succ_cons, List.append_assoc, List.cons_append]
  exact ⟨_, rfl⟩

/-- A terminated string is read back from a field. -/
theorem boundedString_overlay (h : 0 ∉ text) (hlt : text.length < size) :
    boundedString (.overlay (text ++ 0 :: tail) rest) size = text := by
  obtain ⟨more, hbytes⟩ := bytes_overlay_terminated tail rest hlt
  have hall : ∀ c ∈ text, (c != 0) = true := by
    intro c hc
    simpa using fun hzero : c = 0 => h (hzero ▸ hc)
  rw [boundedString, hbytes, List.takeWhile_append_of_pos hall,
    List.takeWhile_cons_of_neg (by simp), List.append_nil]

theorem cString_overlay (h : 0 ∉ text) (hlt : text.length < size) :
    cString (.overlay (text ++ 0 :: tail) rest) size = some text := by
  obtain ⟨more, hbytes⟩ := bytes_overlay_terminated tail rest hlt
  rw [cString, if_pos (by simp [hbytes]), boundedString_overlay h hlt]

/-- What `Init` leaves in a field: the string, its terminator, and what stood there before. -/
theorem copyField_eq (text : List UInt8) (hsize : 0 < size) (field : Pointer) :
    ∃ tail, copyField text size field = fieldChars text size ++ 0 :: tail ∧
      (copyField text size field).length = size := by
  have hlt := length_fieldChars_lt text hsize
  unfold copyField
  generalize hjunk : (field.advance ((fieldChars text size).length + 1)).bytes size = junk
  have hlength : junk.length = size := by simp [← hjunk, Pointer.bytes]
  rw [List.take_append, List.take_of_length_le (by omega)]
  cases hrest : size - 1 - (fieldChars text size).length with
  | zero =>
    refine ⟨[], by simp, ?_⟩
    simp only [List.take_zero, List.append_nil, List.length_append, List.length_singleton]
    omega
  | succ k =>
    refine ⟨junk.take k ++ [0], by simp, ?_⟩
    simp only [List.take_succ_cons, List.length_append, List.length_cons, List.length_take,
      List.length_nil, hlength]
    omega

end Fields

/-! ## The login -/

section Login

variable {username password : List UInt8} {playerId : ℕ}

/-- The server reads what the fields of `ReqLogin` could take. -/
theorem boundedString_reqLogin (username password : List UInt8) (chunk rest : Pointer) :
    boundedString ((Pointer.overlay (reqLogin username password chunk) rest).advance
        sizeofPacketHeader) usernameSize = fieldChars username usernameSize ∧
      boundedString ((Pointer.overlay (reqLogin username password chunk) rest).advance
        (sizeofPacketHeader + usernameSize)) passwordSize = fieldChars password passwordSize := by
  obtain ⟨tail, huser, hulength⟩ := copyField_eq username (show 0 < usernameSize by decide)
    (chunk.advance sizeofPacketHeader)
  obtain ⟨tail', hpass, -⟩ := copyField_eq password (show 0 < passwordSize by decide)
    (chunk.advance (sizeofPacketHeader + usernameSize))
  have hheader : (PacketHeader.init .reqLogin sizeofReqLogin).length = sizeofPacketHeader :=
    length_init ..
  constructor
  · rw [Pointer.overlay_advance, reqLogin, List.append_assoc, List.drop_left' hheader, huser,
      List.append_assoc, List.cons_append]
    exact boundedString_overlay (zero_notMem_fieldChars _ _) (length_fieldChars_lt _ (by decide))
  · rw [Pointer.overlay_advance, reqLogin, hpass]
    rw [List.drop_left' (by rw [List.length_append, hheader, hulength])]
    exact boundedString_overlay (zero_notMem_fieldChars _ _) (length_fieldChars_lt _ (by decide))

theorem handleReqLoginPacket_reqLogin {view : ServerView} (hdb : view.hasDbSystem = true)
    (huser : 4 ≤ (fieldChars username usernameSize).length)
    (hpass : 8 ≤ (fieldChars password passwordSize).length) (chunk rest : Pointer) :
    handleReqLoginPacket view (.overlay (reqLogin username password chunk) rest) =
      queued true view [.authenticate (fieldChars username usernameSize)
        (fieldChars password passwordSize)] := by
  have hulength : (fieldChars username usernameSize).length < 16 :=
    length_fieldChars_lt username (by decide)
  have hplength : (fieldChars password passwordSize).length < 64 :=
    length_fieldChars_lt password (by decide)
  obtain ⟨hureads, hpreads⟩ := boundedString_reqLogin username password chunk rest
  unfold handleReqLoginPacket
  rw [hureads, hpreads, if_neg (by omega), if_pos hdb]

theorem handleResLoginPacket_name (limit : ℕ) (p : Pointer) :
    (handleResLoginPacket limit p).map Prod.snd =
      cString (p.advance (sizeofPacketHeader + 8)) (limit - (sizeofPacketHeader + 8)) := by
  simp [handleResLoginPacket, Function.comp_def]

/-- The client reads what the field of `ResLogin` could take. -/
theorem handleResLoginPacket_resLogin (name : List UInt8) (playerId : ℕ) (chunk rest : Pointer)
    {limit : ℕ} (hlimit : SessionSenders.sizeofResLogin ≤ limit) :
    (handleResLoginPacket limit (.overlay ((SessionSenders.resLogin playerId name chunk).bytes
      SessionSenders.sizeofResLogin) rest)).map Prod.snd =
      some (fieldChars name playerNameSize) := by
  have hfield : (fieldChars name playerNameSize).length < playerNameSize :=
    length_fieldChars_lt name (by decide)
  have hroom : playerNameSize ≤ limit - (sizeofPacketHeader + 8) := by
    have : sizeofPacketHeader + 8 + playerNameSize ≤ limit := hlimit
    omega
  have hfront : (PacketHeader.init .resLogin SessionSenders.sizeofResLogin ++
      SessionSenders.uint64Bytes playerId).length = sizeofPacketHeader + 8 := rfl
  -- the part that is written lies within the packet
  have hwritten : (PacketHeader.init .resLogin SessionSenders.sizeofResLogin ++
      SessionSenders.uint64Bytes playerId ++ fieldChars name playerNameSize ++ [0]).length ≤
        SessionSenders.sizeofResLogin := by
    rw [List.length_append, List.length_append, hfront, List.length_singleton]
    exact Nat.add_le_add_left hfield _
  rw [SessionSenders.resLogin, Pointer.bytes_overlay, List.take_of_length_le hwritten,
    handleResLoginPacket_name, Pointer.overlay_advance, List.append_assoc, List.append_assoc,
    List.drop_left' hfront, List.singleton_append,
    cString_overlay (zero_notMem_fieldChars _ _) (hfield.trans_le hroom)]

/-- The server gets user name and password as they were given to `ReqLogin::Init`, and the client
gets the name back, exactly if the two are shorter than their fields. -/
theorem login_round_trip_iff (huser : 0 ∉ username) (hpass : 0 ∉ password)
    (hulength : 4 ≤ username.length ∧ username.length ≤ 16)
    (hplength : 8 ≤ password.length ∧ password.length ≤ 64) (playerId : ℕ)
    (chunk reply rest : Pointer) {limit : ℕ} (hlimit : SessionSenders.sizeofResLogin ≤ limit) :
    ((∀ view : ServerView, view.hasDbSystem = true →
        handleReqLoginPacket view (.overlay (reqLogin username password chunk) rest) =
          queued true view [.authenticate username password]) ∧
      (handleResLoginPacket limit (.overlay ((SessionSenders.resLogin playerId username reply).bytes
        SessionSenders.sizeofResLogin) rest)).map Prod.snd = some username) ↔
      username.length < usernameSize ∧ password.length < passwordSize := by
  have hureads : 4 ≤ (fieldChars username usernameSize).length := by
    rw [fieldChars_of_notMem huser, List.length_take]
    exact le_min (by decide) hulength.1
  have hpreads : 8 ≤ (fieldChars password passwordSize).length := by
    rw [fieldChars_of_notMem hpass, List.length_take]
    exact le_min (by decide) hplength.1
  rw [handleResLoginPacket_resLogin _ _ _ _ hlimit, Option.some_inj,
    ← fieldChars_eq_self_iff huser (show 0 < usernameSize by decide),
    ← fieldChars_eq_self_iff hpass (show 0 < passwordSize by decide)]
  constructor
  · rintro ⟨hserver, -⟩
    have hview := hserver ⟨none, true, 0, none, [], chunk⟩ rfl
    rw [handleReqLoginPacket_reqLogin rfl hureads hpreads] at hview
    injection hview with _ heffects
    injection heffects with heffect
    injection heffect with houtput
    injection houtput with husername hpassword
    exact ⟨husername, hpassword⟩
  · rintro ⟨hu, hp⟩
    refine ⟨fun view hdb => ?_, hu⟩
    rw [handleReqLoginPacket_reqLogin hdb hureads hpreads, hu, hp]

/-- `"user"` with the password `"password"` logs in under its name. -/
theorem login_round_trip_iff_user :
    ((∀ view : ServerView, view.hasDbSystem = true →
        handleReqLoginPacket view (.overlay (reqLogin [117, 115, 101, 114]
          [112, 97, 115, 115, 119, 111, 114, 100] fun _ => 0) fun _ => 0) =
            queued true view [.authenticate [117, 115, 101, 114]
              [112, 97, 115, 115, 119, 111, 114, 100]]) ∧
      (handleResLoginPacket 28 (.overlay ((SessionSenders.resLogin 7 [117, 115, 101, 114]
        fun _ => 0).bytes SessionSenders.sizeofResLogin) fun _ => 0)).map Prod.snd =
          some [117, 115, 101, 114]) :=
  (login_round_trip_iff (by decide) (by decide) (by decide) (by decide) 7 _ _ _ le_rfl).2
    (by decide)

/-- A user name of sixteen characters and a password of sixty-four lose their last characters on
the way to the server, which looks for another account, and the name on the way back. -/
theorem full_fields_are_cut :
    (∀ view : ServerView, view.hasDbSystem = true →
        handleReqLoginPacket view (.overlay (reqLogin (List.replicate 16 97)
          (List.replicate 64 98) fun _ => 0) fun _ => 0) =
            queued true view [.authenticate (List.replicate 15 97) (List.replicate 63 98)]) ∧
      (handleResLoginPacket 28 (.overlay ((SessionSenders.resLogin 7 (List.replicate 16 97)
        fun _ => 0).bytes SessionSenders.sizeofResLogin) fun _ => 0)).map Prod.snd =
          some (List.replicate 15 97) :=
  ⟨fun _ hdb => handleReqLoginPacket_reqLogin hdb (by decide) (by decide) _ _,
    handleResLoginPacket_resLogin (List.replicate 16 97) 7 _ _ le_rfl⟩

end Login

end DhNet
