import Mathlib.Data.List.Basic
import Mathlib.Data.Fintype.Basic

/-!
# Password records

`CryptoUtil` stores a password as two hex strings, the PBKDF2 hash and the salt.  Strings are lists
of bytes here.  `PKCS5_PBKDF2_HMAC` with its fixed iteration count, digest and output size is a
parameter, `none` being a call that fails.

* `hexToBytes_isSome`, `bytesToHex_of_hexToBytes`: the strings that `HexToBytes` accepts, and what
  `BytesToHex` makes of the result.
* `verifyPassword_eq_true`: what a record that verifies looks like.
* `password_records_verify`: a record verifies exactly the passwords with the hash of its own.
-/

namespace DhNet

namespace CryptoUtil

/-- `HASH_BYTES`. -/
def hashBytes : ℕ := 32

/-- `SALT_BYTES`. -/
def saltBytes : ℕ := 16

/-! ## Hex strings -/

/-- `HEX_CHARS`, `"0123456789abcdef"`. -/
def hexChars : List UInt8 := [48, 49, 50, 51, 52, 53, 54, 55, 56, 57, 97, 98, 99, 100, 101, 102]

/-- The two characters that `BytesToHex` writes for a byte. -/
def byteToHex (b : UInt8) : List UInt8 :=
  [hexChars.getD ((b >>> 4) &&& 0xF).toNat 0, hexChars.getD (b &&& 0xF).toNat 0]

/-- `BytesToHex`. -/
def bytesToHex (data : List UInt8) : List UInt8 := data.flatMap byteToHex

/-- `hexVal`. -/
def hexVal (c : UInt8) : ℤ :=
  if 48 ≤ c ∧ c ≤ 57 then c.toNat - 48
  else if 97 ≤ c ∧ c ≤ 102 then c.toNat - 97 + 10
  else if 65 ≤ c ∧ c ≤ 70 then c.toNat - 65 + 10
  else -1

/-- The byte with these two digits. -/
def hexByte (hi lo : ℤ) : UInt8 := UInt8.ofNat ((hi.toNat <<< 4) ||| lo.toNat)

/-- The loop of `HexToBytes`. -/
def hexToBytesLoop : List UInt8 → Option (List UInt8)
  | hi :: lo :: rest =>
      if hexVal hi < 0 ∨ hexVal lo < 0 then none
      else (hexToBytesLoop rest).map (hexByte (hexVal hi) (hexVal lo) :: ·)
  | _ => some []

/-- `HexToBytes`, `none` where it returns false. -/
def hexToBytes (hex : List UInt8) : Option (List UInt8) :=
  if hex.length % 2 ≠ 0 then none else hexToBytesLoop hex

/-! ## Passwords -/

/-- `PKCS5_PBKDF2_HMAC` on a password and a salt. -/
abbrev Pbkdf2 := List UInt8 → List UInt8 → Option (List UInt8)

/-- `HashPassword`, with what `RAND_bytes` gives: the hash and the salt, in hex. -/
def hashPassword (pbkdf2 : Pbkdf2) (randBytes : Option (List UInt8)) (password : List UInt8) :
    Option (List UInt8 × List UInt8) :=
  match randBytes with
  | none => none
  | some salt =>
      match pbkdf2 password salt with
      | none => none
      | some hash => some (bytesToHex hash, bytesToHex salt)

/-- `VerifyPassword`. -/
def verifyPassword (pbkdf2 : Pbkdf2) (password storedHashHex storedSaltHex : List UInt8) : Bool :=
  match hexToBytes storedSaltHex with
  | none => false
  | some salt =>
      if salt.length ≠ saltBytes then false
      else
        match pbkdf2 password salt with
        | none => false
        | some computed =>
            match hexToBytes storedHashHex with
            | none => false
            | some storedHash =>
                if storedHash.length ≠ hashBytes then false else computed == storedHash

/-! ## What `HexToBytes` accepts -/

/-- The hex digits of either case. -/
def IsHexDigit (c : UInt8) : Prop := (48 ≤ c ∧ c ≤ 57) ∨ (97 ≤ c ∧ c ≤ 102) ∨ (65 ≤ c ∧ c ≤ 70)

instance (c : UInt8) : Decidable (IsHexDigit c) := inferInstanceAs (Decidable (_ ∨ _ ∨ _))

/-- An ASCII character in lower case. -/
def toLower (c : UInt8) : UInt8 := if 65 ≤ c ∧ c ≤ 90 then c + 32 else c

/-- What holds for every byte below 256 holds for every byte. -/
theorem forall_byte {P : UInt8 → Prop} (h : ∀ n : Fin 256, P (UInt8.ofNat n)) (c : UInt8) :
    P c := by
  have hc := h ⟨c.toNat, c.toNat_lt⟩
  rwa [UInt8.ofNat_toNat] at hc

theorem hexVal_nonneg_iff (c : UInt8) : 0 ≤ hexVal c ↔ IsHexDigit c :=
  forall_byte (P := fun c => 0 ≤ hexVal c ↔ IsHexDigit c) (by decide +kernel) c

theorem hexVal_toLower (c : UInt8) : hexVal (toLower c) = hexVal c :=
  forall_byte (P := fun c => hexVal (toLower c) = hexVal c) (by decide +kernel) c

theorem hexVal_lt (c : UInt8) : hexVal c < 16 :=
  forall_byte (P := fun c => hexVal c < 16) (by decide +kernel) c

/-- The digit of a character is the character in lower case. -/
theorem hexChars_hexVal {c : UInt8} (h : IsHexDigit c) :
    hexChars.getD (hexVal c).toNat 0 = toLower c :=
  forall_byte (P := fun c => IsHexDigit c → hexChars.getD (hexVal c).toNat 0 = toLower c)
    (by decide +kernel) c h

theorem byteToHex_hexByte (hi lo : Fin 16) : byteToHex (hexByte hi lo) =
    [hexChars.getD hi 0, hexChars.getD lo 0] := by
  revert hi lo
  decide +kernel

/-- The digits of a byte are hex digits and give the byte back. -/
theorem hexByte_byteToHex (b : UInt8) : ∃ hi lo, byteToHex b = [hi, lo] ∧
    0 ≤ hexVal hi ∧ 0 ≤ hexVal lo ∧ hexByte (hexVal hi) (hexVal lo) = b := by
  refine ⟨_, _, rfl, ?_⟩
  exact forall_byte (P := fun b =>
    0 ≤ hexVal (hexChars.getD ((b >>> 4) &&& 0xF).toNat 0) ∧
      0 ≤ hexVal (hexChars.getD (b &&& 0xF).toNat 0) ∧
      hexByte (hexVal (hexChars.getD ((b >>> 4) &&& 0xF).toNat 0))
        (hexVal (hexChars.getD (b &&& 0xF).toNat 0)) = b) (by decide +kernel) b

theorem length_bytesToHex (data : List UInt8) : (bytesToHex data).length = 2 * data.length := by
  induction data with
  | nil => rfl
  | cons b data ih =>
    have hcons : bytesToHex (b :: data) = byteToHex b ++ bytesToHex data := List.flatMap_cons ..
    rw [hcons, List.length_append, ih, List.length_cons]
    show 2 + _ = _
    omega

/-- `HexToBytes` inverts `BytesToHex`. -/
theorem hexToBytes_bytesToHex (data : List UInt8) : hexToBytes (bytesToHex data) = some data := by
  have heven : (bytesToHex data).length % 2 = 0 := by
    rw [length_bytesToHex]
    omega
  rw [hexToBytes, if_neg (not_not.2 heven)]
  clear heven
  induction data with
  | nil => rfl
  | cons b data ih =>
    obtain ⟨hi, lo, hdigits, hhi, hlo, hbyte⟩ := hexByte_byteToHex b
    have hcons : bytesToHex (b :: data) = hi :: lo :: bytesToHex data := by
      rw [bytesToHex, List.flatMap_cons, hdigits]
      rfl
    rw [hcons, hexToBytesLoop, if_neg (by omega), ih, hbyte]
    rfl

theorem hexToBytesLoop_isSome {hex : List UInt8} (heven : hex.length % 2 = 0) :
    (hexToBytesLoop hex).isSome = true ↔ ∀ c ∈ hex, IsHexDigit c := by
  induction hex using hexToBytesLoop.induct with
  | case1 hi lo rest hbad =>
    rw [hexToBytesLoop, if_pos hbad]
    refine iff_of_false nofun fun hall => ?_
    have hhi := (hexVal_nonneg_iff hi).2 (hall hi (by simp))
    have hlo := (hexVal_nonneg_iff lo).2 (hall lo (by simp))
    omega
  | case2 hi lo rest hgood ih =>
    have hrest : rest.length % 2 = 0 := by
      simp only [List.length_cons] at heven
      omega
    rw [hexToBytesLoop, if_neg hgood, Option.isSome_map, ih hrest]
    simp only [List.forall_mem_cons, ← hexVal_nonneg_iff]
    constructor
    · exact fun h => ⟨by omega, by omega, h⟩
    · exact fun h => h.2.2
  | case3 hex hshort =>
    match hex with
    | [] => simp [hexToBytesLoop]
    | [c] => cases heven
    | hi :: lo :: rest => exact absurd rfl (hshort hi lo rest)

/-- `HexToBytes` accepts the strings of hex digits of even length. -/
theorem hexToBytes_isSome (hex : List UInt8) :
    (hexToBytes hex).isSome = true ↔ hex.length % 2 = 0 ∧ ∀ c ∈ hex, IsHexDigit c := by
  unfold hexToBytes
  split_ifs with hodd
  · exact iff_of_false nofun fun h => hodd h.1
  · rw [hexToBytesLoop_isSome (not_not.1 hodd)]
    exact ⟨fun h => ⟨not_not.1 hodd, h⟩, And.right⟩

theorem bytesToHex_of_loop {hex data : List UInt8} (heven : hex.length % 2 = 0)
    (h : hexToBytesLoop hex = some data) : bytesToHex data = hex.map toLower := by
  induction hex using hexToBytesLoop.induct generalizing data with
  | case1 hi lo rest hbad =>
    rw [hexToBytesLoop, if_pos hbad] at h
    cases h
  | case2 hi lo rest hgood ih =>
    rw [hexToBytesLoop, if_neg hgood] at h
    obtain ⟨tail, htail, rfl⟩ := Option.map_eq_some_iff.1 h
    have hrest : rest.length % 2 = 0 := by
      simp only [List.length_cons] at heven
      omega
    have hhi : 0 ≤ hexVal hi := by omega
    have hlo : 0 ≤ hexVal lo := by omega
    have hhilt := hexVal_lt hi
    have hlolt := hexVal_lt lo
    have hbyte := byteToHex_hexByte ⟨(hexVal hi).toNat, by omega⟩ ⟨(hexVal lo).toNat, by omega⟩
    simp only [Int.toNat_of_nonneg hhi, Int.toNat_of_nonneg hlo,
      hexChars_hexVal ((hexVal_nonneg_iff hi).1 hhi),
      hexChars_hexVal ((hexVal_nonneg_iff lo).1 hlo)] at hbyte
    rw [bytesToHex, List.flatMap_cons, hbyte, ← bytesToHex, ih hrest htail]
    rfl
  | case3 hex hshort =>
    match hex with
    | [] =>
      cases h
      rfl
    | [c] => cases heven
    | hi :: lo :: rest => exact absurd rfl (hshort hi lo rest)

/-- `BytesToHex` gives an accepted string back in lower case. -/
theorem bytesToHex_of_hexToBytes {hex data : List UInt8} (h : hexToBytes hex = some data) :
    bytesToHex data = hex.map toLower := by
  unfold hexToBytes at h
  split_ifs at h with hodd
  exact bytesToHex_of_loop (not_not.1 hodd) h

theorem hexToBytesLoop_toLower (hex : List UInt8) :
    hexToBytesLoop (hex.map toLower) = hexToBytesLoop hex := by
  induction hex using hexToBytesLoop.induct with
  | case1 hi lo rest hbad =>
    simp only [List.map_cons, hexToBytesLoop, hexVal_toLower, if_pos hbad]
  | case2 hi lo rest hgood ih =>
    simp only [List.map_cons, hexToBytesLoop, hexVal_toLower, if_neg hgood, ih]
  | case3 hex hshort =>
    match hex with
    | [] => rfl
    | [c] => rfl
    | hi :: lo :: rest => exact absurd rfl (hshort hi lo rest)

/-- The case of the letters makes no difference. -/
theorem hexToBytes_toLower (hex : List UInt8) : hexToBytes (hex.map toLower) = hexToBytes hex := by
  rw [hexToBytes, List.length_map, hexToBytesLoop_toLower, hexToBytes]

theorem hexToBytes_recased {hex hex' : List UInt8} (h : hex'.map toLower = hex.map toLower) :
    hexToBytes hex' = hexToBytes hex := by
  rw [← hexToBytes_toLower, h, hexToBytes_toLower]

/-- What is decoded has half the length, and was made of hex digits. -/
theorem isHex_of_hexToBytes {hex data : List UInt8} (h : hexToBytes hex = some data) :
    hex.length = 2 * data.length ∧ ∀ c ∈ hex, IsHexDigit c := by
  refine ⟨?_, ((hexToBytes_isSome hex).1 (by rw [h]; rfl)).2⟩
  rw [← length_bytesToHex, bytesToHex_of_hexToBytes h, List.length_map]

/-! ## What `VerifyPassword` accepts -/

variable {pbkdf2 : Pbkdf2} {password hashHex saltHex : List UInt8}

/-- A record verifies when it is the hex of 16 bytes of salt and of the hash with that salt. -/
theorem verifyPassword_eq_true :
    verifyPassword pbkdf2 password hashHex saltHex = true ↔
      ∃ salt hash, hexToBytes saltHex = some salt ∧ salt.length = saltBytes ∧
        hexToBytes hashHex = some hash ∧ hash.length = hashBytes ∧
        pbkdf2 password salt = some hash := by
  unfold verifyPassword
  constructor
  · intro h
    split at h
    · cases h
    next salt hsalt =>
      split_ifs at h with hlength
      split at h
      · cases h
      next computed hcomputed =>
        split at h
        · cases h
        next hash hhash =>
          split_ifs at h with hsize
          obtain rfl : computed = hash := by simpa using h
          exact ⟨salt, computed, hsalt, not_not.1 hlength, hhash, not_not.1 hsize, hcomputed⟩
  · rintro ⟨salt, hash, hsalt, hlength, hhash, hsize, hcomputed⟩
    simp [hsalt, hlength, hcomputed, hhash, hsize]

theorem hashPassword_eq_some {salt : List UInt8} :
    hashPassword pbkdf2 (some salt) password = some (hashHex, saltHex) ↔
      ∃ hash, pbkdf2 password salt = some hash ∧ hashHex = bytesToHex hash ∧
        saltHex = bytesToHex salt := by
  simp only [hashPassword]
  cases h : pbkdf2 password salt with
  | none => simp
  | some hash => simp [eq_comm]

/-- `HexToBytes` inverts `BytesToHex`, accepts the strings of hex digits of even length, and gives
back what `BytesToHex` writes in lower case.  So a record made by `HashPassword` verifies exactly
the passwords with the same hash, re-casing a record does not change the verdict, and nothing but
the hex of 32 and of 16 bytes verifies. -/
theorem password_records_verify (pbkdf2 : Pbkdf2)
    (total : ∀ password salt, salt.length = saltBytes →
      ∃ hash, pbkdf2 password salt = some hash ∧ hash.length = hashBytes) :
    (∀ data, hexToBytes (bytesToHex data) = some data) ∧
    (∀ hex, (hexToBytes hex).isSome = true ↔ hex.length % 2 = 0 ∧ ∀ c ∈ hex, IsHexDigit c) ∧
    (∀ hex data, hexToBytes hex = some data → bytesToHex data = hex.map toLower) ∧
    (∀ p salt hashHex saltHex, salt.length = saltBytes →
      hashPassword pbkdf2 (some salt) p = some (hashHex, saltHex) → ∀ q,
        (verifyPassword pbkdf2 q hashHex saltHex = true ↔ pbkdf2 q salt = pbkdf2 p salt)) ∧
    (∀ q hashHex saltHex hashHex' saltHex', hashHex'.map toLower = hashHex.map toLower →
      saltHex'.map toLower = saltHex.map toLower →
        verifyPassword pbkdf2 q hashHex' saltHex' = verifyPassword pbkdf2 q hashHex saltHex) ∧
    (∀ q hashHex saltHex,
      ¬ (hashHex.length = 2 * hashBytes ∧ ∀ c ∈ hashHex, IsHexDigit c) ∨
        ¬ (saltHex.length = 2 * saltBytes ∧ ∀ c ∈ saltHex, IsHexDigit c) →
      verifyPassword pbkdf2 q hashHex saltHex = false) := by
  refine ⟨hexToBytes_bytesToHex, hexToBytes_isSome, fun _ _ => bytesToHex_of_hexToBytes,
    ?_, ?_, ?_⟩
  · intro p salt hashHex saltHex hlength hrecord q
    obtain ⟨hash, hp, rfl, rfl⟩ := hashPassword_eq_some.1 hrecord
    have hsize : hash.length = hashBytes := by
      obtain ⟨hash', hp', hsize⟩ := total p salt hlength
      rw [hp] at hp'
      obtain rfl := Option.some.inj hp'
      exact hsize
    rw [verifyPassword_eq_true, hexToBytes_bytesToHex, hexToBytes_bytesToHex, hp]
    constructor
    · rintro ⟨salt', hash', hsalt, -, hhash, -, hq⟩
      obtain rfl := Option.some.inj hsalt
      obtain rfl := Option.some.inj hhash
      exact hq
    · exact fun hq => ⟨salt, hash, rfl, hlength, rfl, hsize, hq⟩
  · intro q hashHex saltHex hashHex' saltHex' hhash hsalt
    unfold verifyPassword
    rw [hexToBytes_recased hhash, hexToBytes_recased hsalt]
  · intro q hashHex saltHex hbad
    by_contra hverified
    rw [Bool.not_eq_false, verifyPassword_eq_true] at hverified
    obtain ⟨salt, hash, hsalt, hlength, hhash, hsize, -⟩ := hverified
    have hhex := isHex_of_hexToBytes hhash
    have shex := isHex_of_hexToBytes hsalt
    rw [hsize] at hhex
    rw [hlength] at shex
    exact hbad.elim (fun h => h hhex) fun h => h shex

/-- With a function that only looks at the length, a record verifies the passwords of one length. -/
theorem password_records_verify_by_length :
    let pbkdf2 : Pbkdf2 := fun password _ => some (List.replicate 32 (UInt8.ofNat password.length))
    let hashHex := bytesToHex (List.replicate 32 2)
    let saltHex := bytesToHex (List.replicate 16 171)
    hashPassword pbkdf2 (some (List.replicate 16 171)) [112, 119] = some (hashHex, saltHex) ∧
      verifyPassword pbkdf2 [113, 120] hashHex (saltHex.map fun c => if c = 97 then 65 else c) =
        true ∧
      ¬ verifyPassword pbkdf2 [113] hashHex saltHex = true := by
  intro pbkdf2 hashHex saltHex
  obtain ⟨-, -, -, hverify, hrecased, -⟩ := password_records_verify pbkdf2
    fun _ _ _ => ⟨_, rfl, List.length_replicate⟩
  have hrecord : hashPassword pbkdf2 (some (List.replicate 16 171)) [112, 119] =
    some (hashHex, saltHex) := rfl
  refine ⟨hrecord, ?_, ?_⟩
  · rw [hrecased _ hashHex saltHex hashHex _ rfl (by decide)]
    exact (hverify _ _ _ _ rfl hrecord _).2 rfl
  · rw [hverify _ _ _ _ rfl hrecord]
    decide

end CryptoUtil

end DhNet
