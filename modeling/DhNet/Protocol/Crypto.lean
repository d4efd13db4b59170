import DhNet.Protocol.Packet

/-!
# Key exchange and encryption

`EcdhKeyExchange` and `AesGcm` over the functions of OpenSSL that they call.  A private key is a
value of an arbitrary type; every OpenSSL function may fail.  What the functions have to satisfy for
two parties to understand each other is collected in `OpenSsl.Lawful`.
-/

namespace DhNet

/-- The OpenSSL functions used, over private keys `K`: the shared secret with a peer's encoded
public key, the encoded public key, SHA-256, and AES-128-GCM. -/
structure OpenSsl (K : Type*) where
  deriveSecret : K → List UInt8 → Option (List UInt8)
  encodePublic : K → Option (List UInt8)
  sha256 : List UInt8 → Option (List UInt8)
  gcmEncrypt : List UInt8 → List UInt8 → List UInt8 → Option (List UInt8 × List UInt8)
  gcmDecrypt : List UInt8 → List UInt8 → List UInt8 → List UInt8 → Option (List UInt8)

namespace EcdhKeyExchange

variable {K : Type*} (ssl : OpenSsl K)

/-- `EcdhKeyExchange::GetPublicKeyBytes`. -/
def getPublicKeyBytes (key : K) : Option (List UInt8) :=
  (ssl.encodePublic key).filter fun pub => pub.length = pubKeySize

/-- `EcdhKeyExchange::DeriveSharedSecret`. -/
def deriveSharedSecret (myPriv : K) (peerPub65 : List UInt8) : Option (List UInt8) :=
  (ssl.deriveSecret myPriv peerPub65).filter fun secret => secret.length = 32

/-- The characters of `"DhNet-session-key"`. -/
def label : List UInt8 :=
  [68, 104, 78, 101, 116, 45, 115, 101, 115, 115, 105, 111, 110, 45, 107, 101, 121]

/-- `EcdhKeyExchange::DeriveSessionKey`. -/
def deriveSessionKey (secret32 : List UInt8) : Option (List UInt8) :=
  ((ssl.sha256 (label ++ secret32)).filter fun hash => hash.length = 32).map (List.take 16)

end EcdhKeyExchange

namespace AesGcm

variable {K : Type*} (ssl : OpenSsl K)

/-- `AesGcm::Encrypt`: the nonce, the ciphertext and the tag. -/
def encrypt (key nonce plain : List UInt8) : Option (List UInt8) :=
  (ssl.gcmEncrypt key nonce plain).map fun out => nonce ++ out.1 ++ out.2

/-- `AesGcm::Decrypt`. -/
def decrypt (key input : List UInt8) : Option (List UInt8) :=
  if input.length < 28 then none
  else
    ssl.gcmDecrypt key (input.take 12) ((input.drop 12).take (input.length - 28))
      (input.drop (12 + (input.length - 28)))

end AesGcm

/-- Nothing fails, ECDH is commutative, and decryption undoes encryption; the outputs have the
lengths of P-256, SHA-256 and GCM. -/
structure OpenSsl.Lawful {K : Type*} (ssl : OpenSsl K) : Prop where
  publicKey : ∀ a, ∃ pub, ssl.encodePublic a = some pub ∧ pub.length = pubKeySize
  secret : ∀ a b pub, ssl.encodePublic b = some pub →
    ∃ secret, ssl.deriveSecret a pub = some secret ∧ secret.length = 32
  commutes : ∀ a b pubA pubB, ssl.encodePublic a = some pubA → ssl.encodePublic b = some pubB →
    ssl.deriveSecret a pubB = ssl.deriveSecret b pubA
  hash : ∀ bytes, ∃ hash, ssl.sha256 bytes = some hash ∧ hash.length = 32
  encrypt : ∀ key nonce plain, ∃ cipher tag, ssl.gcmEncrypt key nonce plain = some (cipher, tag) ∧
    cipher.length = plain.length ∧ tag.length = 16 ∧
      ssl.gcmDecrypt key nonce cipher tag = some plain

/-- Decryption keeps the length, as a counter mode does. -/
def OpenSsl.KeepsLength {K : Type*} (ssl : OpenSsl K) : Prop :=
  ∀ key nonce cipher tag plain, ssl.gcmDecrypt key nonce cipher tag = some plain →
    plain.length = cipher.length

namespace OpenSsl.Lawful

variable {K : Type*} {ssl : OpenSsl K} (lawful : ssl.Lawful)

include lawful

/-- The payload of an encrypted packet is 28 bytes longer than its content, which it gives back. -/
theorem encrypt_decrypt (key nonce plain : List UInt8) (hnonce : nonce.length = 12) :
    ∃ payload, AesGcm.encrypt ssl key nonce plain = some payload ∧
      payload.length = plain.length + 28 ∧ AesGcm.decrypt ssl key payload = some plain := by
  obtain ⟨cipher, tag, henc, hcipher, htag, hdec⟩ := lawful.encrypt key nonce plain
  refine ⟨nonce ++ cipher ++ tag, by simp [AesGcm.encrypt, henc], ?_, ?_⟩
  · simp only [List.length_append, hnonce, hcipher, htag]
    omega
  · have hlen : (nonce ++ cipher ++ tag).length - 28 = cipher.length := by
      simp only [List.length_append, hnonce, htag]
      omega
    rw [AesGcm.decrypt, if_neg (by simp only [List.length_append]; omega), hlen,
      List.append_assoc, List.take_left' hnonce, List.drop_left' hnonce, List.take_left,
      ← List.append_assoc, List.drop_left' (by simp [hnonce]), hdec]

/-- Both parties derive the same session key. -/
theorem session_key (a b : K) :
    ∃ pubA pubB secret key, EcdhKeyExchange.getPublicKeyBytes ssl a = some pubA ∧
      EcdhKeyExchange.getPublicKeyBytes ssl b = some pubB ∧
      EcdhKeyExchange.deriveSharedSecret ssl a pubB = some secret ∧
      EcdhKeyExchange.deriveSharedSecret ssl b pubA = some secret ∧
      EcdhKeyExchange.deriveSessionKey ssl secret = some key := by
  obtain ⟨pubA, hA, lenA⟩ := lawful.publicKey a
  obtain ⟨pubB, hB, lenB⟩ := lawful.publicKey b
  obtain ⟨secret, hsecret, lenS⟩ := lawful.secret a b pubB hB
  obtain ⟨hash, hhash, lenH⟩ := lawful.hash (EcdhKeyExchange.label ++ secret)
  have hcomm := lawful.commutes a b pubA pubB hA hB
  refine ⟨pubA, pubB, secret, hash.take 16, ?_, ?_, ?_, ?_, ?_⟩
  · simp [EcdhKeyExchange.getPublicKeyBytes, hA, lenA]
  · simp [EcdhKeyExchange.getPublicKeyBytes, hB, lenB]
  · simp [EcdhKeyExchange.deriveSharedSecret, hsecret, lenS]
  · simp [EcdhKeyExchange.deriveSharedSecret, ← hcomm, hsecret, lenS]
  · simp [EcdhKeyExchange.deriveSessionKey, hhash, lenH]

end OpenSsl.Lawful

theorem EcdhKeyExchange.length_getPublicKeyBytes {K : Type*} {ssl : OpenSsl K} {key : K}
    {pub : List UInt8} (h : getPublicKeyBytes ssl key = some pub) : pub.length = pubKeySize := by
  simpa using (Option.filter_eq_some_iff.1 h).2

/-- Functions that satisfy the laws and keep no secret, for examples. -/
def OpenSsl.transparent : OpenSsl UInt8 where
  deriveSecret a pub :=
    match pub with
    | 4 :: b :: _ => some (List.replicate 32 (a + b))
    | _ => none
  encodePublic a := some (4 :: a :: List.replicate 63 0)
  sha256 bytes := some (List.replicate 32 (bytes.getLastD 0))
  gcmEncrypt _ _ plain := some (plain, List.replicate 16 0)
  gcmDecrypt _ _ cipher _ := some cipher

theorem OpenSsl.transparent_lawful : OpenSsl.transparent.Lawful where
  publicKey a := ⟨_, rfl, by simp [pubKeySize]⟩
  secret a b pub h := by
    obtain rfl : 4 :: b :: List.replicate 63 0 = pub := Option.some.inj h
    exact ⟨_, rfl, by simp⟩
  commutes a b pubA pubB hA hB := by
    obtain rfl : 4 :: a :: List.replicate 63 0 = pubA := Option.some.inj hA
    obtain rfl : 4 :: b :: List.replicate 63 0 = pubB := Option.some.inj hB
    simp [OpenSsl.transparent, UInt8.add_comm]
  hash bytes := ⟨_, rfl, by simp⟩
  encrypt key nonce plain := ⟨plain, List.replicate 16 0, rfl, rfl, by simp, rfl⟩

theorem OpenSsl.transparent_keepsLength : OpenSsl.transparent.KeepsLength := by
  intro key nonce cipher tag plain h
  rw [Option.some.inj h]

end DhNet
