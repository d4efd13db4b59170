import DhNet.Game.PacketHandlers

/-!
# `ServerSession`

The client's side of a connection: it opens with `Req_KeyExchange`, accepts only `Res_KeyExchange`
until the handshake is done, which it answers with a login, and then only `Encrypted` packets.
Other than `GameSession` it does not disconnect by itself when it refuses a packet.

The hooks `m_onConnectedExtra` and `m_onDisconnectedExtra`, empty by default, are left out.
-/

namespace DhNet

/-- A `char` field of `size` bytes after `strncpy_s` of a string, limited to the size less one, and
the store of the last terminator; the other bytes stay as they were. -/
def copyField (text : List UInt8) (size : ℕ) (field : Pointer) : List UInt8 :=
  (fieldChars text size ++ 0 :: (field.advance ((fieldChars text size).length + 1)).bytes size).take
    (size - 1) ++ [0]

/-- `sizeof(ReqLogin)`. -/
def sizeofReqLogin : ℕ := sizeofPacketHeader + usernameSize + passwordSize

/-- `ReqLogin` in a send chunk. -/
def reqLogin (username password : List UInt8) (chunk : Pointer) : List UInt8 :=
  PacketHeader.init .reqLogin sizeofReqLogin ++
    copyField username usernameSize (chunk.advance sizeofPacketHeader) ++
    copyField password passwordSize (chunk.advance (sizeofPacketHeader + usernameSize))

namespace ServerSession

variable {K π ω : Type*} (env : SecureEnv K) (handlers : Handlers π ω) (chunk : Pointer)

/-- The login that follows the handshake, with the user `"testuser"` and the password `"testpass"`.
-/
def login : List UInt8 :=
  reqLogin [116, 101, 115, 116, 117, 115, 101, 114] [116, 101, 115, 116, 112, 97, 115, 115] chunk

/-- `ServerSession::OnConnected`. -/
def onConnected (a : Activity K π ω) : Activity K π ω :=
  let drawn := a.modify fun st =>
    { st with myPrivKey := env.keyPair st.keyPairs, keyPairs := st.keyPairs + 1 }
  match env.keyPair a.state.keyPairs with
  | none => drawn.disconnect handlers .keyGenFailed
  | some priv =>
      match EcdhKeyExchange.getPublicKeyBytes env.ssl priv with
      | none => drawn.disconnect handlers .pubKeyExportFailed
      | some clientPubKey => drawn.sessionSend env handlers none (reqKeyExchange clientPubKey)

/-- `DeriveSharedSecret` fails without a private key. -/
def deriveSharedSecret (myPrivKey : Option K) (peerPub65 : List UInt8) : Option (List UInt8) :=
  myPrivKey.bind fun priv => EcdhKeyExchange.deriveSharedSecret env.ssl priv peerPub65

/-- `ServerSession::HandleResKeyExchange` on the packet at `p`. -/
def handleResKeyExchange (a : Activity K π ω) (p : Pointer) : Activity K π ω :=
  match deriveSharedSecret env a.state.myPrivKey (pubKey p) with
  | none => a.disconnect handlers .ecdhFailed
  | some secret =>
      match EcdhKeyExchange.deriveSessionKey env.ssl secret with
      | none => a.disconnect handlers .keyDeriveFailed
      | some sessionKey =>
          let done := a.modify fun st =>
            { st with myPrivKey := none, cipher := some sessionKey, handshakeDone := true }
          (done.emit .handshakeDone).send env handlers (.ofList (login chunk))

/-- `ServerSession::OnRecv` on the packet at `p`. -/
def onRecv (connected : Bool) (st : SecureState K π) (p : Pointer) :
    Reply (SecureState K π) (SecureEvent ω) :=
  let a := st.begin connected
  if st.handshakeDone = false then
    if PacketHeader.packetNum p = PacketEnum.resKeyExchange.num then
      (handleResKeyExchange env handlers chunk a p).reply true
    else a.reply false
  else if PacketHeader.packetNum p ≠ PacketEnum.encrypted.num then a.reply false
  else if payloadLen p < 28 ∨ maxPlainPacketSize + 28 < payloadLen p then a.reply false
  else
    match st.cipher with
    | none => (a.emit .nullCipher).reply false
    | some key =>
        match AesGcm.decrypt env.ssl key (payload p) with
        | none => a.reply false
        | some plain =>
            let processed := a.process env handlers (plainBuf env st plain)
            processed.1.reply processed.2

/-- `ServerSession` as a session class. -/
def cls : SessionClass (SecureState K π) (SecureEvent ω) where
  onRecv := onRecv env handlers chunk
  onDisconnected st := { st with app := handlers.onDisconnected st.app }

/-- A fresh `ServerSession`. -/
def fresh (app : π) : SecureState K π := ⟨false, none, none, app, 0, 0, 0, 0⟩

end ServerSession

end DhNet
