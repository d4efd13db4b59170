import DhNet.Protocol.SecureSession

/-!
# `GameSession`

The server's side of a connection: before the handshake only `Req_KeyExchange` is accepted, after
it only `Encrypted` packets, which are decrypted and dispatched to the packet handlers.
-/

namespace DhNet

namespace GameSession

variable {K π ω : Type*} (env : SecureEnv K) (handlers : Handlers π ω)

/-- `GameSession::HandleKeyExchange` on the packet at `p`. -/
def handleKeyExchange (a : Activity K π ω) (p : Pointer) : Activity K π ω :=
  let drawn := a.modify fun st =>
    { st with myPrivKey := env.keyPair st.keyPairs, keyPairs := st.keyPairs + 1 }
  match env.keyPair a.state.keyPairs with
  | none => drawn.disconnect handlers .keyGenFailed
  | some priv =>
      match EcdhKeyExchange.deriveSharedSecret env.ssl priv (pubKey p) with
      | none => drawn.disconnect handlers .ecdhFailed
      | some secret =>
          match EcdhKeyExchange.deriveSessionKey env.ssl secret with
          | none => drawn.disconnect handlers .keyDeriveFailed
          | some sessionKey =>
              match EcdhKeyExchange.getPublicKeyBytes env.ssl priv with
              | none => drawn.disconnect handlers .pubKeyExportFailed
              | some serverPubKey =>
                  let done := drawn.modify fun st =>
                    { st with myPrivKey := none, cipher := some sessionKey, handshakeDone := true }
                  (done.emit .handshakeDone).sessionSend env handlers none
                    (resKeyExchange serverPubKey)

/-- `GameSession::OnRecv` on the packet at `p`. -/
def onRecv (connected : Bool) (st : SecureState K π) (p : Pointer) :
    Reply (SecureState K π) (SecureEvent ω) :=
  let a := st.begin connected
  if st.handshakeDone = false then
    if PacketHeader.packetNum p = PacketEnum.reqKeyExchange.num then
      (handleKeyExchange env handlers a p).reply true
    else (a.disconnect handlers .protocolViolation).reply false
  else if PacketHeader.packetNum p ≠ PacketEnum.encrypted.num then
    (a.disconnect handlers .protocolViolation).reply false
  else if payloadLen p < 28 ∨ maxPlainPacketSize + 28 < payloadLen p then
    (a.disconnect handlers .invalidEncryptedSize).reply false
  else
    match st.cipher with
    | none => (a.emit .nullCipher).reply false
    | some key =>
        match AesGcm.decrypt env.ssl key (payload p) with
        | none => (a.disconnect handlers .gcmVerifyFailed).reply false
        | some plain =>
            let processed := a.process env handlers (plainBuf env st plain)
            processed.1.reply processed.2

/-- `GameSession` as a session class. -/
def cls : SessionClass (SecureState K π) (SecureEvent ω) where
  onRecv := onRecv env handlers
  onDisconnected st := { st with app := handlers.onDisconnected st.app }

/-- A fresh `GameSession`. -/
def fresh (app : π) : SecureState K π := ⟨false, none, none, app, 0, 0, 0, 0⟩

end GameSession

end DhNet
