import DhNet.Core.Session

/-!
# Sending on a session

`Session::Send` queues a sender and registers a send unless one is outstanding; `RegisterSend` moves
the whole queue into one `WSASend`; `ProcessSend` releases its senders and registers the next one.
Both `Send` and `ProcessSend` run under the lock of the session, so they are one step each here.
`WSASend` succeeds or pends.

The senders are of an arbitrary type `α`; `frame` gives the bytes of a sender.

* `backlog`: the bytes that were handed to `Send` and have not arrived.
* `backlog_send`, `backlog_processSend`: a call of `Send` adds its bytes at the end, and the
  completion of a send changes nothing.
-/

namespace DhNet

/-- The send side of a session: `m_senderQueue`, `m_sendRegistered`, the senders of the `WSASend`
that is outstanding, the bytes on their way to the peer, and all senders handed to `Session::Send`.
-/
structure SendPath (α : Type*) where
  senderQueue : List α
  sendRegistered : Bool
  senders : List α
  wire : List UInt8
  sent : List α

namespace SendPath

variable {α : Type*} (frame : α → List UInt8)

/-- Nothing was sent. -/
def fresh : SendPath α := ⟨[], false, [], [], []⟩

/-- `Session::RegisterSend`: all queued senders go into one `WSASend`. -/
def registerSend (path : SendPath α) (connected : Bool) : SendPath α :=
  if connected then
    { path with
      senderQueue := []
      senders := path.senders ++ path.senderQueue
      wire := path.wire ++ (path.senders ++ path.senderQueue).flatMap frame }
  else path

/-- `Session::Send`. -/
def send (path : SendPath α) (connected : Bool) (sender : α) : SendPath α :=
  let queued := { path with
    senderQueue := path.senderQueue ++ [sender]
    sendRegistered := true
    sent := path.sent ++ [sender] }
  if path.sendRegistered then queued else queued.registerSend frame connected

/-- `Session::ProcessSend`, the completion of the outstanding `WSASend`. -/
def processSend (path : SendPath α) (connected : Bool) : SendPath α :=
  let released := { path with senders := [] }
  if path.senderQueue = [] then { released with sendRegistered := false }
  else released.registerSend frame connected

/-- The bytes that were handed to `Send` and have not arrived. -/
def backlog (path : SendPath α) : List UInt8 := path.wire ++ path.senderQueue.flatMap frame

/-- While `m_sendRegistered` is not set, no `WSASend` is outstanding and nothing is queued. -/
def Valid (path : SendPath α) : Prop :=
  path.sendRegistered = false → path.senders = [] ∧ path.senderQueue = []

variable {frame} {path : SendPath α}

theorem backlog_registerSend (connected : Bool) (h : path.senders = []) :
    (path.registerSend frame connected).backlog frame = path.backlog frame := by
  unfold registerSend
  split_ifs
  · simp [backlog, h]
  · rfl

@[simp] theorem sent_registerSend (path : SendPath α) (connected : Bool) :
    (path.registerSend frame connected).sent = path.sent := by
  unfold registerSend
  split_ifs <;> rfl

@[simp] theorem sendRegistered_registerSend (path : SendPath α) (connected : Bool) :
    (path.registerSend frame connected).sendRegistered = path.sendRegistered := by
  unfold registerSend
  split_ifs <;> rfl

theorem backlog_send (valid : path.Valid) (connected : Bool) (sender : α) :
    (path.send frame connected sender).backlog frame = path.backlog frame ++ frame sender := by
  unfold send
  simp only
  split_ifs with h
  · simp [backlog]
  · rw [backlog_registerSend]
    · simp [backlog]
    · exact (valid (Bool.eq_false_of_not_eq_true h)).1

@[simp] theorem sent_send (path : SendPath α) (connected : Bool) (sender : α) :
    (path.send frame connected sender).sent = path.sent ++ [sender] := by
  unfold send
  simp only
  split_ifs
  · rfl
  · rw [sent_registerSend]

theorem valid_send (path : SendPath α) (connected : Bool) (sender : α) :
    (path.send frame connected sender).Valid := by
  intro h
  unfold send at h
  simp only at h
  split_ifs at h
  rw [sendRegistered_registerSend] at h
  cases h

@[simp] theorem backlog_processSend (path : SendPath α) (connected : Bool) :
    (path.processSend frame connected).backlog frame = path.backlog frame := by
  unfold processSend
  simp only
  split_ifs
  · rfl
  · rw [backlog_registerSend _ rfl]
    rfl

@[simp] theorem sent_processSend (path : SendPath α) (connected : Bool) :
    (path.processSend frame connected).sent = path.sent := by
  unfold processSend
  simp only
  split_ifs
  · rfl
  · rw [sent_registerSend]

theorem valid_processSend (valid : path.Valid) (connected : Bool) :
    (path.processSend frame connected).Valid := by
  intro h
  unfold processSend at h ⊢
  simp only at h ⊢
  split_ifs at h ⊢ with hqueue
  · exact ⟨rfl, hqueue⟩
  · rw [sendRegistered_registerSend] at h
    exact absurd (valid h).2 hqueue

end SendPath

end DhNet
