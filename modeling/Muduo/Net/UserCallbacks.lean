import Muduo.Net.Operation

/-! The callbacks of the user that `TcpServer::newConnection` and `TcpClient::newConnection`
wire into the connections they make, and when a connection invokes or queues them. -/
namespace Muduo.Net
open Muduo.Support

/-- What the user registered with the server or the client. -/
structure UserCallbacks (κ : Type) where
  connectionCallback : κ
  messageCallback : κ
  writeCompleteCallback : Option κ

/-- A callback of the user, invoked or, for write-complete, queued. -/
inductive UserCall (κ : Type) where
  | connection (cb : κ) (connected : Bool)
  | message (cb : κ)
  | writeComplete (cb : κ)
  deriving DecidableEq

/-- A connection and the callbacks of the user that its owner wired into it. -/
structure WiredConnection (κ : Type) where
  conn : TcpConnection
  connectionCallback : κ
  messageCallback : κ
  writeCompleteCallback : Option κ
  /-- Oldest first. -/
  calls : List (UserCall κ)

namespace WiredConnection
variable {κ : Type}

/-- The constructor, `setConnectionCallback` and `setMessageCallback`. -/
def new (connectionCallback messageCallback : κ) : WiredConnection κ :=
  ⟨.new, connectionCallback, messageCallback, none, []⟩

def setWriteCompleteCallback (c : WiredConnection κ) (cb : Option κ) : WiredConnection κ :=
  { c with
    writeCompleteCallback := cb
    conn := { c.conn with writeCompleteCallback := cb.isSome } }

/-- The connection of `TcpServer::newConnection`, ahead of `connectEstablished`. -/
def ofServer (u : UserCallbacks κ) : WiredConnection κ :=
  (new u.connectionCallback u.messageCallback).setWriteCompleteCallback u.writeCompleteCallback

/-- The connection of `TcpClient::newConnection`, ahead of `connectEstablished`. -/
def ofClient (u : UserCallbacks κ) : WiredConnection κ :=
  new u.connectionCallback u.messageCallback

def invoked (c : WiredConnection κ) : Callback → Option (UserCall κ)
  | .connection connected => some (.connection c.connectionCallback connected)
  | .message => some (.message c.messageCallback)
  | .close => none

def queued (c : WiredConnection κ) : Functor → Option (UserCall κ)
  | .writeCompleteCallback => c.writeCompleteCallback.map .writeComplete
  | .highWaterMarkCallback _ | .sendInLoop .. | .shutdownInLoop | .forceCloseInLoop
  | .startReadInLoop | .stopReadInLoop | .connectEstablished | .connectDestroyed => none

/-- The calls of the operation are noted, and its functors are the loop's from then on. -/
def note (c : WiredConnection κ) (conn : TcpConnection) : WiredConnection κ :=
  { c with
    conn := { conn with callbacks := [], queued := [] }
    calls := c.calls ++ conn.callbacks.filterMap c.invoked ++ conn.queued.filterMap c.queued }

def machine : Machine (WiredConnection κ) Operation where
  enabled _ _ := True
  step c o := return c.note (← o.apply c.conn)

end WiredConnection

namespace TcpConnection

/-- The connection as it is without a write-complete callback. -/
def unwired (c : TcpConnection) : TcpConnection :=
  { c with
    writeCompleteCallback := false
    queued := c.queued.filter fun f => !f.isWriteComplete }

variable {c : TcpConnection}

@[simp] theorem unwired_state : c.unwired.state = c.state := rfl
@[simp] theorem unwired_reading : c.unwired.reading = c.reading := rfl
@[simp] theorem unwired_channel : c.unwired.channel = c.channel := rfl
@[simp] theorem unwired_highWaterMark : c.unwired.highWaterMark = c.highWaterMark := rfl
@[simp] theorem unwired_highWaterMarkCallback :
    c.unwired.highWaterMarkCallback = c.highWaterMarkCallback := rfl
@[simp] theorem unwired_writeCompleteCallback : c.unwired.writeCompleteCallback = false := rfl
@[simp] theorem unwired_inputBuffer : c.unwired.inputBuffer = c.inputBuffer := rfl
@[simp] theorem unwired_outputBuffer : c.unwired.outputBuffer = c.outputBuffer := rfl

theorem unwired_queueInLoop {f : Functor} (hf : f.isWriteComplete = false) :
    c.unwired.queueInLoop f = (c.queueInLoop f).unwired := by
  simp [unwired, queueInLoop, hf]

/-- Without the callback nothing is queued where the other connection queues it. -/
theorem unwired_writeComplete (p : Prop) [Decidable p] : c.unwired =
    (if p then c.queueInLoop .writeCompleteCallback else c).unwired := by
  split
  · simp [unwired, queueInLoop, Functor.isWriteComplete]
  · rfl

theorem writeDirectly_unwired (m : Memory) (data : Int) (len : Nat) (w : WriteResult) :
    c.unwired.writeDirectly m data len w =
      ((c.writeDirectly m data len w).1.unwired, (c.writeDirectly m data len w).2) := by
  cases w with
  | accepted n =>
    have hw : c.unwired.written (m.bytes data n) = (c.written (m.bytes data n)).unwired := rfl
    simp only [writeDirectly, hw, unwired_writeCompleteCallback, Bool.false_eq_true, and_false,
      if_false]
    rw [← unwired_writeComplete]
  | failed errno => rfl

theorem noteHighWaterMark_unwired (remaining : Nat) :
    c.unwired.noteHighWaterMark remaining = (c.noteHighWaterMark remaining).unwired := by
  unfold noteHighWaterMark
  dsimp +instances only [unwired_outputBuffer, unwired_highWaterMark, unwired_highWaterMarkCallback]
  split
  · exact unwired_queueInLoop rfl
  · rfl

theorem bufferRest_unwired (m : Memory) (data nwrote : Int) (remaining : Nat) :
    c.unwired.bufferRest m data nwrote remaining =
      (c.bufferRest m data nwrote remaining).map unwired := by
  unfold bufferRest
  rw [noteHighWaterMark_unwired]
  dsimp +instances only [unwired_outputBuffer, unwired_channel]
  cases (c.noteHighWaterMark remaining).outputBuffer.append (m.bytes (data + nwrote) remaining) with
  | error e => rfl
  | ok b =>
    simp only [ok_bind]
    split <;> rfl

theorem sendInLoop_unwired (m : Memory) (data : Int) (len : Nat) (w : WriteResult) :
    c.unwired.sendInLoop m data len w = (c.sendInLoop m data len w).map unwired := by
  have finish : ∀ (d : TcpConnection) (nwrote : Int) (remaining : Nat) (faultError : Bool),
      (do
        assert (remaining ≤ len)
        if !faultError && remaining > 0 then d.unwired.bufferRest m data nwrote remaining
        else return d.unwired) =
      Except.map unwired (do
        assert (remaining ≤ len)
        if !faultError && remaining > 0 then d.bufferRest m data nwrote remaining
        else return d) := by
    intro d nwrote remaining faultError
    rw [bufferRest_unwired]
    by_cases hle : remaining ≤ len
    · rw [assert_true hle, ok_bind, ok_bind]
      split <;> rfl
    · rw [assert, if_neg hle]
      rfl
  have hdirect : c.unwired.writesDirectly = c.writesDirectly := rfl
  unfold sendInLoop
  rw [hdirect, writeDirectly_unwired]
  dsimp +instances only [unwired_state]
  split
  · rfl
  · split
    · exact finish _ _ _ _
    · exact finish c 0 len false

theorem shutdownInLoop_unwired : c.unwired.shutdownInLoop = c.shutdownInLoop.unwired := by
  unfold shutdownInLoop
  dsimp +instances only [unwired_channel]
  split <;> rfl

/-- The rest of `outputDrained` behind the callback. -/
private theorem drained_unwired (d : TcpConnection) :
    (if d.unwired.state = .kDisconnecting then d.unwired.shutdownInLoop else d.unwired) =
      (if d.state = .kDisconnecting then d.shutdownInLoop else d).unwired := by
  dsimp +instances only [unwired_state]
  split
  · exact shutdownInLoop_unwired
  · rfl

theorem outputDrained_unwired : c.unwired.outputDrained = c.outputDrained.unwired := by
  have hskip := unwired_writeComplete (c := { c with channel := c.channel.disableWriting })
    (c.writeCompleteCallback = true)
  calc c.unwired.outputDrained
    _ = if (unwired { c with channel := c.channel.disableWriting }).state = .kDisconnecting then
          (unwired { c with channel := c.channel.disableWriting }).shutdownInLoop
        else unwired { c with channel := c.channel.disableWriting } := rfl
    _ = c.outputDrained.unwired := by
      rw [hskip]
      exact drained_unwired _

theorem handleWritten_unwired (n : Nat) :
    c.unwired.handleWritten n = (c.handleWritten n).map unwired := by
  unfold handleWritten
  dsimp +instances only [unwired_outputBuffer]
  split
  · cases c.outputBuffer.retrieve n with
    | error e => rfl
    | ok b =>
      simp only [ok_bind]
      split
      · exact congrArg Except.ok (outputDrained_unwired (c := { c with outputBuffer := b }))
      · rfl
  · rfl

theorem handleWrite_unwired (w : WriteResult) :
    c.unwired.handleWrite w = (c.handleWrite w).map unwired := by
  unfold handleWrite
  dsimp +instances only [unwired_channel]
  split
  · cases w with
    | accepted n => exact handleWritten_unwired (c := c.written (c.outputBuffer.readable.take n)) n
    | failed errno => exact handleWritten_unwired _
  · rfl

theorem handleClose_unwired : c.unwired.handleClose = c.handleClose.map unwired := by
  unfold handleClose
  dsimp +instances only [unwired_state]
  by_cases hs : c.state = .kConnected ∨ c.state = .kDisconnecting
  · rw [assert_true hs]
    rfl
  · rw [assert, if_neg hs]
    rfl

theorem handleRead_unwired (r : ReadResult) :
    c.unwired.handleRead r = (c.handleRead r).map unwired := by
  unfold handleRead
  dsimp +instances only [unwired_inputBuffer]
  cases c.inputBuffer.readFd r with
  | error e => rfl
  | ok b =>
    simp only [ok_bind]
    split
    · exact handleClose_unwired (c := { c with inputBuffer := b })
    · rfl
    · rfl

theorem shutdown_unwired (inLoopThread : Bool) :
    c.unwired.shutdown inLoopThread = (c.shutdown inLoopThread).unwired := by
  unfold shutdown
  dsimp +instances only [unwired_state]
  split
  · split
    · exact shutdownInLoop_unwired (c := c.setState .kDisconnecting)
    · exact unwired_queueInLoop (c := c.setState .kDisconnecting) (f := .shutdownInLoop) rfl
  · rfl

theorem forceClose_unwired : c.unwired.forceClose = c.forceClose.unwired := by
  unfold forceClose
  dsimp +instances only [unwired_state]
  split
  · exact unwired_queueInLoop (c := c.setState .kDisconnecting) (f := .forceCloseInLoop) rfl
  · rfl

theorem forceCloseWithDelay_unwired :
    c.unwired.forceCloseWithDelay = c.forceCloseWithDelay.unwired := by
  unfold forceCloseWithDelay
  dsimp +instances only [unwired_state]
  split <;> rfl

theorem startReadInLoop_unwired : c.unwired.startReadInLoop = c.startReadInLoop.unwired := by
  unfold startReadInLoop
  dsimp +instances only [unwired_reading, unwired_channel]
  split <;> rfl

theorem stopReadInLoop_unwired : c.unwired.stopReadInLoop = c.stopReadInLoop.unwired := by
  unfold stopReadInLoop
  dsimp +instances only [unwired_reading, unwired_channel]
  split <;> rfl

theorem forceCloseInLoop_unwired : c.unwired.forceCloseInLoop = c.forceCloseInLoop.map unwired := by
  unfold forceCloseInLoop
  dsimp +instances only [unwired_state]
  split
  · exact handleClose_unwired
  · rfl

theorem connectEstablished_unwired :
    c.unwired.connectEstablished = c.connectEstablished.map unwired := by
  unfold connectEstablished
  dsimp +instances only [unwired_state]
  by_cases hs : c.state = .kConnecting
  · rw [assert_true hs]
    rfl
  · rw [assert, if_neg hs]
    rfl

theorem connectDestroyed_unwired :
    c.unwired.connectDestroyed = c.connectDestroyed.map unwired := by
  have removed : ∀ d : TcpConnection, (do
      let channel ← d.unwired.channel.remove
      return { d.unwired with channel }) =
      Except.map unwired (do
        let channel ← d.channel.remove
        return { d with channel }) := by
    intro d
    rw [unwired_channel]
    cases d.channel.remove <;> rfl
  unfold connectDestroyed
  dsimp +instances only [unwired_state]
  split
  · exact removed (connectionCallback
      { c.setState .kDisconnected with channel := (c.setState .kDisconnected).channel.disableAll })
  · exact removed c

theorem runFunctor_unwired (f : Functor) (w : WriteResult) :
    c.unwired.runFunctor w f = (c.runFunctor w f).map unwired := by
  cases f with
  | writeCompleteCallback | highWaterMarkCallback => rfl
  | sendInLoop m data len => exact sendInLoop_unwired m data len w
  | shutdownInLoop => exact congrArg Except.ok shutdownInLoop_unwired
  | forceCloseInLoop => exact forceCloseInLoop_unwired
  | startReadInLoop => exact congrArg Except.ok startReadInLoop_unwired
  | stopReadInLoop => exact congrArg Except.ok stopReadInLoop_unwired
  | connectEstablished => exact connectEstablished_unwired
  | connectDestroyed => exact connectDestroyed_unwired

theorem startRead_unwired (inLoopThread : Bool) :
    c.unwired.startRead inLoopThread = (c.startRead inLoopThread).unwired := by
  cases inLoopThread with
  | true => exact startReadInLoop_unwired
  | false => exact unwired_queueInLoop (f := .startReadInLoop) rfl

theorem stopRead_unwired (inLoopThread : Bool) :
    c.unwired.stopRead inLoopThread = (c.stopRead inLoopThread).unwired := by
  cases inLoopThread with
  | true => exact stopReadInLoop_unwired
  | false => exact unwired_queueInLoop (f := .stopReadInLoop) rfl

theorem send_unwired (inLoopThread : Bool) (m : Memory) (data : Int) (len : Nat)
    (w : WriteResult) : c.unwired.send inLoopThread m data len w =
      (c.send inLoopThread m data len w).map unwired := by
  unfold send
  dsimp +instances only [unwired_state]
  split
  · cases inLoopThread with
    | true => exact sendInLoop_unwired m data len w
    | false =>
      exact congrArg Except.ok (unwired_queueInLoop (f := .sendInLoop m data len) rfl)
  · rfl

end TcpConnection

/-- Without a write-complete callback an operation does what it does with one, but for
queueing that callback. -/
theorem Operation.apply_unwired (c : TcpConnection) (o : Operation) :
    o.apply c.unwired = (o.apply c).map TcpConnection.unwired := by
  cases o with
  | send inLoopThread m data len w => exact TcpConnection.send_unwired inLoopThread m data len w
  | handleRead r => exact TcpConnection.handleRead_unwired r
  | handleWrite w => exact TcpConnection.handleWrite_unwired w
  | handleClose => exact TcpConnection.handleClose_unwired
  | shutdown inLoopThread => exact congrArg Except.ok (TcpConnection.shutdown_unwired inLoopThread)
  | forceClose => exact congrArg Except.ok TcpConnection.forceClose_unwired
  | forceCloseWithDelay => exact congrArg Except.ok TcpConnection.forceCloseWithDelay_unwired
  | startRead inLoopThread => exact congrArg Except.ok (TcpConnection.startRead_unwired inLoopThread)
  | stopRead inLoopThread => exact congrArg Except.ok (TcpConnection.stopRead_unwired inLoopThread)
  | runFunctor f w => exact TcpConnection.runFunctor_unwired f w

end Muduo.Net
