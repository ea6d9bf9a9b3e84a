import Muduo.Net.Buffer
import Muduo.Net.Channel

/-! `muduo::net::TcpConnection`. The kernel's answers are arguments of the calls that
ask for them; what a connection asks of its loop and of its callbacks is recorded in
the order it asks. -/
namespace Muduo.Net
open Muduo.Support

inductive StateE where
  | kDisconnected | kConnecting | kConnected | kDisconnecting
  deriving DecidableEq, Repr

/-- The process memory a message pointer points into. -/
abbrev Memory := Int → Byte

/-- The `n` bytes from address `p` on. -/
def Memory.bytes (m : Memory) (p : Int) : Nat → Bytes
  | 0 => []
  | n + 1 => m p :: bytes m (p + 1) n

/-- The return of `sockets::write`: a byte count, or -1 with an errno. -/
inductive WriteResult where
  | accepted (n : Nat)
  | failed (errno : Errno)
  deriving DecidableEq, Repr

/-- `write` returns a count between `lo` and `hi`, or fails. -/
def WriteResult.Within (w : WriteResult) (lo hi : Nat) : Prop :=
  ∀ n, w = .accepted n → lo ≤ n ∧ n ≤ hi

instance WriteResult.withinDecidable : (w : WriteResult) → (lo hi : Nat) → Decidable (w.Within lo hi)
  | .accepted n, lo, hi => decidable_of_iff (lo ≤ n ∧ n ≤ hi) (by simp [WriteResult.Within])
  | .failed _, _, _ => isTrue fun _ h => WriteResult.noConfusion h

instance WriteResult.acceptedDecidable : (w : WriteResult) → (lo hi : Nat) →
    Decidable (∃ n, w = .accepted n ∧ lo ≤ n ∧ n ≤ hi)
  | .accepted n, lo, hi => decidable_of_iff (lo ≤ n ∧ n ≤ hi) (by simp)
  | .failed _, _, _ => isFalse fun ⟨_, h, _⟩ => WriteResult.noConfusion h

@[simp] theorem Memory.bytes_length (m : Memory) (p : Int) (n : Nat) :
    (m.bytes p n).length = n := by
  induction n generalizing p with
  | zero => rfl
  | succ n ih => rw [bytes, List.length_cons, ih]

theorem Memory.bytes_add (m : Memory) (p : Int) (a b : Nat) :
    m.bytes p (a + b) = m.bytes p a ++ m.bytes (p + a) b := by
  induction a generalizing p with
  | zero => simp [bytes]
  | succ a ih =>
    have hp : p + 1 + (a : Int) = p + (a + 1 : Nat) := by omega
    rw [Nat.succ_add, bytes, bytes, ih, List.cons_append, hp]

/-- Functors a connection binds and hands to `loop_`. -/
inductive Functor where
  | writeCompleteCallback
  | highWaterMarkCallback (len : Nat)
  | sendInLoop (m : Memory) (data : Int) (len : Nat)
  | shutdownInLoop | forceCloseInLoop | startReadInLoop | stopReadInLoop
  | connectEstablished | connectDestroyed

/-- Functors that only call back into user code. -/
def Functor.callsUser : Functor → Prop
  | .writeCompleteCallback | .highWaterMarkCallback _ => True
  | .sendInLoop .. | .shutdownInLoop | .forceCloseInLoop | .startReadInLoop | .stopReadInLoop
  | .connectEstablished | .connectDestroyed => False

/-- Callbacks a connection invokes; the connection callback is listed with what
`connected()` answers while it runs. -/
inductive Callback where
  | connection (connected : Bool)
  | message | close
  deriving DecidableEq, Repr

/-- The kernel's side: the bytes `write` accepted, and for each `shutdownWrite` the
bytes that were still in `outputBuffer_` when it was issued. -/
structure Socket where
  accepted : Bytes
  shutdownWrites : List Bytes
  deriving DecidableEq, Repr

structure TcpConnection where
  state : StateE
  reading : Bool
  socket : Socket
  channel : Channel
  highWaterMark : Nat
  writeCompleteCallback : Bool
  highWaterMarkCallback : Bool
  inputBuffer : Buffer
  outputBuffer : Buffer
  /-- Functors given to `loop_`, oldest first. -/
  queued : List Functor
  /-- `forceClose` calls that `runAfter` holds. -/
  delayed : Nat
  callbacks : List Callback
  /-- How often `shutdownInLoop` has run. -/
  shutdownInLoopRuns : Nat

namespace TcpConnection

/-- The constructor, and which of the two optional callbacks its owner sets. -/
def new (writeCompleteCallback highWaterMarkCallback : Bool := false)
    (highWaterMark : Nat := 64 * 1024 * 1024) : TcpConnection where
  state := .kConnecting
  reading := true
  socket := ⟨[], []⟩
  channel := .new
  highWaterMark := highWaterMark
  writeCompleteCallback := writeCompleteCallback
  highWaterMarkCallback := highWaterMarkCallback
  inputBuffer := .new
  outputBuffer := .new
  queued := []
  delayed := 0
  callbacks := []
  shutdownInLoopRuns := 0

def connected (c : TcpConnection) : Bool := c.state = .kConnected

def setState (c : TcpConnection) (s : StateE) : TcpConnection := { c with state := s }

def queueInLoop (c : TcpConnection) (f : Functor) : TcpConnection :=
  { c with queued := c.queued ++ [f] }

def connectionCallback (c : TcpConnection) : TcpConnection :=
  { c with callbacks := c.callbacks ++ [.connection c.connected] }

def closeCallback (c : TcpConnection) : TcpConnection :=
  { c with callbacks := c.callbacks ++ [.close] }

def messageCallback (c : TcpConnection) : TcpConnection :=
  { c with callbacks := c.callbacks ++ [.message] }

/-- `sockets::write` accepting bytes. -/
def written (c : TcpConnection) (bytes : Bytes) : TcpConnection :=
  { c with socket := { c.socket with accepted := c.socket.accepted ++ bytes } }

/-- `socket_->shutdownWrite()`. -/
def shutdownWrite (c : TcpConnection) : TcpConnection :=
  { c with socket := { c.socket with
      shutdownWrites := c.socket.shutdownWrites ++ [c.outputBuffer.readable] } }

/-- The direct write of `sendInLoop`: the connection, `nwrote`, `remaining`, `faultError`.
A failed write leaves `nwrote` at -1. -/
def writeDirectly (c : TcpConnection) (m : Memory) (data : Int) (len : Nat) :
    WriteResult → TcpConnection × Int × Nat × Bool
  | .accepted n =>
      let c := c.written (m.bytes data n)
      let remaining := len - n
      let c := if remaining = 0 ∧ c.writeCompleteCallback then
          c.queueInLoop .writeCompleteCallback else c
      (c, n, remaining, false)
  | .failed errno =>
      (c, -1, len, errno ≠ .EWOULDBLOCK && (errno = .EPIPE || errno = .ECONNRESET))

/-- Queue the high-water callback when `remaining` more bytes cross the mark. -/
def noteHighWaterMark (c : TcpConnection) (remaining : Nat) : TcpConnection :=
  let oldLen := c.outputBuffer.readableBytes
  if c.highWaterMark ≤ oldLen + remaining ∧ oldLen < c.highWaterMark ∧ c.highWaterMarkCallback then
    c.queueInLoop (.highWaterMarkCallback (oldLen + remaining))
  else c

/-- The buffered rest of `sendInLoop`, from `data + nwrote` on. -/
def bufferRest (c : TcpConnection) (m : Memory) (data nwrote : Int) (remaining : Nat) :
    Except Fault TcpConnection := do
  let c := c.noteHighWaterMark remaining
  let outputBuffer ← c.outputBuffer.append (m.bytes (data + nwrote) remaining)
  let c := { c with outputBuffer }
  if !c.channel.isWriting then
    return { c with channel := c.channel.enableWriting }
  else
    return c

/-- Whether `sendInLoop` tries the socket before the buffer. -/
def writesDirectly (c : TcpConnection) : Bool :=
  !c.channel.isWriting && c.outputBuffer.readableBytes = 0

def sendInLoop (c : TcpConnection) (m : Memory) (data : Int) (len : Nat) (w : WriteResult) :
    Except Fault TcpConnection := do
  if c.state = .kDisconnected then
    return c
  let (c, nwrote, remaining, faultError) :=
    if c.writesDirectly then c.writeDirectly m data len w else (c, 0, len, false)
  assert (remaining ≤ len)
  if !faultError && remaining > 0 then
    c.bufferRest m data nwrote remaining
  else
    return c

def shutdownInLoop (c : TcpConnection) : TcpConnection :=
  let c := { c with shutdownInLoopRuns := c.shutdownInLoopRuns + 1 }
  if !c.channel.isWriting then c.shutdownWrite else c

/-- `shutdown()`; `runInLoop` runs the functor at once in the loop thread. -/
def shutdown (c : TcpConnection) (inLoopThread : Bool) : TcpConnection :=
  if c.state = .kConnected then
    let c := c.setState .kDisconnecting
    if inLoopThread then c.shutdownInLoop else c.queueInLoop .shutdownInLoop
  else c

def send (c : TcpConnection) (inLoopThread : Bool) (m : Memory) (data : Int) (len : Nat)
    (w : WriteResult) : Except Fault TcpConnection :=
  if c.state = .kConnected then
    if inLoopThread then c.sendInLoop m data len w
    else return c.queueInLoop (.sendInLoop m data len)
  else return c

def forceClose (c : TcpConnection) : TcpConnection :=
  if c.state = .kConnected ∨ c.state = .kDisconnecting then
    (c.setState .kDisconnecting).queueInLoop .forceCloseInLoop
  else c

def forceCloseWithDelay (c : TcpConnection) : TcpConnection :=
  if c.state = .kConnected ∨ c.state = .kDisconnecting then
    { c.setState .kDisconnecting with delayed := c.delayed + 1 }
  else c

def handleClose (c : TcpConnection) : Except Fault TcpConnection := do
  assert (c.state = .kConnected ∨ c.state = .kDisconnecting)
  let c := c.setState .kDisconnected
  let c := { c with channel := c.channel.disableAll }
  return c.connectionCallback.closeCallback

def forceCloseInLoop (c : TcpConnection) : Except Fault TcpConnection :=
  if c.state = .kConnected ∨ c.state = .kDisconnecting then c.handleClose else return c

def startReadInLoop (c : TcpConnection) : TcpConnection :=
  if !c.reading || !c.channel.isReading then
    { c with channel := c.channel.enableReading, reading := true }
  else c

def stopReadInLoop (c : TcpConnection) : TcpConnection :=
  if c.reading || c.channel.isReading then
    { c with channel := c.channel.disableReading, reading := false }
  else c

def startRead (c : TcpConnection) (inLoopThread : Bool) : TcpConnection :=
  if inLoopThread then c.startReadInLoop else c.queueInLoop .startReadInLoop

def stopRead (c : TcpConnection) (inLoopThread : Bool) : TcpConnection :=
  if inLoopThread then c.stopReadInLoop else c.queueInLoop .stopReadInLoop

def connectEstablished (c : TcpConnection) : Except Fault TcpConnection := do
  assert (c.state = .kConnecting)
  let c := c.setState .kConnected
  let c := { c with channel := c.channel.enableReading }
  return c.connectionCallback

def connectDestroyed (c : TcpConnection) : Except Fault TcpConnection := do
  let c := if c.state = .kConnected then
      let c := c.setState .kDisconnected
      let c := { c with channel := c.channel.disableAll }
      c.connectionCallback
    else c
  let channel ← c.channel.remove
  return { c with channel }

/-- `handleRead()`; the failing branch only logs. -/
def handleRead (c : TcpConnection) (r : ReadResult) : Except Fault TcpConnection := do
  let inputBuffer ← c.inputBuffer.readFd r
  let c := { c with inputBuffer }
  match r with
  | .data [] => c.handleClose
  | .data _ => return c.messageCallback
  | .failed _ => return c

/-- The part of `handleWrite` that runs once `outputBuffer_` is empty. -/
def outputDrained (c : TcpConnection) : TcpConnection :=
  let c := { c with channel := c.channel.disableWriting }
  let c := if c.writeCompleteCallback then c.queueInLoop .writeCompleteCallback else c
  if c.state = .kDisconnecting then c.shutdownInLoop else c

/-- The part of `handleWrite` after `write` returned `n`; a zero is only logged. -/
def handleWritten (c : TcpConnection) (n : Nat) : Except Fault TcpConnection :=
  if n > 0 then do
    let outputBuffer ← c.outputBuffer.retrieve n
    let c := { c with outputBuffer }
    return if c.outputBuffer.readableBytes = 0 then c.outputDrained else c
  else
    return c

/-- `handleWrite()`; the result of `write` is stored in a `size_t`, so -1 is huge. -/
def handleWrite (c : TcpConnection) (w : WriteResult) : Except Fault TcpConnection :=
  if c.channel.isWriting then
    match w with
    | .accepted n => (c.written (c.outputBuffer.readable.take n)).handleWritten n
    | .failed _ => c.handleWritten 0xFFFFFFFFFFFFFFFF
  else
    return c

/-- A functor of this connection, run by `doPendingFunctors` in the loop thread. The
two user callbacks have no effect on the connection itself. -/
def runFunctor (c : TcpConnection) (w : WriteResult) : Functor → Except Fault TcpConnection
  | .writeCompleteCallback | .highWaterMarkCallback _ => return c
  | .sendInLoop m data len => c.sendInLoop m data len w
  | .shutdownInLoop => return c.shutdownInLoop
  | .forceCloseInLoop => c.forceCloseInLoop
  | .startReadInLoop => return c.startReadInLoop
  | .stopReadInLoop => return c.stopReadInLoop
  | .connectEstablished => c.connectEstablished
  | .connectDestroyed => c.connectDestroyed

/-- What one `sendInLoop` moves: bytes to the socket and bytes to the buffer. -/
def transfer (c : TcpConnection) (m : Memory) (data : Int) (len : Nat) (w : WriteResult) :
    Bytes × Bytes :=
  if c.state = .kDisconnected then ([], [])
  else if c.writesDirectly then
    match w with
    | .accepted n => (m.bytes data n, m.bytes (data + n) (len - n))
    | .failed e => ([], if e = .EPIPE ∨ e = .ECONNRESET then [] else m.bytes (data - 1) len)
  else ([], m.bytes data len)

/-- `c'` has queued callbacks of the user, and nothing else, since `c`. -/
def QueuesCallbacks (c c' : TcpConnection) : Prop :=
  ∃ fs, c'.queued = c.queued ++ fs ∧ ∀ f ∈ fs, f.callsUser

/-- `c'` is `c` after `wrote` went to the socket and `pended` to the buffer. -/
structure Sent (c c' : TcpConnection) (wrote pended : Bytes) : Prop where
  inv : c'.outputBuffer.Inv
  readable : c'.outputBuffer.readable = c.outputBuffer.readable ++ pended
  accepted : c'.socket.accepted = c.socket.accepted ++ wrote
  shutdownWrites : c'.socket.shutdownWrites = c.socket.shutdownWrites
  writing : c'.channel.writing = (c.channel.writing || !pended.isEmpty)
  reads : c'.channel.reading = c.channel.reading
  state : c'.state = c.state
  runs : c'.shutdownInLoopRuns = c.shutdownInLoopRuns
  callbacks : c'.callbacks = c.callbacks
  input : c'.inputBuffer = c.inputBuffer
  queued : QueuesCallbacks c c'

variable {c c' : TcpConnection}

theorem QueuesCallbacks.of_eq (h : c'.queued = c.queued) : QueuesCallbacks c c' :=
  ⟨[], by rw [h, List.append_nil], List.forall_mem_nil _⟩

theorem QueuesCallbacks.queueInLoop {f : Functor} (hf : f.callsUser) :
    QueuesCallbacks c (c.queueInLoop f) :=
  ⟨[f], rfl, List.forall_mem_singleton.mpr hf⟩

theorem QueuesCallbacks.trans {d : TcpConnection} (h : QueuesCallbacks c c')
    (h' : QueuesCallbacks c' d) : QueuesCallbacks c d := by
  obtain ⟨fs, hq, hf⟩ := h
  obtain ⟨gs, hq', hg⟩ := h'
  exact ⟨fs ++ gs, by rw [hq', hq, List.append_assoc], List.forall_mem_append.mpr ⟨hf, hg⟩⟩

theorem Sent.refl (h : c.outputBuffer.Inv) : Sent c c [] [] := by
  constructor
  case queued => exact .of_eq rfl
  all_goals simp [h]

theorem Sent.trans {d : TcpConnection} {w w' p p' : Bytes} (h : Sent c c' w p)
    (h' : Sent c' d w' p') : Sent c d (w ++ w') (p ++ p') where
  inv := h'.inv
  readable := by rw [h'.readable, h.readable, List.append_assoc]
  accepted := by rw [h'.accepted, h.accepted, List.append_assoc]
  shutdownWrites := by rw [h'.shutdownWrites, h.shutdownWrites]
  writing := by
    have he : (p ++ p').isEmpty = (p.isEmpty && p'.isEmpty) := by cases p <;> rfl
    rw [h'.writing, h.writing, he, Bool.not_and, Bool.or_assoc]
  reads := by rw [h'.reads, h.reads]
  state := by rw [h'.state, h.state]
  runs := by rw [h'.runs, h.runs]
  callbacks := by rw [h'.callbacks, h.callbacks]
  input := by rw [h'.input, h.input]
  queued := h.queued.trans h'.queued

theorem queueIf_sent (h : c.outputBuffer.Inv) (p : Prop) [Decidable p] {f : Functor}
    (hf : f.callsUser) : Sent c (if p then c.queueInLoop f else c) [] [] := by
  split
  · constructor
    case queued => exact .queueInLoop hf
    all_goals simp [queueInLoop, h]
  · exact .refl h

private theorem pend_sent {b : Buffer} {pended : Bytes} (hi : b.Inv) (hp : pended ≠ [])
    (hb : b.readable = c.outputBuffer.readable ++ pended) :
    Sent c { c with
      outputBuffer := b
      channel := if !c.channel.isWriting then c.channel.enableWriting else c.channel } [] pended := by
  have he : pended.isEmpty = false := List.isEmpty_eq_false_iff.mpr hp
  constructor
  case writing =>
    by_cases hw : c.channel.writing <;>
      simp [Channel.isWriting, Channel.enableWriting, Channel.update, hw, he]
  case reads =>
    by_cases hw : c.channel.writing <;>
      simp [Channel.isWriting, Channel.enableWriting, Channel.update, hw]
  case queued => exact .of_eq rfl
  all_goals simp [hi, hb]

private theorem bufferRest_spec (h : c.outputBuffer.Inv) (m : Memory) (data nwrote : Int)
    {remaining : Nat} (hr : 0 < remaining) :
    ∃ c', c.bufferRest m data nwrote remaining = .ok c' ∧
      Sent c c' [] (m.bytes (data + nwrote) remaining) := by
  have hne : m.bytes (data + nwrote) remaining ≠ [] := by
    rw [← List.length_pos_iff, Memory.bytes_length]
    exact hr
  have hq : Sent c (c.noteHighWaterMark remaining) [] [] := queueIf_sent h _ trivial
  obtain ⟨b, hok, hi, hb, _⟩ := Buffer.append_spec hq.inv (m.bytes (data + nwrote) remaining)
  refine ⟨_, ?_, hq.trans (pend_sent hi hne hb)⟩
  simp only [bufferRest, hok, ok_bind]
  by_cases hw : (!(c.noteHighWaterMark remaining).channel.isWriting) = true
  · rw [if_pos hw, if_pos hw]
    rfl
  · rw [if_neg hw, if_neg hw]
    rfl

private theorem writeDirectly_accepted (h : c.outputBuffer.Inv) (m : Memory) (data : Int)
    (len n : Nat) : ∃ d, c.writeDirectly m data len (.accepted n) = (d, (n : Int), len - n, false) ∧
      Sent c d (m.bytes data n) [] := by
  have hw : Sent c (c.written (m.bytes data n)) (m.bytes data n) [] := by
    constructor
    case queued => exact .of_eq rfl
    all_goals simp [written, h]
  refine ⟨_, rfl, ?_⟩
  simpa using hw.trans (queueIf_sent (f := .writeCompleteCallback) hw.inv _ trivial)

/-- `sendInLoop` always returns and moves exactly `transfer`. -/
theorem sendInLoop_spec (h : c.outputBuffer.Inv) (m : Memory) (data : Int) (len : Nat)
    {w : WriteResult} (hw : w.Within 0 len) :
    ∃ c', c.sendInLoop m data len w = .ok c' ∧
      Sent c c' (c.transfer m data len w).1 (c.transfer m data len w).2 := by
  have finish : ∀ (d : TcpConnection) (nwrote : Int) (remaining : Nat) (wrote : Bytes),
      remaining ≤ len → Sent c d wrote [] →
      ∃ c', (do
        assert (remaining ≤ len)
        if !false && remaining > 0 then d.bufferRest m data nwrote remaining else return d) =
          Except.ok c' ∧ Sent c c' wrote (m.bytes (data + nwrote) remaining) := by
    intro d nwrote remaining wrote hle hd
    rw [assert_true hle, ok_bind]
    by_cases hr : 0 < remaining
    · obtain ⟨c', hok, hs⟩ := bufferRest_spec hd.inv m data nwrote hr
      refine ⟨c', ?_, by simpa using hd.trans hs⟩
      simp only [Bool.not_false, Bool.true_and, gt_iff_lt, hr, decide_true, if_true, hok]
    · have hz : remaining = 0 := by omega
      subst hz
      exact ⟨d, rfl, hd⟩
  unfold sendInLoop transfer
  by_cases hs : c.state = .kDisconnected
  · rw [if_pos hs, if_pos hs]
    exact ⟨c, rfl, .refl h⟩
  rw [if_neg hs, if_neg hs]
  by_cases hd : c.writesDirectly = true
  · rw [if_pos hd, if_pos hd]
    cases w with
    | accepted n =>
      obtain ⟨d, he, hsent⟩ := writeDirectly_accepted h m data len n
      rw [he]
      exact finish d n (len - n) _ (Nat.sub_le _ _) hsent
    | failed e =>
      by_cases hf : e = .EPIPE ∨ e = .ECONNRESET
      · have hb : (decide (e ≠ .EWOULDBLOCK) && (decide (e = .EPIPE) || decide (e = .ECONNRESET))) =
            true := by rcases hf with rfl | rfl <;> rfl
        simp only [writeDirectly, hb, if_pos hf]
        exact ⟨c, by rw [assert_true (Nat.le_refl len)]; rfl, .refl h⟩
      · have hb : (decide (e ≠ .EWOULDBLOCK) && (decide (e = .EPIPE) || decide (e = .ECONNRESET))) =
            false := by
          rw [not_or] at hf
          simp [hf.1, hf.2]
        simp only [writeDirectly, hb, if_neg hf]
        exact finish c (-1) len [] (Nat.le_refl len) (.refl h)
  · rw [if_neg hd, if_neg hd]
    have hz := finish c 0 len [] (Nat.le_refl len) (.refl h)
    rw [Int.add_zero] at hz
    exact hz

/-- `c'` is `c` after a writable event on which the socket took `n` bytes. -/
structure Drained (c c' : TcpConnection) (n : Nat) : Prop where
  inv : c'.outputBuffer.Inv
  readable : c'.outputBuffer.readable = c.outputBuffer.readable.drop n
  accepted : c'.socket.accepted = c.socket.accepted ++ c.outputBuffer.readable.take n
  writing : c'.channel.writing = true ↔ c'.outputBuffer.readable ≠ []
  reads : c'.channel.reading = c.channel.reading
  state : c'.state = c.state
  callbacks : c'.callbacks = c.callbacks
  input : c'.inputBuffer = c.inputBuffer
  queued : QueuesCallbacks c c'
  closes : (c'.outputBuffer.readable = [] ∧ c.state = .kDisconnecting ∧
      c'.socket.shutdownWrites = c.socket.shutdownWrites ++ [[]] ∧
      c'.shutdownInLoopRuns = c.shutdownInLoopRuns + 1) ∨
    ((c'.outputBuffer.readable ≠ [] ∨ c.state ≠ .kDisconnecting) ∧
      c'.socket.shutdownWrites = c.socket.shutdownWrites ∧
      c'.shutdownInLoopRuns = c.shutdownInLoopRuns)

theorem handleWrite_idle (hw : c.channel.writing = false) (w : WriteResult) :
    c.handleWrite w = .ok c := by
  unfold handleWrite
  rw [Channel.isWriting, hw]
  rfl

/-- With interest in writing, `handleWrite` moves the front of the buffer to the
socket, and completes a pending half-close once nothing is left. -/
theorem handleWrite_spec (h : c.outputBuffer.Inv) (hw : c.channel.writing = true) {n : Nat}
    (hn : 1 ≤ n) (hle : n ≤ c.outputBuffer.readableBytes) :
    ∃ c', c.handleWrite (.accepted n) = .ok c' ∧ Drained c c' n := by
  obtain ⟨b, hok, hi, hb, _⟩ := Buffer.retrieve_spec h hle
  have hz := Buffer.readable_eq_nil hi
  have hret : (c.written (c.outputBuffer.readable.take n)).outputBuffer.retrieve n = .ok b := hok
  rw [handleWrite, if_pos (show c.channel.isWriting = true from hw), handleWritten, if_pos (show n > 0 from hn), hret, ok_bind]
  dsimp only
  by_cases hempty : b.readableBytes = 0
  · have hnil := hz.mpr hempty
    have hdrop : c.outputBuffer.readable.drop n = [] := hb.symm.trans hnil
    rw [if_pos hempty]
    refine ⟨_, rfl, ?_⟩
    by_cases hs : c.state = .kDisconnecting <;> by_cases hcb : c.writeCompleteCallback <;>
      constructor <;>
      simp [hs, hcb, hi, hnil, hdrop, written, queueInLoop, outputDrained, shutdownInLoop,
        shutdownWrite, QueuesCallbacks, Functor.callsUser, Channel.disableWriting, Channel.update,
        Channel.isWriting]
  · have hne : b.readable ≠ [] := fun he => hempty (hz.mp he)
    rw [if_neg hempty]
    refine ⟨_, rfl, ?_⟩
    constructor
    case queued => exact .of_eq rfl
    all_goals simp [hi, ← hb, hne, written, hw]

end TcpConnection
end Muduo.Net
