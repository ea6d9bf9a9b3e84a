import Muduo.Net.Operation
import Muduo.Net.OutputStream
import Muduo.Net.WriteInterest

/-! Two connections, each the peer of the other, and the streams of bytes that TCP carries
between them. -/
namespace Muduo.Net
open Muduo.Support

namespace TcpConnection

/-- Bytes that the connection is given to write while its stream is open. -/
def takes (c : TcpConnection) (bytes : Bytes) : Bytes :=
  if c.state ≠ .kDisconnected ∧ c.socket.shutdownWrites = [] then bytes else []

/-- The operation's part of the output stream. -/
def gives (c : TcpConnection) : Operation → Bytes
  | .send inLoopThread m data len _ =>
      if inLoopThread = true ∧ c.state = .kConnected then c.takes (m.bytes data len) else []
  | .runFunctor (.sendInLoop m data len) _ => c.takes (m.bytes data len)
  | _ => []

end TcpConnection

inductive Side where
  | client | server
  deriving DecidableEq

def Side.peer : Side → Side
  | .client => .server
  | .server => .client

structure Endpoint where
  conn : TcpConnection
  /-- What the connection was given to write, in the order in which its loop did so. -/
  sent : Bytes
  /-- What it read. -/
  received : Bytes
  /-- Its owner has destroyed it, and its socket is closed. -/
  closed : Bool

abbrev Session := Side → Endpoint

namespace Session

/-- Two established connections. -/
def Established (s : Session) : Prop := ∀ side, ∃ writeComplete highWater mark,
  (TcpConnection.new writeComplete highWater mark).connectEstablished = .ok (s side).conn ∧
    (s side).sent = [] ∧ (s side).received = [] ∧ (s side).closed = false

/-- An operation of a side, the first functor of its loop's queue, or the end of a connection
that its owner gives up. -/
inductive Step where
  | operation (side : Side) (o : Operation)
  | functor (side : Side) (w : WriteResult)
  | connectDestroyed (side : Side)

/-- `write` takes up to all of a message; on a stream that was shut down it fails. -/
def writeAnswers (c : TcpConnection) (len : Nat) (w : WriteResult) : Prop :=
  w.Within 0 len ∧ (c.socket.shutdownWrites ≠ [] → w = .failed .EPIPE)

/-- The kernel's answers to the writes of an operation. -/
def answers (c : TcpConnection) : Operation → Prop
  | .send inLoopThread _ _ len w => inLoopThread = true → writeAnswers c len w
  | .runFunctor (.sendInLoop _ _ len) w => writeAnswers c len w
  | .handleWrite w => w.Within 0 c.outputBuffer.readableBytes
  | _ => True

/-- `read` returns what the peer has written and the side has not read yet; and 0 behind
that, if the peer shut its stream down or closed its socket. -/
def readAnswers (e p : Endpoint) : ReadResult → Prop
  | .data [] => e.received = p.conn.socket.accepted ∧
      (p.conn.socket.shutdownWrites ≠ [] ∨ p.closed = true)
  | .data (b :: bs) => e.received ++ b :: bs <+: p.conn.socket.accepted
  | .failed _ => True

/-- The poller dispatches only the events that a connection is interested in; functors run
in the order in which they were queued. -/
def dispatches (e p : Endpoint) : Operation → Prop
  | .handleRead r => e.conn.channel.isReading = true ∧ readAnswers e p r
  | .handleWrite _ => e.conn.channel.isWriting = true
  | .handleClose => e.conn.channel.isNoneEvent = false
  | .runFunctor .. => False
  | .send .. | .shutdown _ | .forceClose | .forceCloseWithDelay | .startRead _ | .stopRead _ => True

def enabled (s : Session) : Step → Prop
  | .operation side o => (s side).closed = false ∧ dispatches (s side) (s side.peer) o ∧
      answers (s side).conn o
  | .functor side w => (s side).closed = false ∧
      ∃ f ∈ (s side).conn.queued.head?, answers (s side).conn (.runFunctor f w)
  | .connectDestroyed side => (s side).closed = false

/-- What an operation reads. -/
def reads : Operation → Bytes
  | .handleRead (.data bytes) => bytes
  | _ => []

def operate (e : Endpoint) (o : Operation) : Except Fault Endpoint := do
  return { e with
    conn := ← o.apply e.conn
    sent := e.sent ++ e.conn.gives o
    received := e.received ++ reads o }

def step (s : Session) : Step → Except Fault Session
  | .operation side o => do return Function.update s side (← operate (s side) o)
  | .functor side w =>
      match (s side).conn.queued with
      | [] => return s
      | f :: fs => do
          let e := { s side with conn := { (s side).conn with queued := fs } }
          return Function.update s side (← operate e (.runFunctor f w))
  | .connectDestroyed side => do
      let conn ← (s side).conn.connectDestroyed
      return Function.update s side { s side with conn, closed := true }

def machine : Machine Session Step := ⟨enabled, step⟩

/-- The write fails although the stream is open. -/
def WriteFails (c : TcpConnection) (w : WriteResult) : Prop :=
  c.socket.shutdownWrites = [] ∧ ∀ n, w ≠ .accepted n

/-- No write of the operation fails while the stream is open, and one of buffered output
takes at least a byte. -/
def Served (c : TcpConnection) : Operation → Prop
  | .send inLoopThread _ _ _ w => inLoopThread = true → ¬ WriteFails c w
  | .runFunctor (.sendInLoop ..) w => ¬ WriteFails c w
  | .handleWrite w => ∃ n, w = .accepted n ∧ 1 ≤ n
  | _ => True

def Healthy (s : Session) : Step → Prop
  | .operation side o => Served (s side).conn o
  | .functor side w => ∀ f ∈ (s side).conn.queued.head?, Served (s side).conn (.runFunctor f w)
  | .connectDestroyed _ => True

/-- What a connection was given is with the kernel or waits in the buffer, until the
connection is down; nothing waits behind a half-close. -/
structure Sends (c : TcpConnection) (sent : Bytes) : Prop where
  input : c.inputBuffer.Inv
  inv : c.outputBuffer.Inv
  interest : c.state ≠ .kDisconnected → (c.channel.writing = true ↔ c.outputBuffer.readable ≠ [])
  idle : c.state = .kDisconnected → c.channel.writing = false
  whole : c.state ≠ .kDisconnected → c.socket.accepted ++ c.outputBuffer.readable = sent
  beginning : c.socket.accepted <+: sent
  closed : c.socket.shutdownWrites ≠ [] → c.state ≠ .kDisconnected → c.outputBuffer.readable = []

variable {c c' : TcpConnection} {sent : Bytes} {w : WriteResult}

/-- The operation leaves the output side alone, and brings no connection back up. -/
structure Quiet (c c' : TcpConnection) : Prop where
  input : c'.inputBuffer = c.inputBuffer
  buffer : c'.outputBuffer = c.outputBuffer
  writing : c'.channel.writing = c.channel.writing
  socket : c'.socket = c.socket
  down : c'.state = .kDisconnected ↔ c.state = .kDisconnected

theorem Quiet.refl (c : TcpConnection) : Quiet c c := ⟨rfl, rfl, rfl, rfl, Iff.rfl⟩

theorem Quiet.queueInLoop (c : TcpConnection) (f : Functor) : Quiet c (c.queueInLoop f) :=
  ⟨rfl, rfl, rfl, rfl, Iff.rfl⟩

theorem Quiet.of_same (h : WriteInterest.SameOutput c c') (hi : c'.inputBuffer = c.inputBuffer) :
    Quiet c c' where
  input := hi
  buffer := h.buffer
  writing := h.writing
  socket := h.socket
  down := by
    rcases h.state with he | ⟨hl, hc⟩
    · rw [he]
    · refine iff_of_false hl fun hd => ?_
      rcases hc with hc | hc <;> rw [hc] at hd <;> cases hd

theorem Sends.quiet (h : Sends c sent) (hq : Quiet c c') : Sends c' sent where
  input := hq.input ▸ h.input
  inv := hq.buffer ▸ h.inv
  interest hl := by
    rw [hq.writing, hq.buffer]
    exact h.interest fun hd => hl (hq.down.mpr hd)
  idle hd := by
    rw [hq.writing]
    exact h.idle (hq.down.mp hd)
  whole hl := by
    rw [hq.socket, hq.buffer]
    exact h.whole fun hd => hl (hq.down.mpr hd)
  beginning := by
    rw [hq.socket]
    exact h.beginning
  closed := by
    rw [hq.socket, hq.buffer]
    exact fun hs hl => h.closed hs fun hd => hl (hq.down.mpr hd)

/-- The connection goes down with what it had not written. -/
theorem Sends.down (h : Sends c sent) (hi : c'.inputBuffer = c.inputBuffer)
    (hb : c'.outputBuffer = c.outputBuffer) (hs : c'.socket = c.socket)
    (hd : c'.state = .kDisconnected) (hw : c'.channel.writing = false) : Sends c' sent where
  input := hi ▸ h.input
  inv := hb ▸ h.inv
  interest hl := absurd hd hl
  idle _ := hw
  whole hl := absurd hd hl
  beginning := hs ▸ h.beginning
  closed _ hl := absurd hd hl

theorem Sends.shutdownInLoop (h : Sends c sent) : Sends c.shutdownInLoop sent := by
  rw [TcpConnection.shutdownInLoop]
  cases hw : c.channel.writing with
  | true =>
    rw [if_neg (by simp [Channel.isWriting, hw])]
    exact ⟨h.input, h.inv, h.interest, h.idle, h.whole, h.beginning, h.closed⟩
  | false =>
    rw [if_pos (by simp [Channel.isWriting, hw])]
    refine ⟨h.input, h.inv, h.interest, h.idle, h.whole, h.beginning, fun _ hl => ?_⟩
    by_contra hne
    have hwriting := (h.interest hl).mpr hne
    rw [hw] at hwriting
    cases hwriting

theorem Sends.writesDirectly (h : Sends c sent) (hl : c.state ≠ .kDisconnected)
    (hs : c.socket.shutdownWrites ≠ []) : c.writesDirectly = true := by
  have hnil := h.closed hs hl
  have hidle : c.channel.writing = false := Bool.eq_false_iff.mpr fun hw =>
    (h.interest hl).mp hw hnil
  have hzero := (Buffer.readable_eq_nil h.inv).mp hnil
  simp [TcpConnection.writesDirectly, Channel.isWriting, hidle, hzero]

/-- What a `sendInLoop` moves is what the open stream takes. -/
theorem Sends.transfer (h : Sends c sent) (m : Memory) (data : Int) {len : Nat}
    (hl : c.state ≠ .kDisconnected) (hw : writeAnswers c len w) (hk : ¬ WriteFails c w) :
    (c.transfer m data len w).1 ++ (c.transfer m data len w).2 = c.takes (m.bytes data len) := by
  by_cases hs : c.socket.shutdownWrites = []
  · have hacc : ∃ n, w = .accepted n := by
      by_contra hn
      exact hk ⟨hs, fun n hx => hn ⟨n, hx⟩⟩
    obtain ⟨n, rfl⟩ := hacc
    rw [TcpConnection.takes, if_pos ⟨hl, hs⟩]
    simp only [TcpConnection.transfer, if_neg hl]
    cases c.writesDirectly with
    | true => exact (Memory.bytes_add ..).symm.trans (by rw [Nat.add_sub_cancel' (hw.1 n rfl).2])
    | false => rfl
  · rw [TcpConnection.takes, if_neg fun hx => hs hx.2]
    simp only [TcpConnection.transfer, if_neg hl, h.writesDirectly hl hs, hw.2 hs]
    rfl

/-- A message: it goes out behind what was sent before, unless the connection is down or its
stream is shut down. -/
theorem Sends.sendInLoop (h : Sends c sent) {m : Memory} {data : Int} {len : Nat}
    (hw : writeAnswers c len w) (hk : ¬ WriteFails c w)
    (hok : c.sendInLoop m data len w = .ok c') :
    Sends c' (sent ++ c.takes (m.bytes data len)) ∧ c.socket.accepted <+: c'.socket.accepted := by
  obtain ⟨d, hd, hs⟩ := TcpConnection.sendInLoop_spec h.inv m data len hw.1
  cases hok.symm.trans hd
  have hgrows : c.socket.accepted <+: c'.socket.accepted := hs.accepted ▸ List.prefix_append _ _
  refine ⟨?_, hgrows⟩
  by_cases hdown : c.state = .kDisconnected
  · have hsame : c' = c := by
      rw [TcpConnection.sendInLoop, if_pos hdown] at hok
      exact (Except.ok.inj hok).symm
    rw [hsame, TcpConnection.takes, if_neg fun hx => hx.1 hdown, List.append_nil]
    exact h
  · have hout := OutputStream.send_output (s := ⟨c, sent⟩) h.inv m data len w hs
    rw [h.transfer m data hdown hw hk] at hout
    have hwhole : c'.socket.accepted ++ c'.outputBuffer.readable =
        sent ++ c.takes (m.bytes data len) := by
      rw [hout, OutputStream.Stream.output, h.whole hdown]
    refine ⟨hs.input ▸ h.input, hs.inv, fun _ => ?_, fun hd => absurd (hs.state ▸ hd) hdown,
      fun _ => hwhole, ⟨_, hwhole⟩, fun hc _ => ?_⟩
    · rw [hs.writing, hs.readable, Bool.or_eq_true, h.interest hdown, Bool.not_eq_true',
        List.isEmpty_eq_false_iff, ← not_and_or, ne_eq, List.append_eq_nil_iff]
    · rw [hs.shutdownWrites] at hc
      have hnone := h.transfer m data hdown hw hk
      rw [TcpConnection.takes, if_neg fun hx => hc hx.2, List.append_eq_nil_iff] at hnone
      rw [hs.readable, h.closed hc hdown, hnone.2, List.append_nil]

/-- A writable event. -/
theorem Sends.handleWrite (h : Sends c sent) (hw : w.Within 0 c.outputBuffer.readableBytes)
    (hk : ∃ n, w = .accepted n ∧ 1 ≤ n) (hok : c.handleWrite w = .ok c') :
    Sends c' sent ∧ c.socket.accepted <+: c'.socket.accepted := by
  cases hwriting : c.channel.writing with
  | false =>
    rw [TcpConnection.handleWrite_idle hwriting] at hok
    cases hok
    exact ⟨h, List.prefix_refl _⟩
  | true =>
    obtain ⟨n, rfl, hn⟩ := hk
    obtain ⟨d, hd, hs⟩ := TcpConnection.handleWrite_spec h.inv hwriting hn (hw n rfl).2
    cases hok.symm.trans hd
    have hlive : c.state ≠ .kDisconnected := fun hx => by
      rw [h.idle hx] at hwriting
      cases hwriting
    have hwhole : c'.socket.accepted ++ c'.outputBuffer.readable = sent := by
      rw [hs.accepted, hs.readable, List.append_assoc, List.take_append_drop, h.whole hlive]
    refine ⟨⟨hs.input ▸ h.input, hs.inv, fun _ => hs.writing,
      fun hx => absurd (hs.state ▸ hx) hlive, fun _ => hwhole, ⟨_, hwhole⟩,
      fun hc _ => ?_⟩, hs.accepted ▸ List.prefix_append _ _⟩
    rcases hs.closes with ⟨hempty, _⟩ | ⟨_, hsame, _⟩
    · exact hempty
    · rw [hsame] at hc
      exact absurd (h.closed hc hlive) ((h.interest hlive).mp hwriting)

theorem Sends.handleClose (h : Sends c sent) (hok : c.handleClose = .ok c') : Sends c' sent := by
  obtain ⟨_, hok⟩ := assert_bind_ok.mp hok
  cases hok
  exact h.down rfl rfl rfl rfl rfl

theorem Sends.handleRead (h : Sends c sent) {r : ReadResult} (hok : c.handleRead r = .ok c') :
    Sends c' sent := by
  obtain ⟨b, hread, hok⟩ := bind_ok.mp hok
  have hinv : b.Inv := by
    cases r with
    | data bytes =>
      obtain ⟨b', hok', hi, _⟩ := Buffer.readFd_spec h.input bytes
      cases hread.symm.trans hok'
      exact hi
    | failed errno =>
      cases hread
      exact h.input
  have hb : Sends { c with inputBuffer := b } sent :=
    ⟨hinv, h.inv, h.interest, h.idle, h.whole, h.beginning, h.closed⟩
  match r, hok with
  | .data [], hok => exact hb.handleClose hok
  | .data (_ :: _), hok =>
    cases hok
    exact hb.quiet ⟨rfl, rfl, rfl, rfl, Iff.rfl⟩
  | .failed _, hok =>
    cases hok
    exact hb

theorem Sends.connectDestroyed (h : Sends c sent) (hok : c.connectDestroyed = .ok c') :
    Sends c' sent ∧ c'.socket = c.socket := by
  obtain ⟨channel, hchannel, hok⟩ := bind_ok.mp hok
  obtain ⟨_, hremove⟩ := assert_bind_ok.mp hchannel
  cases hremove
  cases hok
  by_cases hs : c.state = .kConnected
  · simp only [if_pos hs]
    exact ⟨h.down rfl rfl rfl rfl rfl, rfl⟩
  · rw [if_neg hs]
    exact ⟨h.quiet ⟨rfl, rfl, rfl, rfl, Iff.rfl⟩, rfl⟩

/-- Only a connection that is down is destroyed with output pending. -/
theorem Sends.destroyed (h : Sends c sent) (hok : c.connectDestroyed = .ok c')
    (hl : c'.state ≠ .kDisconnected) : c'.outputBuffer.readable = [] := by
  obtain ⟨channel, hchannel, hok⟩ := bind_ok.mp hok
  obtain ⟨hnone, hremove⟩ := assert_bind_ok.mp hchannel
  cases hok
  by_cases hs : c.state = .kConnected
  · simp only [if_pos hs] at hl
    exact absurd rfl hl
  · rw [if_neg hs] at hnone hl ⊢
    by_contra hne
    have hwriting := (h.interest hl).mpr hne
    simp [Channel.isNoneEvent, hwriting] at hnone

/-- Operations that write nothing. -/
theorem Sends.silent (h : Sends c' sent) (hs : c'.socket = c.socket) :
    Sends c' (sent ++ []) ∧ c.socket.accepted <+: c'.socket.accepted := by
  rw [List.append_nil, hs]
  exact ⟨h, List.prefix_refl _⟩

theorem Sends.still (h : Sends c sent) (hq : Quiet c c') :
    Sends c' (sent ++ []) ∧ c.socket.accepted <+: c'.socket.accepted :=
  (h.quiet hq).silent hq.socket

theorem startReadInLoop_quiet (c : TcpConnection) : Quiet c c.startReadInLoop :=
  .of_same (WriteInterest.startRead_same c) <| by
    rw [TcpConnection.startReadInLoop]
    split <;> rfl

theorem stopReadInLoop_quiet (c : TcpConnection) : Quiet c c.stopReadInLoop :=
  .of_same (WriteInterest.stopRead_same c) <| by
    rw [TcpConnection.stopReadInLoop]
    split <;> rfl

theorem shutdownInLoop_accepted (c : TcpConnection) :
    c.shutdownInLoop.socket.accepted = c.socket.accepted := by
  rw [TcpConnection.shutdownInLoop]
  dsimp only
  split <;> rfl

theorem handleClose_socket (hok : c.handleClose = .ok c') : c'.socket = c.socket := by
  obtain ⟨_, hok⟩ := assert_bind_ok.mp hok
  cases hok
  rfl

theorem handleRead_socket {r : ReadResult} (hok : c.handleRead r = .ok c') :
    c'.socket = c.socket := by
  obtain ⟨b, _, hok⟩ := bind_ok.mp hok
  match r, hok with
  | .data [], hok => exact handleClose_socket (c := { c with inputBuffer := b }) hok
  | .data (_ :: _), hok =>
    cases hok
    rfl
  | .failed _, hok =>
    cases hok
    rfl

theorem Sends.runFunctor (h : Sends c sent) {f : Functor} (ha : answers c (.runFunctor f w))
    (hk : Served c (.runFunctor f w)) (hok : c.runFunctor w f = .ok c') :
    Sends c' (sent ++ c.gives (.runFunctor f w)) ∧ c.socket.accepted <+: c'.socket.accepted := by
  cases f with
  | sendInLoop m data len => exact h.sendInLoop ha hk hok
  | writeCompleteCallback | highWaterMarkCallback =>
    cases hok
    exact h.still (.refl c)
  | shutdownInLoop =>
    cases hok
    have hnone : sent ++ c.gives (.runFunctor .shutdownInLoop w) = sent := List.append_nil sent
    rw [hnone, shutdownInLoop_accepted]
    exact ⟨h.shutdownInLoop, List.prefix_refl _⟩
  | forceCloseInLoop =>
    have hclose : c.forceCloseInLoop = .ok c' := hok
    rw [TcpConnection.forceCloseInLoop] at hclose
    split at hclose
    · exact (h.handleClose hclose).silent (handleClose_socket hclose)
    · cases hclose
      exact h.still (.refl c)
  | startReadInLoop =>
    cases hok
    exact h.still (startReadInLoop_quiet c)
  | stopReadInLoop =>
    cases hok
    exact h.still (stopReadInLoop_quiet c)
  | connectEstablished =>
    obtain ⟨hs, hok⟩ := assert_bind_ok.mp hok
    cases hok
    refine h.still ⟨rfl, rfl, rfl, rfl, iff_of_false (fun hx => by cases hx) fun hx => ?_⟩
    rw [hs] at hx
    cases hx
  | connectDestroyed =>
    obtain ⟨hc, hsocket⟩ := h.connectDestroyed hok
    exact hc.silent hsocket

/-- `shutdown()`, from any thread. -/
theorem Sends.shutdown (h : Sends c sent) (inLoopThread : Bool) :
    Sends (c.shutdown inLoopThread) (sent ++ []) ∧
      c.socket.accepted <+: (c.shutdown inLoopThread).socket.accepted := by
  by_cases hs : c.state = .kConnected
  · have hstate : Sends (c.setState .kDisconnecting) sent :=
      h.quiet ⟨rfl, rfl, rfl, rfl, iff_of_false (fun hx => by cases hx) fun hx => by
        rw [hs] at hx
        cases hx⟩
    rw [TcpConnection.shutdown, if_pos hs]
    dsimp only
    split
    · rw [shutdownInLoop_accepted, List.append_nil]
      exact ⟨hstate.shutdownInLoop, List.prefix_refl _⟩
    · exact hstate.still (.queueInLoop _ _)
  · rw [TcpConnection.shutdown, if_neg hs]
    exact h.still (.refl c)

/-- What an operation gives the connection to write is sent behind what it was given
before. -/
theorem Sends.apply (h : Sends c sent) {o : Operation} (ha : answers c o) (hk : Served c o)
    (hok : o.apply c = .ok c') :
    Sends c' (sent ++ c.gives o) ∧ c.socket.accepted <+: c'.socket.accepted := by
  cases o with
  | send inLoopThread m data len w =>
    have hsend : c.send inLoopThread m data len w = .ok c' := hok
    rw [TcpConnection.send] at hsend
    rw [TcpConnection.gives]
    split at hsend
    · next hs =>
      cases inLoopThread with
      | true =>
        rw [if_pos ⟨rfl, hs⟩]
        exact h.sendInLoop (ha rfl) (hk rfl) hsend
      | false =>
        cases hsend
        exact h.still (.queueInLoop c _)
    · next hs =>
      cases hsend
      rw [if_neg fun hx => hs hx.2]
      exact h.still (.refl c)
  | handleRead r => exact (h.handleRead hok).silent (handleRead_socket hok)
  | handleWrite w =>
    have hnone : sent ++ c.gives (.handleWrite w) = sent := List.append_nil sent
    rw [hnone]
    exact h.handleWrite ha hk hok
  | handleClose => exact (h.handleClose hok).silent (handleClose_socket hok)
  | shutdown inLoopThread =>
    cases hok
    exact h.shutdown inLoopThread
  | forceClose =>
    cases hok
    refine h.still (.of_same (WriteInterest.forceClose_same c) ?_)
    rw [TcpConnection.forceClose]
    split <;> rfl
  | forceCloseWithDelay =>
    cases hok
    refine h.still (.of_same (WriteInterest.forceCloseWithDelay_same c) ?_)
    rw [TcpConnection.forceCloseWithDelay]
    split <;> rfl
  | startRead inLoopThread =>
    cases hok
    cases inLoopThread with
    | true => exact h.still (startReadInLoop_quiet c)
    | false => exact h.still (.queueInLoop c _)
  | stopRead inLoopThread =>
    cases hok
    cases inLoopThread with
    | true => exact h.still (stopReadInLoop_quiet c)
    | false => exact h.still (.queueInLoop c _)
  | runFunctor f w => exact h.runFunctor ha hk hok

/-- Each side sends, and has read a beginning of what its peer wrote; one that is destroyed
has nothing pending, or was down. -/
structure Streams (s : Session) : Prop where
  sends : ∀ side, Sends (s side).conn (s side).sent
  read : ∀ side, (s side).received <+: (s side.peer).conn.socket.accepted
  empty : ∀ side, (s side).closed = true → (s side).conn.state ≠ .kDisconnected →
    (s side).conn.outputBuffer.readable = []

variable {s t : Session} {side : Side} {e : Endpoint}

theorem Side.peer_ne (side : Side) : side.peer ≠ side := by
  cases side <;> decide

/-- One side moves on. -/
theorem Streams.update (h : Streams s) (hs : Sends e.conn e.sent)
    (hw : (s side).conn.socket.accepted <+: e.conn.socket.accepted)
    (hr : e.received <+: (s side.peer).conn.socket.accepted)
    (he : e.closed = true → e.conn.state ≠ .kDisconnected → e.conn.outputBuffer.readable = []) :
    Streams (Function.update s side e) where
  sends i := by
    by_cases hi : i = side
    · subst hi
      rw [Function.update_self]
      exact hs
    · rw [Function.update_of_ne hi]
      exact h.sends i
  read i := by
    by_cases hi : i = side
    · subst hi
      rw [Function.update_self, Function.update_of_ne (Side.peer_ne i)]
      exact hr
    · have hpeer : i.peer = side := by
        cases i <;> cases side <;> first | rfl | exact absurd rfl hi
      rw [Function.update_of_ne hi, hpeer, Function.update_self]
      have hread := h.read i
      rw [hpeer] at hread
      exact hread.trans hw
  empty i := by
    by_cases hi : i = side
    · subst hi
      rw [Function.update_self]
      exact he
    · rw [Function.update_of_ne hi]
      exact h.empty i

/-- What is read comes behind what was read before. -/
theorem Streams.reads (h : Streams s) {o : Operation}
    (hd : dispatches (s side) (s side.peer) o) :
    (s side).received ++ reads o <+: (s side.peer).conn.socket.accepted := by
  have hread := h.read side
  rw [← List.append_nil (s side).received] at hread
  cases o with
  | handleRead r =>
    cases r with
    | data bytes =>
      cases bytes with
      | nil => exact hread
      | cons b bs => exact hd.2
    | failed errno => exact hread
  | _ => exact hread

/-- Nothing is sent yet. -/
theorem Sends.established {writeComplete highWater : Bool} {mark : Nat}
    (hc : (TcpConnection.new writeComplete highWater mark).connectEstablished = .ok c) :
    Sends c [] ∧ c.outputBuffer.readable = [] := by
  have hempty : (TcpConnection.new writeComplete highWater mark).outputBuffer.readable = [] :=
    Buffer.new_readable _
  cases hc
  exact ⟨⟨Buffer.new_inv _, Buffer.new_inv _,
    fun _ => iff_of_false Bool.false_ne_true fun hp => hp hempty, fun _ => rfl,
    fun _ => hempty, List.nil_prefix, fun _ _ => hempty⟩, hempty⟩

/-- One writable event is enough to write what is pending. -/
theorem Sends.flush (h : Sends c sent) (hw : c.channel.writing = true) :
    1 ≤ c.outputBuffer.readableBytes ∧
      ∃ d, c.handleWrite (.accepted c.outputBuffer.readableBytes) = .ok d ∧
        d.socket.accepted = sent := by
  have hlive : c.state ≠ .kDisconnected := fun hx => by
    rw [h.idle hx] at hw
    cases hw
  have hpos : 1 ≤ c.outputBuffer.readableBytes := Nat.pos_of_ne_zero fun hz =>
    (h.interest hlive).mp hw ((Buffer.readable_eq_nil h.inv).mpr hz)
  obtain ⟨d, hok, hd⟩ := TcpConnection.handleWrite_spec h.inv hw hpos (Nat.le_refl _)
  refine ⟨hpos, d, hok, ?_⟩
  rw [hd.accepted, ← Buffer.readable_length h.inv, List.take_length, h.whole hlive]

instance (c : TcpConnection) (len : Nat) (w : WriteResult) : Decidable (writeAnswers c len w) :=
  inferInstanceAs (Decidable (w.Within 0 len ∧ (c.socket.shutdownWrites ≠ [] → w = .failed .EPIPE)))

instance writeFailsDecidable (c : TcpConnection) :
    (w : WriteResult) → Decidable (WriteFails c w)
  | .accepted n => isFalse fun h => h.2 n rfl
  | .failed _ => decidable_of_iff (c.socket.shutdownWrites = []) (by simp [WriteFails])

instance answersDecidable (c : TcpConnection) : (o : Operation) → Decidable (answers c o)
  | .send inLoopThread _ _ len w =>
      inferInstanceAs (Decidable (inLoopThread = true → writeAnswers c len w))
  | .runFunctor (.sendInLoop _ _ len) w => inferInstanceAs (Decidable (writeAnswers c len w))
  | .handleWrite w => inferInstanceAs (Decidable (w.Within 0 c.outputBuffer.readableBytes))
  | .runFunctor .writeCompleteCallback _ | .runFunctor (.highWaterMarkCallback _) _
  | .runFunctor .shutdownInLoop _ | .runFunctor .forceCloseInLoop _
  | .runFunctor .startReadInLoop _ | .runFunctor .stopReadInLoop _
  | .runFunctor .connectEstablished _ | .runFunctor .connectDestroyed _
  | .handleRead _ | .handleClose | .shutdown _ | .forceClose | .forceCloseWithDelay
  | .startRead _ | .stopRead _ => isTrue trivial

instance readAnswersDecidable (e p : Endpoint) : (r : ReadResult) → Decidable (readAnswers e p r)
  | .data [] => inferInstanceAs (Decidable (e.received = p.conn.socket.accepted ∧
      (p.conn.socket.shutdownWrites ≠ [] ∨ p.closed = true)))
  | .data (b :: bs) =>
      inferInstanceAs (Decidable (e.received ++ b :: bs <+: p.conn.socket.accepted))
  | .failed _ => isTrue trivial

instance dispatchesDecidable (e p : Endpoint) : (o : Operation) → Decidable (dispatches e p o)
  | .handleRead r =>
      inferInstanceAs (Decidable (e.conn.channel.isReading = true ∧ readAnswers e p r))
  | .handleWrite _ => inferInstanceAs (Decidable (e.conn.channel.isWriting = true))
  | .handleClose => inferInstanceAs (Decidable (e.conn.channel.isNoneEvent = false))
  | .runFunctor .. => isFalse id
  | .send .. | .shutdown _ | .forceClose | .forceCloseWithDelay | .startRead _ | .stopRead _ =>
      isTrue trivial

instance servedDecidable (c : TcpConnection) : (o : Operation) → Decidable (Served c o)
  | .send inLoopThread _ _ _ w =>
      inferInstanceAs (Decidable (inLoopThread = true → ¬ WriteFails c w))
  | .runFunctor (.sendInLoop ..) w => inferInstanceAs (Decidable (¬ WriteFails c w))
  | .handleWrite (.accepted n) => decidable_of_iff (1 ≤ n) (by simp [Served])
  | .handleWrite (.failed _) => isFalse fun ⟨_, h, _⟩ => WriteResult.noConfusion h
  | .runFunctor .writeCompleteCallback _ | .runFunctor (.highWaterMarkCallback _) _
  | .runFunctor .shutdownInLoop _ | .runFunctor .forceCloseInLoop _
  | .runFunctor .startReadInLoop _ | .runFunctor .stopReadInLoop _
  | .runFunctor .connectEstablished _ | .runFunctor .connectDestroyed _
  | .handleRead _ | .handleClose | .shutdown _ | .forceClose | .forceCloseWithDelay
  | .startRead _ | .stopRead _ => isTrue trivial

instance enabledDecidable (s : Session) :
    (a : Step) → Decidable ((machine.restrict Healthy).enabled s a)
  | .operation side o => inferInstanceAs (Decidable (((s side).closed = false ∧
      dispatches (s side) (s side.peer) o ∧ answers (s side).conn o) ∧ Served (s side).conn o))
  | .functor side w => inferInstanceAs (Decidable (((s side).closed = false ∧
      ∃ f ∈ (s side).conn.queued.head?, answers (s side).conn (.runFunctor f w)) ∧
      ∀ f ∈ (s side).conn.queued.head?, Served (s side).conn (.runFunctor f w)))
  | .connectDestroyed side => inferInstanceAs (Decidable ((s side).closed = false ∧ True))

def up : TcpConnection :=
  { TcpConnection.new with
    state := .kConnected
    channel := TcpConnection.new.channel.enableReading
    callbacks := [.connection true] }

/-- "hi" in memory. -/
def hi : Memory := fun p => if p = 0 then 104 else 105

end Session
end Muduo.Net
