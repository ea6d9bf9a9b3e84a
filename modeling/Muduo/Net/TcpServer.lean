import Muduo.Net.TcpConnection
import Muduo.Support.Decimal
import Muduo.Support.Mailbox
import Muduo.Support.OrderedMap

/-! `muduo::net::TcpServer` with its base loop, the loops of its thread pool and its
connections. A loop runs one functor of its queue, dispatches one event or runs user code
at a time; the threads of different loops interleave between such steps. -/
namespace Muduo.Net
open Muduo.Support

/-- `loop_` is 0; the loops of the pool have other numbers. -/
abbrev LoopId := Nat

/-- A `TcpConnection` object, by the value of `nextConnId_` it was made with. -/
abbrev ConnId := Nat

/-- The calls that move a connection through its life. -/
inductive LifeCall where
  | connectEstablished | handleClose | removeConnectionInLoop | connectDestroyed
  deriving DecidableEq, Repr

def Functor.lifeCall : Functor → Option LifeCall
  | .connectEstablished => some .connectEstablished
  | .connectDestroyed => some .connectDestroyed
  | .writeCompleteCallback | .highWaterMarkCallback _ | .sendInLoop .. | .shutdownInLoop
  | .forceCloseInLoop | .startReadInLoop | .stopReadInLoop => none

/-- An entry of `pendingFunctors_`. -/
inductive Task where
  | functor (id : ConnId) (f : Functor)
  | removeConnectionInLoop (id : ConnId)

/-- The result of `InetAddress::toIpPort`: up to 45 characters of `inet_ntop`, a colon
and up to five digits. -/
structure IpPort where
  bytes : Bytes
  short : bytes.length ≤ 51

structure EventLoopThreadPool where
  loops : List LoopId
  next : Nat

namespace EventLoopThreadPool

def getNextLoop (p : EventLoopThreadPool) : Except Fault (LoopId × EventLoopThreadPool) :=
  if p.loops = [] then return (0, p)
  else match p.loops[p.next]? with
    | none => .error .memory
    | some loop =>
        let next := p.next + 1
        return (loop, { p with next := if next ≥ p.loops.length then 0 else next })

end EventLoopThreadPool

structure Connection where
  name : Bytes
  /-- `getLoop()` -/
  loop : LoopId
  conn : TcpConnection
  /-- The calls that have run, oldest first. -/
  ran : List LifeCall

structure TcpServer where
  name : Bytes
  ipPort : IpPort
  threadPool : EventLoopThreadPool
  writeCompleteCallback : Bool
  nextConnId : Nat
  connections : OrderedMap Bytes ConnId
  objects : ConnId → Option Connection
  pending : Mailbox LoopId Task
  /-- The connection whose `handleClose` the loop is in, ahead of `closeCallback_`. -/
  closing : LoopId → Option ConnId

namespace TcpServer

def INT_MAX : Nat := 0x7FFFFFFF

/-- A started server whose pool has these loops. -/
def new (name : Bytes) (ipPort : IpPort) (loops : List LoopId) (writeCompleteCallback : Bool) :
    TcpServer where
  name := name
  ipPort := ipPort
  threadPool := ⟨loops, 0⟩
  writeCompleteCallback := writeCompleteCallback
  nextConnId := 1
  connections := .empty
  objects := fun _ => none
  pending := fun _ => []
  closing := fun _ => none

/-- `snprintf(buf, sizeof buf, "-%s#%d", ipPort_.c_str(), nextConnId_)` into `char buf[64]`. -/
def snprintf (ipPort : IpPort) (nextConnId : Nat) : Bytes :=
  (ascii ['-'] ++ ipPort.bytes ++ ascii ['#'] ++ decimal nextConnId).take 63

def connName (s : TcpServer) (id : ConnId) : Bytes := s.name ++ snprintf s.ipPort id

def deref (s : TcpServer) (id : ConnId) : Except Fault Connection :=
  match s.objects id with
  | some o => .ok o
  | none => .error .memory

def queueInLoop (s : TcpServer) (loop : LoopId) (ts : List Task) : TcpServer :=
  { s with pending := s.pending.post loop ts }

/-- The connection after `calls`: its functors go to its loop, and the loop stands in
front of `closeCallback_` when `handleClose` has come that far. -/
def store (s : TcpServer) (id : ConnId) (o : Connection) (calls : List LifeCall)
    (c : TcpConnection) : TcpServer :=
  let closed := c.callbacks.count .close > o.conn.callbacks.count .close
  let ran := o.ran ++ calls ++ if closed then [.handleClose] else []
  { s with
    objects := Function.update s.objects id (some { o with conn := { c with queued := [] }, ran })
    pending := s.pending.post o.loop (c.queued.map (.functor id))
    closing := if closed then Function.update s.closing o.loop (some id) else s.closing }

/-- An operation of a connection. -/
def call (s : TcpServer) (id : ConnId) (calls : List LifeCall)
    (f : TcpConnection → Except Fault TcpConnection) : Except Fault TcpServer := do
  let o ← s.deref id
  let c ← f o.conn
  return s.store id o calls c

def newConnection (s : TcpServer) : Except Fault TcpServer := do
  let (ioLoop, threadPool) ← s.threadPool.getNextLoop
  let id := s.nextConnId
  let connName := s.connName id
  let conn : Connection := ⟨connName, ioLoop, .new s.writeCompleteCallback, []⟩
  let s := { s with
    threadPool
    nextConnId := id + 1
    objects := Function.update s.objects id (some conn)
    connections := s.connections.insert connName id }
  if ioLoop = 0 then s.call id [.connectEstablished] (·.connectEstablished)
  else return s.queueInLoop ioLoop [.functor id .connectEstablished]

def removeConnectionInLoop (s : TcpServer) (id : ConnId) : Except Fault TcpServer := do
  let o ← s.deref id
  assert ((s.connections.find o.name).isSome = true)
  let s := { s with
    connections := s.connections.erase o.name
    objects := Function.update s.objects id
      (some { o with ran := o.ran ++ [LifeCall.removeConnectionInLoop] }) }
  return s.queueInLoop o.loop [.functor id .connectDestroyed]

/-- `removeConnection`, called in the thread of `loop`. -/
def removeConnection (s : TcpServer) (loop : LoopId) (id : ConnId) : Except Fault TcpServer :=
  if loop = 0 then s.removeConnectionInLoop id
  else return s.queueInLoop 0 [.removeConnectionInLoop id]

def runTask (s : TcpServer) (w : WriteResult) : Task → Except Fault TcpServer
  | .functor id f => s.call id f.lifeCall.toList (·.runFunctor w f)
  | .removeConnectionInLoop id => s.removeConnectionInLoop id

/-- The next functor of `doPendingFunctors`. -/
def runFunctor (s : TcpServer) (loop : LoopId) (w : WriteResult) : Except Fault TcpServer :=
  match s.pending loop with
  | [] => return s
  | t :: _ => runTask { s with pending := s.pending.take loop } w t

/-- The rest of a `handleClose` from its `closeCallback_(guardThis)` on. -/
def closeCallback (s : TcpServer) (loop : LoopId) : Except Fault TcpServer :=
  match s.closing loop with
  | none => return s
  | some id => removeConnection { s with closing := Function.update s.closing loop none } loop id

/-- What a loop or a user's thread does next; `w` is the kernel's answer to a write. -/
inductive Step where
  | newConnection
  | runFunctor (loop : LoopId) (w : WriteResult)
  | closeCallback (loop : LoopId)
  | handleRead (id : ConnId) (r : ReadResult)
  | handleWrite (id : ConnId) (w : WriteResult)
  | handleClose (id : ConnId)
  | send (id : ConnId) (inLoopThread : Bool) (m : Memory) (data : Int) (len : Nat)
      (w : WriteResult)
  | shutdown (id : ConnId) (inLoopThread : Bool)
  | forceClose (id : ConnId)
  | forceCloseWithDelay (id : ConnId)
  | startRead (id : ConnId) (inLoopThread : Bool)
  | stopRead (id : ConnId) (inLoopThread : Bool)

/-- The poller dispatches an event to the connection in a loop that is not busy. It
dispatches none to a channel without interest. -/
def dispatches (s : TcpServer) (id : ConnId) : Prop :=
  ∃ o ∈ s.objects id, s.closing o.loop = none ∧ o.conn.channel.isNoneEvent = false

/-- The user has seen the connection UP and has not seen it down. -/
def seenUp (s : TcpServer) (id : ConnId) : Prop :=
  ∃ o ∈ s.objects id, .connection true ∈ o.conn.callbacks ∧ o.conn.state ≠ .kDisconnected

/-- What the kernel answers to the write of a task. -/
def answers (w : WriteResult) : Task → Prop
  | .functor _ (.sendInLoop _ _ len) => w.Within 0 len
  | _ => True

def enabled (s : TcpServer) : Step → Prop
  | .newConnection => s.closing 0 = none ∧ s.nextConnId ≤ INT_MAX
  | .runFunctor loop w => s.closing loop = none ∧ ∃ t ∈ (s.pending loop).head?, answers w t
  | .closeCallback loop => s.closing loop ≠ none
  | .handleRead id _ | .handleClose id => s.dispatches id
  | .handleWrite id w => s.dispatches id ∧ ∀ o ∈ s.objects id, o.conn.channel.isWriting = true →
      ∃ n, w = .accepted n ∧ 1 ≤ n ∧ n ≤ o.conn.outputBuffer.readableBytes
  | .send id _ _ _ len w => s.objects id ≠ none ∧ w.Within 0 len
  | .shutdown id _ | .forceClose id | .forceCloseWithDelay id => s.objects id ≠ none
  | .startRead id _ | .stopRead id _ => s.seenUp id

def step (s : TcpServer) : Step → Except Fault TcpServer
  | .newConnection => s.newConnection
  | .runFunctor loop w => s.runFunctor loop w
  | .closeCallback loop => s.closeCallback loop
  | .handleRead id r => s.call id [] (·.handleRead r)
  | .handleWrite id w => s.call id [] (·.handleWrite w)
  | .handleClose id => s.call id [] (·.handleClose)
  | .send id inLoopThread m data len w => s.call id [] (·.send inLoopThread m data len w)
  | .shutdown id inLoopThread => s.call id [] fun c => return c.shutdown inLoopThread
  | .forceClose id => s.call id [] fun c => return c.forceClose
  | .forceCloseWithDelay id => s.call id [] fun c => return c.forceCloseWithDelay
  | .startRead id inLoopThread => s.call id [] fun c => return c.startRead inLoopThread
  | .stopRead id inLoopThread => s.call id [] fun c => return c.stopRead inLoopThread

def machine : Machine TcpServer Step := ⟨enabled, step⟩

instance (s : TcpServer) (id : ConnId) : Decidable (s.dispatches id) := inferInstanceAs
  (Decidable (∃ o ∈ s.objects id, s.closing o.loop = none ∧ o.conn.channel.isNoneEvent = false))

instance (s : TcpServer) (id : ConnId) : Decidable (s.seenUp id) := inferInstanceAs (Decidable
  (∃ o ∈ s.objects id, .connection true ∈ o.conn.callbacks ∧ o.conn.state ≠ .kDisconnected))

instance answersDecidable (w : WriteResult) : (t : Task) → Decidable (answers w t)
  | .functor _ (.sendInLoop _ _ len) => inferInstanceAs (Decidable (w.Within 0 len))
  | .functor _ .writeCompleteCallback | .functor _ (.highWaterMarkCallback _)
  | .functor _ .shutdownInLoop | .functor _ .forceCloseInLoop | .functor _ .startReadInLoop
  | .functor _ .stopReadInLoop | .functor _ .connectEstablished | .functor _ .connectDestroyed
  | .removeConnectionInLoop _ => inferInstanceAs (Decidable True)

instance enabledDecidable (s : TcpServer) : (a : Step) → Decidable (machine.enabled s a)
  | .newConnection =>
      inferInstanceAs (Decidable (s.closing 0 = none ∧ s.nextConnId ≤ INT_MAX))
  | .runFunctor loop w => inferInstanceAs
      (Decidable (s.closing loop = none ∧ ∃ t ∈ (s.pending loop).head?, answers w t))
  | .closeCallback loop => inferInstanceAs (Decidable (s.closing loop ≠ none))
  | .handleRead id _ | .handleClose id => inferInstanceAs (Decidable (s.dispatches id))
  | .handleWrite id w => inferInstanceAs (Decidable (s.dispatches id ∧ ∀ o ∈ s.objects id,
      o.conn.channel.isWriting = true →
        ∃ n, w = .accepted n ∧ 1 ≤ n ∧ n ≤ o.conn.outputBuffer.readableBytes))
  | .send id _ _ _ len w => inferInstanceAs (Decidable (s.objects id ≠ none ∧ w.Within 0 len))
  | .shutdown id _ | .forceClose id | .forceCloseWithDelay id =>
      inferInstanceAs (Decidable (s.objects id ≠ none))
  | .startRead id _ | .stopRead id _ => inferInstanceAs (Decidable (s.seenUp id))

end TcpServer
end Muduo.Net
