import Mathlib.Logic.Function.Basic
import Muduo.Net.Connector
import Muduo.Net.Operation

/-! A `TcpClient` that its owner destroys, in the thread of its loop or in another one,
while the loop goes on with the connector and the connections. The loop runs one functor,
dispatches one event or runs user code at a time. -/
namespace Muduo.Net
open Muduo.Support

/-- What `closeCallback_` of a connection is bound to. -/
inductive CloseCallback where
  /-- `TcpClient::removeConnection` of the client -/
  | removeConnection
  /-- `detail::removeConnection`, which needs no client -/
  | detailRemoveConnection
  deriving DecidableEq, Repr

structure ClientConnection where
  conn : TcpConnection
  closeCallback : CloseCallback

/-- An entry of `pendingFunctors_`. -/
inductive ClientTask where
  | connector (f : ClientFunctor)
  | connection (id : Nat) (f : Functor)
  | setCloseCallback (id : Nat)

/-- Where the thread of `~TcpClient` stands: in front of the step that is named, with the
`conn` and `unique` it has read. -/
inductive Destructor where
  | notEntered
  | setCloseCallback (inLoopThread : Bool) (conn : Nat) (unique : Bool)
  | forceClose (inLoopThread : Bool) (conn : Nat) (unique : Bool)
  | stop (inLoopThread : Bool)
  | runAfter (inLoopThread : Bool)
  /-- The members are destroyed. -/
  | members (inLoopThread : Bool)
  | finished
  deriving DecidableEq, Repr

inductive ClientCall where
  | newConnection (sockfd : Nat)
  | removeConnection (conn : Nat)
  deriving DecidableEq, Repr

/-- A connection is named by its socket. -/
structure OwnedClient where
  connector : Connector
  /-- `~Connector` has run. -/
  connectorGone : Bool
  /-- The timer that holds the connector for `removeConnector`. -/
  removeConnector : Bool
  retry : Bool
  connect_ : Bool
  connection : Option Nat
  objects : Nat → Option ClientConnection
  queue : List ClientTask
  /-- The connection whose `handleClose` the loop is in, ahead of `closeCallback_`. -/
  closing : Option Nat
  destructor : Destructor
  /-- Calls of the client since `~TcpClient` has finished. -/
  lateCalls : List ClientCall

namespace OwnedClient

def new : OwnedClient where
  connector := .new
  connectorGone := false
  removeConnector := false
  retry := false
  connect_ := true
  connection := none
  objects := fun _ => none
  queue := []
  closing := none
  destructor := .notEntered
  lateCalls := []

/-- The functors the connector has queued go to the loop. -/
def withConnector (s : OwnedClient) (c : Connector) : OwnedClient :=
  { s with
    connector := { c with pendingFunctors := [] }
    queue := s.queue ++ c.pendingFunctors.map .connector }

def deref (s : OwnedClient) (id : Nat) : Except Fault ClientConnection :=
  match s.objects id with
  | some o => .ok o
  | none => .error .memory

/-- The connection after a call: its functors go to the loop, which stands in front of
`closeCallback_` when `handleClose` has come that far. -/
def store (s : OwnedClient) (id : Nat) (o : ClientConnection) (c : TcpConnection) : OwnedClient :=
  let closed := o.conn.callbacks.count .close < c.callbacks.count .close
  { s with
    objects := Function.update s.objects id (some { o with conn := { c with queued := [] } })
    queue := s.queue ++ c.queued.map (.connection id)
    closing := if closed then some id else s.closing }

def call (s : OwnedClient) (id : Nat) (op : Operation) : Except Fault OwnedClient := do
  let o ← s.deref id
  let c ← op.apply o.conn
  return s.store id o c

def note (s : OwnedClient) (c : ClientCall) : OwnedClient :=
  { s with lateCalls := s.lateCalls ++ [c] }

/-- `newConnection(sockfd)`; of a call after `~TcpClient` only the entry is recorded. -/
def newConnection (s : OwnedClient) (sockfd : Nat) : Except Fault OwnedClient :=
  if s.destructor = .finished then return s.note (.newConnection sockfd)
  else
    let conn : ClientConnection := ⟨.new, .removeConnection⟩
    let s := { s with
      objects := Function.update s.objects sockfd (some conn)
      connection := some sockfd }
    s.call sockfd (.runFunctor .connectEstablished (.accepted 0))

/-- `removeConnection`; of a call after `~TcpClient` only the entry is recorded. -/
def removeConnection (s : OwnedClient) (id : Nat) (savedErrno : ConnectErrno) :
    Except Fault OwnedClient :=
  if s.destructor = .finished then return s.note (.removeConnection id)
  else do
    assert (s.connection = some id)
    let s := { s with
      connection := none
      queue := s.queue ++ [.connection id .connectDestroyed] }
    if s.retry && s.connect_ then
      let c ← s.connector.restart savedErrno
      return s.withConnector c
    else return s

/-- The rest of a `handleClose` from its `closeCallback_(guardThis)` on. -/
def closeCallback (s : OwnedClient) (savedErrno : ConnectErrno) : Except Fault OwnedClient :=
  match s.closing with
  | none => return s
  | some id => do
      let o ← s.deref id
      let s := { s with closing := none }
      match o.closeCallback with
      | .removeConnection => s.removeConnection id savedErrno
      | .detailRemoveConnection =>
          return { s with queue := s.queue ++ [.connection id .connectDestroyed] }

def setCloseCallback (s : OwnedClient) (id : Nat) : Except Fault OwnedClient := do
  let o ← s.deref id
  return { s with
    objects := Function.update s.objects id
      (some { o with closeCallback := .detailRemoveConnection }) }

/-- A functor of the connector, which is bound to its address. -/
def runConnector (s : OwnedClient) (savedErrno : ConnectErrno) (f : ClientFunctor) :
    Except Fault OwnedClient :=
  if s.connectorGone then .error .memory
  else match f with
    | .startInLoop => do return s.withConnector (← s.connector.startInLoop savedErrno)
    | .stopInLoop => do return s.withConnector (← s.connector.stopInLoop)
    | .resetChannel => do return s.withConnector (← s.connector.resetChannel)
    -- the connector queues none of these
    | .forceCloseInLoop _ | .connectDestroyed _ => return s

def runTask (s : OwnedClient) (savedErrno : ConnectErrno) (w : WriteResult) :
    ClientTask → Except Fault OwnedClient
  | .connector f => s.runConnector savedErrno f
  | .connection id f => s.call id (.runFunctor f w)
  | .setCloseCallback id => s.setCloseCallback id

/-- The next functor of `doPendingFunctors`. -/
def runFunctor (s : OwnedClient) (savedErrno : ConnectErrno) (w : WriteResult) :
    Except Fault OwnedClient :=
  match s.queue with
  | [] => return s
  | t :: ts => { s with queue := ts }.runTask savedErrno w t

/-- `~Connector`, once neither the client nor a timer holds the connector. -/
def releaseConnector (s : OwnedClient) : Except Fault OwnedClient :=
  if s.destructor = .finished ∧ s.connector.timers = [] ∧ s.removeConnector = false ∧
      s.connectorGone = false then do
    assert (s.connector.channel = none)
    return { s with connectorGone := true }
  else return s

/-- A retry timer holds the connector until `startInLoop` has returned. -/
def timerFires (s : OwnedClient) (delay : Nat) (savedErrno : ConnectErrno) :
    Except Fault OwnedClient := do
  let c ← { s.connector with timers := s.connector.timers.erase delay }.startInLoop savedErrno
  (s.withConnector c).releaseConnector

/-- The lock section of `~TcpClient`; `unique` is whether nobody else holds `connection_`. -/
def enterDestructor (s : OwnedClient) (inLoopThread unique : Bool) : OwnedClient :=
  match s.connection with
  | some conn => { s with destructor := .setCloseCallback inLoopThread conn unique }
  | none => { s with destructor := .stop inLoopThread }

/-- The next step of `~TcpClient`. -/
def advance (s : OwnedClient) : Except Fault OwnedClient :=
  match s.destructor with
  | .notEntered | .finished => return s
  | .setCloseCallback inLoopThread conn unique => do
      let s := { s with destructor := .forceClose inLoopThread conn unique }
      if inLoopThread then s.setCloseCallback conn
      else return { s with queue := s.queue ++ [.setCloseCallback conn] }
  | .forceClose inLoopThread conn unique =>
      let s := { s with destructor := .members inLoopThread }
      if unique then s.call conn .forceClose else return s
  | .stop inLoopThread =>
      return { s.withConnector s.connector.stop with destructor := .runAfter inLoopThread }
  | .runAfter inLoopThread =>
      return { s with removeConnector := true, destructor := .members inLoopThread }
  | .members _ => { s with destructor := .finished }.releaseConnector

/-- What a thread does next. `savedErrno` and `w` answer a `connect` and a `write`. A handler of
the loop thread is one step: another thread comes before it or after it, never in between. -/
inductive Step where
  | enableRetry
  | connect (inLoopThread : Bool) (savedErrno : ConnectErrno)
  | disconnect (inLoopThread : Bool)
  | stop
  /-- The user or the poller calls a connection. -/
  | call (id : Nat) (op : Operation)
  | closeCallback (savedErrno : ConnectErrno)
  | runFunctor (savedErrno : ConnectErrno) (w : WriteResult)
  /-- The poller dispatches the connecting socket. -/
  | handleEvent (error writable : Bool) (err : Nat) (isSelfConnect : Bool)
  | timerFires (delay : Nat) (savedErrno : ConnectErrno)
  | removeConnectorFires
  | enterDestructor (inLoopThread unique : Bool)
  | advance

/-- The destructor runs in the thread of the loop, which does nothing else until it is over. -/
def holdsLoop (s : OwnedClient) : Bool :=
  match s.destructor with
  | .notEntered | .finished => false
  | .setCloseCallback inLoopThread _ _ | .forceClose inLoopThread _ _ | .stop inLoopThread
  | .runAfter inLoopThread | .members inLoopThread => inLoopThread

def loopFree (s : OwnedClient) : Prop := s.closing = none ∧ s.holdsLoop = false

/-- The poller dispatches no event to a channel without interest; the functors of a
connection run from the queue. -/
def allows (s : OwnedClient) (id : Nat) : Operation → Prop
  | .handleRead _ | .handleWrite _ | .handleClose =>
      s.loopFree ∧ ∃ o ∈ s.objects id, o.conn.channel.isNoneEvent = false
  | .send .. | .shutdown _ | .forceClose | .forceCloseWithDelay | .startRead _ | .stopRead _ =>
      s.objects id ≠ none
  | .runFunctor _ _ => False

/-- Nobody uses a client whose destructor has been entered. -/
def enabled (s : OwnedClient) : Step → Prop
  | .enableRetry | .connect _ _ | .disconnect _ | .stop | .enterDestructor _ _ =>
      s.destructor = .notEntered
  | .call id op => s.allows id op
  | .closeCallback _ => s.closing ≠ none ∧ s.holdsLoop = false
  | .runFunctor _ _ => s.loopFree ∧ s.queue ≠ []
  | .handleEvent _ _ _ _ => s.loopFree ∧ s.connector.connectingOn ≠ none
  | .timerFires delay _ => s.loopFree ∧ delay ∈ s.connector.timers
  | .removeConnectorFires => s.loopFree ∧ s.removeConnector = true
  | .advance => s.destructor ≠ .notEntered ∧ s.destructor ≠ .finished

def step (s : OwnedClient) : Step → Except Fault OwnedClient
  | .enableRetry => return { s with retry := true }
  | .connect inLoopThread savedErrno => do
      let c ← s.connector.start inLoopThread savedErrno
      return { s.withConnector c with connect_ := true }
  | .disconnect inLoopThread =>
      let s := { s with connect_ := false }
      match s.connection with
      | none => return s
      | some conn => s.call conn (.shutdown inLoopThread)
  | .stop => return { s.withConnector s.connector.stop with connect_ := false }
  | .call id op => s.call id op
  | .closeCallback savedErrno => s.closeCallback savedErrno
  | .runFunctor savedErrno w => s.runFunctor savedErrno w
  | .handleEvent error writable err isSelfConnect => do
      let (c, sockfd) ← s.connector.handleEvent error writable err isSelfConnect
      match sockfd with
      | none => return s.withConnector c
      | some sockfd => (s.withConnector c).newConnection sockfd
  | .timerFires delay savedErrno => s.timerFires delay savedErrno
  | .removeConnectorFires => { s with removeConnector := false }.releaseConnector
  | .enterDestructor inLoopThread unique => return s.enterDestructor inLoopThread unique
  | .advance => s.advance

def machine : Machine OwnedClient Step := ⟨enabled, step⟩

instance (s : OwnedClient) : Decidable s.loopFree := inferInstanceAs (Decidable (_ ∧ _))

instance allowsDecidable (s : OwnedClient) (id : Nat) : (op : Operation) → Decidable (s.allows id op)
  | .handleRead _ | .handleWrite _ | .handleClose => inferInstanceAs (Decidable (s.loopFree ∧
      ∃ o ∈ s.objects id, o.conn.channel.isNoneEvent = false))
  | .send .. | .shutdown _ | .forceClose | .forceCloseWithDelay | .startRead _ | .stopRead _ =>
      inferInstanceAs (Decidable (s.objects id ≠ none))
  | .runFunctor _ _ => isFalse False.elim

instance enabledDecidable (s : OwnedClient) : (a : Step) → Decidable (machine.enabled s a)
  | .enableRetry | .connect _ _ | .disconnect _ | .stop | .enterDestructor _ _ =>
      inferInstanceAs (Decidable (s.destructor = .notEntered))
  | .call id op => inferInstanceAs (Decidable (s.allows id op))
  | .closeCallback _ => inferInstanceAs (Decidable (s.closing ≠ none ∧ s.holdsLoop = false))
  | .runFunctor _ _ => inferInstanceAs (Decidable (s.loopFree ∧ s.queue ≠ []))
  | .handleEvent _ _ _ _ =>
      inferInstanceAs (Decidable (s.loopFree ∧ s.connector.connectingOn ≠ none))
  | .timerFires delay _ => inferInstanceAs (Decidable (s.loopFree ∧ delay ∈ s.connector.timers))
  | .removeConnectorFires => inferInstanceAs (Decidable (s.loopFree ∧ s.removeConnector = true))
  | .advance => inferInstanceAs (Decidable (s.destructor ≠ .notEntered ∧ s.destructor ≠ .finished))

end OwnedClient
end Muduo.Net
