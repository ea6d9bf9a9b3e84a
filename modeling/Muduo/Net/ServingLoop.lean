import Mathlib.Logic.Function.Basic
import Muduo.Net.Connector
import Muduo.Net.Operation

/-! One `EventLoop` with all that it serves: connections of servers and clients, acceptors,
connectors and timers. Its thread dispatches one event or runs one functor at a time;
callbacks of the user and other threads come in between. -/
namespace Muduo.Net
open Muduo.Support

/-- A `Channel` of the loop. Each socket of a connector has a channel of its own. -/
inductive LoopChannel where
  | wakeup | timerfd
  | acceptor (server : Nat)
  | connection (id : Nat)
  | connector (k fd : Nat)
  deriving DecidableEq, Repr

def LoopChannel.isConnector : LoopChannel → Bool
  | .connector _ _ => true
  | .wakeup | .timerfd | .acceptor _ | .connection _ => false

/-- Who has set `closeCallback_`: a server, with this or another loop as its base loop, or
the client of the connector `k`. -/
inductive ConnectionOwner where
  | server (baseLoop : Bool)
  | client (k : Nat)
  deriving DecidableEq, Repr

structure ServedConnection where
  conn : TcpConnection
  owner : ConnectionOwner
  /-- The server still has it in `connections_`. -/
  held : Bool

/-- A `TcpClient`, without its connector. -/
structure ServedClient where
  retry : Bool
  connect_ : Bool
  connection : Option Nat

/-- An entry of `pendingFunctors_`; `timer` is `addTimerInLoop` or `cancelInLoop`. -/
inductive LoopTask where
  | connection (id : Nat) (f : Functor)
  | connector (k : Nat) (f : ClientFunctor)
  | timer

/-- A call of `EventLoop::removeChannel`, with what its assertion reads. -/
structure Removal where
  channel : LoopChannel
  eventHandling : Bool
  currentActiveChannel : Option LoopChannel
  activeChannels : List LoopChannel
  deriving DecidableEq, Repr

/-- The assertion in `EventLoop::removeChannel`. -/
def Removal.Asserted (r : Removal) : Prop :=
  r.eventHandling = true →
    r.currentActiveChannel = some r.channel ∨ r.channel ∉ r.activeChannels

structure ServingLoop where
  activeChannels : List LoopChannel
  /-- The entries of `activeChannels_` that are still to be dispatched. -/
  upcoming : List LoopChannel
  currentActiveChannel : Option LoopChannel
  eventHandling : Bool
  callingPendingFunctors : Bool
  pendingFunctors : List LoopTask
  /-- The local `functors` of `doPendingFunctors`, without those already called. -/
  functors : List LoopTask
  connections : Nat → Option ServedConnection
  connectors : Nat → Option Connector
  /-- A client goes by the number of its connector. -/
  clients : Nat → Option ServedClient
  /-- The connection whose `handleClose` the loop is in, ahead of `closeCallback_`. -/
  closing : Option Nat
  /-- The connections that other base loops have been asked to remove. -/
  asked : List Nat
  removals : List Removal

namespace ServingLoop

def new : ServingLoop where
  activeChannels := []
  upcoming := []
  currentActiveChannel := none
  eventHandling := false
  callingPendingFunctors := false
  pendingFunctors := []
  functors := []
  connections := fun _ => none
  connectors := fun _ => none
  clients := fun _ => none
  closing := none
  asked := []
  removals := []

/-- The poller has the channel. Those of the loop, its timers and its acceptors are removed
in destructors only. -/
def Registered (s : ServingLoop) : LoopChannel → Prop
  | .wakeup | .timerfd | .acceptor _ => True
  | .connection id => ∃ o ∈ s.connections id, o.conn.channel.addedToLoop = true
  | .connector k fd => ∃ c ∈ s.connectors k, ∃ ch ∈ c.channel,
      ch.fd = fd ∧ ch.channel.addedToLoop = true

def queueInLoop (s : ServingLoop) (t : LoopTask) : ServingLoop :=
  { s with pendingFunctors := s.pendingFunctors ++ [t] }

/-- `EventLoop::removeChannel`. A run goes on whether or not the assertion holds. -/
def removeChannel (s : ServingLoop) (ch : LoopChannel) : ServingLoop :=
  { s with removals := s.removals ++
      [⟨ch, s.eventHandling, s.currentActiveChannel, s.activeChannels⟩] }

def deref (s : ServingLoop) (id : Nat) : Except Fault ServedConnection :=
  match s.connections id with
  | some o => .ok o
  | none => .error .memory

def derefConnector (s : ServingLoop) (k : Nat) : Except Fault Connector :=
  match s.connectors k with
  | some c => .ok c
  | none => .error .memory

def derefClient (s : ServingLoop) (k : Nat) : Except Fault ServedClient :=
  match s.clients k with
  | some t => .ok t
  | none => .error .memory

/-- The connection after a call: its functors go to the loop, which stands in front of
`closeCallback_` when `handleClose` has come that far. -/
def store (s : ServingLoop) (id : Nat) (o : ServedConnection) (c : TcpConnection) : ServingLoop :=
  let closed := o.conn.callbacks.count .close < c.callbacks.count .close
  { s with
    connections := Function.update s.connections id (some { o with conn := { c with queued := [] } })
    pendingFunctors := s.pendingFunctors ++ c.queued.map (.connection id)
    closing := if closed then some id else s.closing }

def call (s : ServingLoop) (id : Nat) (op : Operation) : Except Fault ServingLoop := do
  let o ← s.deref id
  let c ← op.apply o.conn
  return (if op.removesChannel then s.removeChannel (.connection id) else s).store id o c

/-- The socket whose channel a call has removed: `removeAndResetChannel` leaves `channel_`
for the `resetChannel` that it queues. -/
def removed (c c' : Connector) : Option Nat :=
  if c.pendingFunctors.count .resetChannel < c'.pendingFunctors.count .resetChannel then
    c'.channel.map SocketChannel.fd
  else none

/-- The connector after a call, with its removals and its functors. -/
def storeConnector (s : ServingLoop) (k : Nat) (c c' : Connector) : ServingLoop :=
  let s := match removed c c' with
    | some fd => s.removeChannel (.connector k fd)
    | none => s
  { s with
    connectors := Function.update s.connectors k (some { c' with pendingFunctors := [] })
    pendingFunctors := s.pendingFunctors ++ c'.pendingFunctors.map (.connector k) }

/-- A connection is made and established at once. -/
def establish (s : ServingLoop) (id : Nat) (o : ServedConnection) : Except Fault ServingLoop :=
  { s with connections := Function.update s.connections id (some o) }.call id
    (.runFunctor .connectEstablished (.accepted 0))

/-- `TcpServer::newConnection` in the base loop of the server, for a connection of this loop. -/
def newConnection (s : ServingLoop) (id : Nat) (writeCompleteCallback : Bool) :
    Except Fault ServingLoop :=
  s.establish id ⟨.new writeCompleteCallback, .server true, true⟩

/-- `TcpServer::newConnection` in another base loop. -/
def assignConnection (s : ServingLoop) (id : Nat) (writeCompleteCallback : Bool) : ServingLoop :=
  let o : ServedConnection := ⟨.new writeCompleteCallback, .server false, true⟩
  { s with connections := Function.update s.connections id (some o) }.queueInLoop
    (.connection id .connectEstablished)

/-- `TcpServer::removeConnectionInLoop`; a loop never runs `connectDestroyed` at once. -/
def removeConnectionInLoop (s : ServingLoop) (id : Nat) : Except Fault ServingLoop := do
  let o ← s.deref id
  assert (o.held = true)
  let s := { s with
    connections := Function.update s.connections id (some { o with held := false }) }
  return s.queueInLoop (.connection id .connectDestroyed)

/-- `TcpClient::newConnection`, for the socket that the connector has handed over. -/
def newClientConnection (s : ServingLoop) (k : Nat) (t : ServedClient) (id : Nat) :
    Except Fault ServingLoop :=
  { s with clients := Function.update s.clients k (some { t with connection := some id }) }.establish
    id ⟨.new, .client k, false⟩

/-- `TcpClient::removeConnection` -/
def removeConnection (s : ServingLoop) (k id : Nat) (savedErrno : ConnectErrno) :
    Except Fault ServingLoop := do
  let t ← s.derefClient k
  assert (t.connection = some id)
  let s := { s with
    clients := Function.update s.clients k (some { t with connection := none }) }.queueInLoop
      (.connection id .connectDestroyed)
  if t.retry && t.connect_ then
    let c ← s.derefConnector k
    let c' ← c.restart savedErrno
    return s.storeConnector k c c'
  else return s

/-- The rest of a `handleClose` from its `closeCallback_(guardThis)` on. -/
def closeCallback (s : ServingLoop) (savedErrno : ConnectErrno) : Except Fault ServingLoop :=
  match s.closing with
  | none => return s
  | some id => do
      let o ← s.deref id
      let s := { s with closing := none }
      match o.owner with
      | .server true => s.removeConnectionInLoop id
      | .server false => return { s with asked := s.asked ++ [id] }
      | .client k => s.removeConnection k id savedErrno

/-- `poll` has returned. -/
def poll (s : ServingLoop) (activeChannels : List LoopChannel) : ServingLoop :=
  { s with activeChannels, upcoming := activeChannels, eventHandling := true }

/-- The loop goes on to the next active channel. -/
def dispatch (s : ServingLoop) : ServingLoop :=
  { s with currentActiveChannel := s.upcoming.head?, upcoming := s.upcoming.tail }

/-- The next active channel is that of a connector, and `id` numbers the connection its
client may get. -/
def handleConnector (s : ServingLoop) (error writable : Bool) (err : Nat) (isSelfConnect : Bool)
    (id : Nat) : Except Fault ServingLoop :=
  match s.dispatch.currentActiveChannel with
  | some (.connector k _) => do
      let c ← s.derefConnector k
      let (c', sockfd) ← c.handleEvent error writable err isSelfConnect
      let s := s.dispatch.storeConnector k c c'
      match sockfd, s.clients k with
      | some _, some t => s.newClientConnection k t id
      | some _, none | none, _ => return s
  | some .wakeup | some .timerfd | some (.acceptor _) | some (.connection _) | none => return s

/-- A retry timer of the connector. -/
def retryTimer (s : ServingLoop) (k delay : Nat) (savedErrno : ConnectErrno) :
    Except Fault ServingLoop := do
  let c ← s.derefConnector k
  let c' ← { c with timers := c.timers.erase delay }.startInLoop savedErrno
  return s.storeConnector k c c'

/-- A timer of `forceCloseWithDelay`. -/
def delayTimer (s : ServingLoop) (id : Nat) : Except Fault ServingLoop := do
  let o ← s.deref id
  return s.store id o { o.conn with delayed := o.conn.delayed - 1 }.forceClose

/-- All events are dispatched, and `doPendingFunctors` swaps the functors out. -/
def doPendingFunctors (s : ServingLoop) : ServingLoop :=
  { s with
    currentActiveChannel := none
    eventHandling := false
    callingPendingFunctors := true
    functors := s.pendingFunctors
    pendingFunctors := [] }

def runConnector (s : ServingLoop) (k : Nat) (savedErrno : ConnectErrno) (f : ClientFunctor) :
    Except Fault ServingLoop := do
  let c ← s.derefConnector k
  match f with
  | .startInLoop => do return s.storeConnector k c (← c.startInLoop savedErrno)
  | .stopInLoop => do return s.storeConnector k c (← c.stopInLoop)
  | .resetChannel => do return s.storeConnector k c (← c.resetChannel)
  -- the connector queues none of these
  | .forceCloseInLoop _ | .connectDestroyed _ => return s

def runTask (s : ServingLoop) (savedErrno : ConnectErrno) (w : WriteResult) :
    LoopTask → Except Fault ServingLoop
  | .connection id f => s.call id (.runFunctor f w)
  | .connector k f => s.runConnector k savedErrno f
  | .timer => return s

/-- The next functor of `doPendingFunctors`. -/
def callFunctor (s : ServingLoop) (savedErrno : ConnectErrno) (w : WriteResult) :
    Except Fault ServingLoop :=
  match s.functors with
  | [] => return s
  | t :: ts => { s with functors := ts }.runTask savedErrno w t

/-- `Connector::start`, or `TcpClient::connect` where a client owns the connector. -/
def start (s : ServingLoop) (k : Nat) (inLoopThread : Bool) (savedErrno : ConnectErrno) :
    Except Fault ServingLoop := do
  let c ← s.derefConnector k
  let c' ← c.start inLoopThread savedErrno
  let clients := Function.update s.clients k ((s.clients k).map fun t => { t with connect_ := true })
  return { s.storeConnector k c c' with clients }

/-- `Connector::stop` or `TcpClient::stop` -/
def stop (s : ServingLoop) (k : Nat) : Except Fault ServingLoop := do
  let c ← s.derefConnector k
  let clients := Function.update s.clients k ((s.clients k).map fun t => { t with connect_ := false })
  return { s.storeConnector k c c.stop with clients }

/-- `TcpClient::disconnect` -/
def disconnect (s : ServingLoop) (k : Nat) (inLoopThread : Bool) : Except Fault ServingLoop := do
  let t ← s.derefClient k
  let s := { s with clients := Function.update s.clients k (some { t with connect_ := false }) }
  match t.connection with
  | none => return s
  | some id => s.call id (.shutdown inLoopThread)

/-- `TcpClient::enableRetry` -/
def enableRetry (s : ServingLoop) (k : Nat) : Except Fault ServingLoop := do
  let t ← s.derefClient k
  return { s with clients := Function.update s.clients k (some { t with retry := true }) }

/-- A connector is made, of a client or on its own. -/
def newConnector (s : ServingLoop) (k : Nat) (client : Bool) : ServingLoop :=
  { s with
    connectors := Function.update s.connectors k (some .new)
    clients := Function.update s.clients k (if client then some ⟨false, true, none⟩ else none) }

end ServingLoop

/-- The operations that a channel's events call. -/
def Operation.byPoller : Operation → Bool
  | .handleRead _ | .handleWrite _ | .handleClose => true
  | .send .. | .shutdown _ | .forceClose | .forceCloseWithDelay | .startRead _ | .stopRead _
  | .runFunctor _ _ => false

/-- The operations that the user calls. -/
def Operation.byUser : Operation → Bool
  | .send .. | .shutdown _ | .forceClose | .forceCloseWithDelay | .startRead _ | .stopRead _ => true
  | .handleRead _ | .handleWrite _ | .handleClose | .runFunctor _ _ => false

namespace ServingLoop

/-- What a thread does next. `savedErrno` and `w` answer a `connect` and a `write`. -/
inductive Step where
  | poll (activeChannels : List LoopChannel)
  /-- The next active channel is none of a connector; its events follow. -/
  | dispatch
  | handleConnection (id : Nat) (op : Operation)
  | handleConnector (error writable : Bool) (err : Nat) (isSelfConnect : Bool) (id : Nat)
  /-- The acceptor of a server whose base loop this is. -/
  | newConnection (server id : Nat) (writeCompleteCallback : Bool)
  | retryTimer (k delay : Nat) (savedErrno : ConnectErrno)
  | delayTimer (id : Nat)
  | closeCallback (savedErrno : ConnectErrno)
  | doPendingFunctors
  | callFunctor (savedErrno : ConnectErrno) (w : WriteResult)
  /-- `doPendingFunctors` returns. -/
  | calledFunctors
  /-- The user calls a connection, in a callback or from another thread. -/
  | call (id : Nat) (op : Operation)
  | start (k : Nat) (inLoopThread : Bool) (savedErrno : ConnectErrno)
  | stop (k : Nat)
  | disconnect (k : Nat) (inLoopThread : Bool)
  | enableRetry (k : Nat)
  /-- `runAfter` or `cancel`, from another thread if it is queued. -/
  | timer (inLoopThread : Bool)
  | newConnector (k : Nat) (client : Bool)
  /-- Another base loop makes a connection for this loop, or removes one. -/
  | assignConnection (id : Nat) (writeCompleteCallback : Bool)
  | removeConnectionInLoop (id : Nat)

/-- The loop is in front of the next event or of the next active channel. -/
def handling (s : ServingLoop) : Prop := s.eventHandling = true ∧ s.closing = none

/-- The loop is in front of the next functor. -/
def calling (s : ServingLoop) : Prop := s.callingPendingFunctors = true ∧ s.closing = none

/-- The poller reports channels that it has, each of them once. -/
def enabled (s : ServingLoop) : Step → Prop
  | .poll activeChannels => s.eventHandling = false ∧ s.callingPendingFunctors = false ∧
      activeChannels.Nodup ∧ ∀ ch ∈ activeChannels, s.Registered ch
  | .dispatch => s.handling ∧ ∃ ch ∈ s.upcoming.head?, ch.isConnector = false
  | .handleConnection id op => s.handling ∧ s.currentActiveChannel = some (.connection id) ∧
      op.byPoller = true
  | .handleConnector _ _ _ _ id => s.handling ∧ s.connections id = none ∧
      ∃ ch ∈ s.upcoming.head?, ch.isConnector = true
  | .newConnection server id _ => s.handling ∧ s.connections id = none ∧
      s.currentActiveChannel = some (.acceptor server)
  | .retryTimer k delay _ => s.handling ∧ s.currentActiveChannel = some .timerfd ∧
      ∃ c ∈ s.connectors k, delay ∈ c.timers
  | .delayTimer id => s.handling ∧ s.currentActiveChannel = some .timerfd ∧
      ∃ o ∈ s.connections id, 0 < o.conn.delayed
  | .closeCallback _ => s.closing ≠ none
  | .doPendingFunctors => s.handling ∧ s.upcoming = []
  | .callFunctor _ _ => s.calling ∧ s.functors ≠ []
  | .calledFunctors => s.calling ∧ s.functors = []
  | .call id op => s.connections id ≠ none ∧ op.byUser = true
  | .start k _ _ | .stop k => s.connectors k ≠ none
  | .disconnect k _ | .enableRetry k => s.clients k ≠ none
  | .timer _ => True
  | .newConnector k _ => s.connectors k = none
  | .assignConnection id _ => s.connections id = none
  | .removeConnectionInLoop id => id ∈ s.asked

def step (s : ServingLoop) : Step → Except Fault ServingLoop
  | .poll activeChannels => return s.poll activeChannels
  | .dispatch => return s.dispatch
  | .handleConnection id op => s.call id op
  | .handleConnector error writable err isSelfConnect id =>
      s.handleConnector error writable err isSelfConnect id
  | .newConnection _ id writeCompleteCallback => s.newConnection id writeCompleteCallback
  | .retryTimer k delay savedErrno => s.retryTimer k delay savedErrno
  | .delayTimer id => s.delayTimer id
  | .closeCallback savedErrno => s.closeCallback savedErrno
  | .doPendingFunctors => return s.doPendingFunctors
  | .callFunctor savedErrno w => s.callFunctor savedErrno w
  | .calledFunctors => return { s with callingPendingFunctors := false }
  | .call id op => s.call id op
  | .start k inLoopThread savedErrno => s.start k inLoopThread savedErrno
  | .stop k => s.stop k
  | .disconnect k inLoopThread => s.disconnect k inLoopThread
  | .enableRetry k => s.enableRetry k
  | .timer inLoopThread => return if inLoopThread then s else s.queueInLoop .timer
  | .newConnector k client => return s.newConnector k client
  | .assignConnection id writeCompleteCallback => return s.assignConnection id writeCompleteCallback
  | .removeConnectionInLoop id => { s with asked := s.asked.erase id }.removeConnectionInLoop id

def machine : Machine ServingLoop Step := ⟨enabled, step⟩

instance registeredDecidable (s : ServingLoop) : (ch : LoopChannel) → Decidable (s.Registered ch)
  | .wakeup | .timerfd | .acceptor _ => isTrue trivial
  | .connection id =>
      inferInstanceAs (Decidable (∃ o ∈ s.connections id, o.conn.channel.addedToLoop = true))
  | .connector k fd => inferInstanceAs (Decidable (∃ c ∈ s.connectors k, ∃ ch ∈ c.channel,
      ch.fd = fd ∧ ch.channel.addedToLoop = true))

instance (s : ServingLoop) : Decidable s.handling := inferInstanceAs (Decidable (_ ∧ _))
instance (s : ServingLoop) : Decidable s.calling := inferInstanceAs (Decidable (_ ∧ _))

instance enabledDecidable (s : ServingLoop) : (a : Step) → Decidable (machine.enabled s a)
  | .poll activeChannels => inferInstanceAs (Decidable (s.eventHandling = false ∧
      s.callingPendingFunctors = false ∧ activeChannels.Nodup ∧
        ∀ ch ∈ activeChannels, s.Registered ch))
  | .dispatch =>
      inferInstanceAs (Decidable (s.handling ∧ ∃ ch ∈ s.upcoming.head?, ch.isConnector = false))
  | .handleConnection id op => inferInstanceAs (Decidable (s.handling ∧
      s.currentActiveChannel = some (.connection id) ∧ op.byPoller = true))
  | .handleConnector _ _ _ _ id => inferInstanceAs (Decidable (s.handling ∧
      s.connections id = none ∧ ∃ ch ∈ s.upcoming.head?, ch.isConnector = true))
  | .newConnection server id _ => inferInstanceAs (Decidable (s.handling ∧
      s.connections id = none ∧ s.currentActiveChannel = some (.acceptor server)))
  | .retryTimer k delay _ => inferInstanceAs (Decidable (s.handling ∧
      s.currentActiveChannel = some .timerfd ∧ ∃ c ∈ s.connectors k, delay ∈ c.timers))
  | .delayTimer id => inferInstanceAs (Decidable (s.handling ∧
      s.currentActiveChannel = some .timerfd ∧ ∃ o ∈ s.connections id, 0 < o.conn.delayed))
  | .closeCallback _ => inferInstanceAs (Decidable (s.closing ≠ none))
  | .doPendingFunctors => inferInstanceAs (Decidable (s.handling ∧ s.upcoming = []))
  | .callFunctor _ _ => inferInstanceAs (Decidable (s.calling ∧ s.functors ≠ []))
  | .calledFunctors => inferInstanceAs (Decidable (s.calling ∧ s.functors = []))
  | .call id op => inferInstanceAs (Decidable (s.connections id ≠ none ∧ op.byUser = true))
  | .start k _ _ | .stop k => inferInstanceAs (Decidable (s.connectors k ≠ none))
  | .disconnect k _ | .enableRetry k => inferInstanceAs (Decidable (s.clients k ≠ none))
  | .timer _ => isTrue trivial
  | .newConnector k _ => inferInstanceAs (Decidable (s.connectors k = none))
  | .assignConnection id _ => inferInstanceAs (Decidable (s.connections id = none))
  | .removeConnectionInLoop id => inferInstanceAs (Decidable (id ∈ s.asked))

end ServingLoop
end Muduo.Net
