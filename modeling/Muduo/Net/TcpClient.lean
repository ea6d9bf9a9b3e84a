import Muduo.Net.Connector

/-! `muduo::net::TcpClient`, its connector and the loop that drives both: one iteration
dispatches the events that `poll` reported and then calls the functors that were pending. -/
namespace Muduo.Net
open Muduo.Support

structure TcpClient where
  connector : Connector
  retry : Bool
  connect_ : Bool
  /-- The socket of `connection_`. -/
  connection : Option Nat
  /-- The functors that were swapped out and not called yet. -/
  functors : List ClientFunctor
  /-- Between a poll and the swap. -/
  dispatching : Bool
  /-- The connecting socket and the connection among the active channels that are still to
  be dispatched. -/
  activeConnect : Option Nat
  activeConnection : Option Nat

namespace TcpClient

def new : TcpClient where
  connector := .new
  retry := false
  connect_ := true
  connection := none
  functors := []
  dispatching := false
  activeConnect := none
  activeConnection := none

def enableRetry (t : TcpClient) : TcpClient := { t with retry := true }

def connect (t : TcpClient) (inLoopThread : Bool) (savedErrno : ConnectErrno) :
    Except Fault TcpClient := do
  let connector ← t.connector.start inLoopThread savedErrno
  return { t with connect_ := true, connector }

/-- `disconnect()`; the `shutdown` of the connection does not concern the connector. -/
def disconnect (t : TcpClient) : TcpClient := { t with connect_ := false }

def stop (t : TcpClient) : TcpClient := { t with connect_ := false, connector := t.connector.stop }

/-- `newConnection(sockfd)`, for the descriptor that was handed over, if any. -/
def newConnection (t : TcpClient) : Option Nat → TcpClient
  | none => t
  | some sockfd => { t with connection := some sockfd }

/-- `removeConnection`, the close callback of `connection_`. -/
def removeConnection (t : TcpClient) (conn : Nat) (savedErrno : ConnectErrno) :
    Except Fault TcpClient := do
  assert (t.connection = some conn)
  let t := { t with connection := none
                    connector := t.connector.queueInLoop (.connectDestroyed conn) }
  if t.retry && t.connect_ then
    let connector ← t.connector.restart savedErrno
    return { t with connector }
  else
    return t

/-- The functors are called in order; those of a connection that is gone do nothing. -/
def callFunctor (t : TcpClient) (savedErrno : ConnectErrno) : ClientFunctor → Except Fault TcpClient
  | .startInLoop => do
      let connector ← t.connector.startInLoop savedErrno
      return { t with connector }
  | .stopInLoop => do
      let connector ← t.connector.stopInLoop
      return { t with connector }
  | .resetChannel => do
      let connector ← t.connector.resetChannel
      return { t with connector }
  | .forceCloseInLoop conn =>
      if t.connection = some conn then t.removeConnection conn savedErrno else return t
  | .connectDestroyed _ => return t

/-- What is registered when the poll returns may be among the active channels. -/
def poll (t : TcpClient) : TcpClient :=
  { t with
    dispatching := true
    activeConnect := t.connector.connectingOn
    activeConnection := t.connection }

/-- The events are dispatched, and the pending functors are swapped out. -/
def doPendingFunctors (t : TcpClient) : TcpClient :=
  { t with
    dispatching := false
    activeConnect := none
    activeConnection := none
    functors := t.connector.pendingFunctors
    connector := { t.connector with pendingFunctors := [] } }

/-- What any thread asks of the client, what the loop does, and what the kernel reports.
`savedErrno` answers the `connect` that the step may make. A handler of the loop thread is one
step: another thread comes before it or after it, never in between. -/
inductive Step where
  | enableRetry
  | connect (inLoopThread : Bool) (savedErrno : ConnectErrno)
  | disconnect
  | stop
  /-- `forceClose()` of the connection. -/
  | forceClose
  /-- The loop waits for events. -/
  | poll
  | handleEvent (error writable : Bool) (err : Nat) (isSelfConnect : Bool)
  /-- An event of the connection closes it. -/
  | connectionCloses (savedErrno : ConnectErrno)
  | timerFires (delay : Nat) (savedErrno : ConnectErrno)
  | doPendingFunctors
  | callFunctor (savedErrno : ConnectErrno)

def enabled (t : TcpClient) : Step → Prop
  | .enableRetry | .connect _ _ | .disconnect | .stop => True
  | .forceClose => t.connection ≠ none
  | .poll => t.dispatching = false ∧ t.functors = []
  | .handleEvent _ _ _ _ => t.dispatching = true ∧ t.activeConnect ≠ none
  | .connectionCloses _ => t.dispatching = true ∧ t.connection ≠ none ∧
      t.activeConnection = t.connection
  | .timerFires delay _ => t.dispatching = true ∧ delay ∈ t.connector.timers
  | .doPendingFunctors => t.dispatching = true
  | .callFunctor _ => t.dispatching = false ∧ t.functors ≠ []

def step (t : TcpClient) : Step → Except Fault TcpClient
  | .enableRetry => return t.enableRetry
  | .connect inLoopThread savedErrno => t.connect inLoopThread savedErrno
  | .disconnect => return t.disconnect
  | .stop => return t.stop
  | .forceClose =>
      match t.connection with
      | none => return t
      | some conn => return { t with connector := t.connector.queueInLoop (.forceCloseInLoop conn) }
  | .poll => return t.poll
  | .handleEvent error writable err isSelfConnect => do
      let (connector, sockfd) ← t.connector.handleEvent error writable err isSelfConnect
      return { t with connector, activeConnect := none }.newConnection sockfd
  | .connectionCloses savedErrno =>
      match t.connection with
      | none => return t
      | some conn => t.removeConnection conn savedErrno
  | .timerFires delay savedErrno => do
      let timers := t.connector.timers.erase delay
      let connector ← { t.connector with timers }.startInLoop savedErrno
      return { t with connector }
  | .doPendingFunctors => return t.doPendingFunctors
  | .callFunctor savedErrno =>
      match t.functors with
      | [] => return t
      | f :: fs => { t with functors := fs }.callFunctor savedErrno f

def machine : Machine TcpClient Step := ⟨enabled, step⟩

instance enabledDecidable (t : TcpClient) : (a : Step) → Decidable (machine.enabled t a)
  | .enableRetry | .connect _ _ | .disconnect | .stop => isTrue trivial
  | .forceClose => inferInstanceAs (Decidable (_ ≠ _))
  | .poll | .handleEvent _ _ _ _ | .timerFires _ _ | .callFunctor _ =>
      inferInstanceAs (Decidable (_ ∧ _))
  | .connectionCloses _ => inferInstanceAs (Decidable (_ ∧ _ ∧ _))
  | .doPendingFunctors => inferInstanceAs (Decidable (_ = _))

end TcpClient
end Muduo.Net
