import Muduo.Net.Channel

/-! `muduo::net::Connector`. A socket is named by how many were created before it, since the
kernel reuses descriptors. -/
namespace Muduo.Net
open Muduo.Support

/-- `errno` of `sockets::connect`; `success` is a return of 0. -/
inductive ConnectErrno where
  | success | EINPROGRESS | EINTR | EISCONN
  | EAGAIN | EADDRINUSE | EADDRNOTAVAIL | ECONNREFUSED | ENETUNREACH
  | EACCES | EPERM | EAFNOSUPPORT | EALREADY | EBADF | EFAULT | ENOTSOCK
  | other (code : Nat)
  deriving DecidableEq, Repr

/-- Functors of a client in its loop's queue. -/
inductive ClientFunctor where
  | startInLoop | stopInLoop | resetChannel
  | forceCloseInLoop (conn : Nat)
  | connectDestroyed (conn : Nat)
  deriving DecidableEq, Repr

/-- `new Channel(loop_, sockfd)` -/
structure SocketChannel where
  fd : Nat
  channel : Channel
  deriving DecidableEq, Repr

inductive Connector.States where
  | kDisconnected | kConnecting | kConnected
  deriving DecidableEq, Repr

structure Connector where
  connect_ : Bool
  state : Connector.States
  channel : Option SocketChannel
  retryDelayMs : Nat
  /-- `pendingFunctors_` of the loop, oldest first. -/
  pendingFunctors : List ClientFunctor
  /-- The delays of the retry timers that have not fired. -/
  timers : List Nat
  /-- How many sockets `connect()` has created. -/
  created : Nat
  /-- The arguments of `sockets::close` and of `newConnectionCallback_`. -/
  closed : List Nat
  handed : List Nat
  deriving DecidableEq, Repr

namespace Connector

def kMaxRetryDelayMs : Nat := 30 * 1000
def kInitRetryDelayMs : Nat := 500

def new : Connector where
  connect_ := false
  state := .kDisconnected
  channel := none
  retryDelayMs := kInitRetryDelayMs
  pendingFunctors := []
  timers := []
  created := 0
  closed := []
  handed := []

def setState (c : Connector) (s : States) : Connector := { c with state := s }

def queueInLoop (c : Connector) (f : ClientFunctor) : Connector :=
  { c with pendingFunctors := c.pendingFunctors ++ [f] }

/-- `sockets::close` -/
def close (c : Connector) (sockfd : Nat) : Connector := { c with closed := c.closed ++ [sockfd] }

def retry (c : Connector) (sockfd : Nat) : Connector :=
  let c := (c.close sockfd).setState .kDisconnected
  if c.connect_ then
    { c with timers := c.timers ++ [c.retryDelayMs],
             retryDelayMs := min (c.retryDelayMs * 2) kMaxRetryDelayMs }
  else c

def connecting (c : Connector) (sockfd : Nat) : Except Fault Connector := do
  let c := c.setState .kConnecting
  assert (c.channel = none)
  return { c with channel := some ⟨sockfd, Channel.new.enableWriting⟩ }

def connect (c : Connector) (savedErrno : ConnectErrno) : Except Fault Connector :=
  let sockfd := c.created
  let c := { c with created := c.created + 1 }
  match savedErrno with
  | .success | .EINPROGRESS | .EINTR | .EISCONN => c.connecting sockfd
  | .EAGAIN | .EADDRINUSE | .EADDRNOTAVAIL | .ECONNREFUSED | .ENETUNREACH => return c.retry sockfd
  | .EACCES | .EPERM | .EAFNOSUPPORT | .EALREADY | .EBADF | .EFAULT | .ENOTSOCK =>
      return c.close sockfd
  | .other _ => return c.close sockfd

def startInLoop (c : Connector) (savedErrno : ConnectErrno) : Except Fault Connector := do
  assert (c.state = .kDisconnected)
  if c.connect_ then c.connect savedErrno else return c

/-- `start()`; in the loop thread `startInLoop` runs at once, and `savedErrno` answers the
`connect` it may make. -/
def start (c : Connector) (inLoopThread : Bool) (savedErrno : ConnectErrno) :
    Except Fault Connector :=
  let c := { c with connect_ := true }
  if inLoopThread then c.startInLoop savedErrno else return c.queueInLoop .startInLoop

def stop (c : Connector) : Connector := { c with connect_ := false }.queueInLoop .stopInLoop

def restart (c : Connector) (savedErrno : ConnectErrno) : Except Fault Connector :=
  { c.setState .kDisconnected with
    retryDelayMs := kInitRetryDelayMs
    connect_ := true }.startInLoop savedErrno

/-- `removeAndResetChannel()` and the descriptor it returns. -/
def removeAndResetChannel (c : Connector) : Except Fault (Connector × Nat) :=
  match c.channel with
  | none => throw .memory
  | some ch => do
      let channel ← ch.channel.disableAll.remove
      return ({ c with channel := some { ch with channel } }.queueInLoop .resetChannel, ch.fd)

/-- `resetChannel()`; the destructor of the channel asserts that it was removed. -/
def resetChannel (c : Connector) : Except Fault Connector :=
  match c.channel with
  | none => return c
  | some ch => do
      assert (ch.channel.addedToLoop = false)
      return { c with channel := none }

def stopInLoop (c : Connector) : Except Fault Connector := do
  if c.state = .kConnecting then
    let (c, sockfd) ← (c.setState .kDisconnected).removeAndResetChannel
    return c.retry sockfd
  else
    return c

/-- `handleWrite()`, with `err` the socket's `SO_ERROR`, and the descriptor it passes to
`newConnectionCallback_`. -/
def handleWrite (c : Connector) (err : Nat) (isSelfConnect : Bool) :
    Except Fault (Connector × Option Nat) := do
  if c.state = .kConnecting then
    let (c, sockfd) ← c.removeAndResetChannel
    if err ≠ 0 then
      return (c.retry sockfd, none)
    else if isSelfConnect then
      return (c.retry sockfd, none)
    else
      let c := c.setState .kConnected
      if c.connect_ then
        return ({ c with handed := c.handed ++ [sockfd] }, some sockfd)
      else
        return (c.close sockfd, none)
  else
    assert (c.state = .kDisconnected)
    return (c, none)

def handleError (c : Connector) : Except Fault Connector := do
  if c.state = .kConnecting then
    let (c, sockfd) ← c.removeAndResetChannel
    return c.retry sockfd
  else
    return c

/-- `Channel::handleEvent` on the connecting socket. -/
def handleEvent (c : Connector) (error writable : Bool) (err : Nat) (isSelfConnect : Bool) :
    Except Fault (Connector × Option Nat) := do
  let c ← if error then c.handleError else pure c
  if writable then c.handleWrite err isSelfConnect else return (c, none)

/-- The channel of the attempt under way: registered, and interested in writing. -/
def connectingOn (c : Connector) : Option Nat :=
  match c.channel with
  | some ch =>
      if c.state = .kConnecting ∧ ch.channel.isWriting ∧ ch.channel.addedToLoop then some ch.fd
      else none
  | none => none

end Connector
end Muduo.Net
