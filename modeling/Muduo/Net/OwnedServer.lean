import Muduo.Net.TcpServer

/-! A `TcpServer` that its owner destroys in the base loop, while the loops and the users
of its connections go on. -/
namespace Muduo.Net
open Muduo.Support

namespace TcpServer

/-- The body of the loop in `~TcpServer`; the destructor is in the thread of loop 0. -/
def destroyConnection (s : TcpServer) (id : ConnId) : Except Fault TcpServer := do
  let o ← s.deref id
  if o.loop = 0 then s.call id [.connectDestroyed] (·.connectDestroyed)
  else return s.queueInLoop o.loop [.functor id .connectDestroyed]

/-- The connections that `connections_` holds, in the order of their names. -/
def held (s : TcpServer) : List ConnId := s.connections.values

/-- `~TcpServer` -/
def destructor (s : TcpServer) : Except Fault TcpServer := do
  let s ← s.held.foldlM destroyConnection s
  return { s with connections := .empty }

/-- The server once the step has entered `removeConnectionInLoop`, and gone no further. -/
def enterRemoval (s : TcpServer) : Step → Option TcpServer
  | .runFunctor loop _ =>
      match s.pending loop with
      | .removeConnectionInLoop _ :: _ => some { s with pending := s.pending.take loop }
      | .functor _ _ :: _ | [] => none
  | .closeCallback loop =>
      if loop = 0 then some { s with closing := Function.update s.closing loop none } else none
  | .newConnection | .handleRead .. | .handleWrite .. | .handleClose _ | .send .. | .shutdown ..
  | .forceClose _ | .forceCloseWithDelay _ | .startRead .. | .stopRead .. => none

/-- The acceptor, a member of the server, calls `newConnection`. -/
def accepts : Step → Bool
  | .newConnection => true
  | .runFunctor .. | .closeCallback _ | .handleRead .. | .handleWrite .. | .handleClose _
  | .send .. | .shutdown .. | .forceClose _ | .forceCloseWithDelay _ | .startRead ..
  | .stopRead .. => false

end TcpServer

structure OwnedServer where
  server : TcpServer
  /-- `~TcpServer` has run. -/
  destroyed : Bool
  /-- How often `removeConnectionInLoop` was entered after `~TcpServer`. -/
  lateRemovals : Nat

namespace OwnedServer

def start (server : TcpServer) : OwnedServer := ⟨server, false, 0⟩

inductive Step where
  | serve (a : TcpServer.Step)
  | destroy

def enabled (s : OwnedServer) : Step → Prop
  | .serve a => TcpServer.machine.enabled s.server a ∧
      (TcpServer.accepts a = true → s.destroyed = false)
  | .destroy => s.destroyed = false

/-- A step after `~TcpServer`. The connections and the loops are still there, and
`removeConnection` still finds `loop_`; of a `removeConnectionInLoop`, which would use the
map, only the entry is recorded. -/
def serveDestroyed (s : OwnedServer) (a : TcpServer.Step) : Except Fault OwnedServer :=
  match s.server.enterRemoval a with
  | some server => return { s with server, lateRemovals := s.lateRemovals + 1 }
  | none => do
      let server ← TcpServer.machine.step s.server a
      return { s with server }

def step (s : OwnedServer) : Step → Except Fault OwnedServer
  | .serve a =>
      if s.destroyed then s.serveDestroyed a
      else do
        let server ← TcpServer.machine.step s.server a
        return { s with server }
  | .destroy => do
      let server ← s.server.destructor
      return { s with server, destroyed := true }

def machine : Machine OwnedServer Step := ⟨enabled, step⟩

instance enabledDecidable (s : OwnedServer) : (a : Step) → Decidable (machine.enabled s a)
  | .serve a => inferInstanceAs (Decidable (TcpServer.machine.enabled s.server a ∧
      (TcpServer.accepts a = true → s.destroyed = false)))
  | .destroy => inferInstanceAs (Decidable (s.destroyed = false))

end OwnedServer
end Muduo.Net
