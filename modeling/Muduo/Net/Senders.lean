import Muduo.Net.OutputStream
import Mathlib.Logic.Function.Basic

/-! Threads that call `send` and `shutdown` on one connection, beside the loop that runs its
functor queue and `handleWrite`. The threads share `state_` and the queue: a call takes one
step up to each access of these, and `none` is the loop thread. -/
namespace Muduo.Net
open Muduo.Support

/-- The argument of a `send`. -/
structure Message where
  m : Memory
  data : Int
  len : Nat

def Message.bytes (msg : Message) : Bytes := msg.m.bytes msg.data msg.len

namespace Senders

/-- An entry of `pendingFunctors_`; the messages are numbered. -/
inductive Pending where
  | sendInLoop (id : Nat) (msg : Message)
  | functor (f : Functor)

def Pending.id? : Pending → Option Nat
  | .sendInLoop id _ => some id
  | .functor _ => none

/-- How far a thread is in its call: `send` has seen `kConnected`, has run or queued
`sendInLoop`; `shutdown` was called, has seen `kConnected`, has stored `kDisconnecting`. -/
inductive Progress where
  | idle
  | sending (msg : Message)
  | sent (id : Nat)
  | shutdownCalled
  | shutdownChecked
  | shutdownStored

/-- A message that `sendInLoop` took when `offset` bytes had been taken before it. -/
structure Taken where
  id : Nat
  msg : Message
  offset : Nat

end Senders

open Senders in
structure Senders (ι : Type) where
  conn : TcpConnection
  pendingFunctors : List Pending
  /-- The local `functors` of `doPendingFunctors`. -/
  functors : List Pending
  callers : Option ι → Progress
  nextId : Nat
  /-- Some thread has called `shutdown`. -/
  called : Bool
  /-- The messages whose `send` returned before any call of `shutdown`. -/
  owed : List Nat
  taken : List Taken

namespace Senders
variable {ι : Type} [DecidableEq ι]

/-- The loop and its callers around an established connection. -/
def start (c : TcpConnection) : Senders ι where
  conn := c
  pendingFunctors := []
  functors := []
  callers := fun _ => .idle
  nextId := 0
  called := false
  owed := []
  taken := []

/-- The connection after a call in the loop thread: its functors go to the queue. -/
def store (s : Senders ι) (c : TcpConnection) : Senders ι :=
  { s with
    conn := { c with queued := [] }
    pendingFunctors := s.pendingFunctors ++ c.queued.map .functor }

def goto (s : Senders ι) (i : Option ι) (pc : Progress) : Senders ι :=
  { s with callers := Function.update s.callers i pc }

def queueInLoop (s : Senders ι) (t : Pending) : Senders ι :=
  { s with pendingFunctors := s.pendingFunctors ++ [t] }

def took (s : Senders ι) (c : TcpConnection) (x : Taken) : Senders ι :=
  { s.store c with taken := s.taken ++ [x] }

def sendInLoop (s : Senders ι) (id : Nat) (msg : Message) (w : WriteResult) :
    Except Fault (Senders ι) := do
  let offset := s.conn.socket.accepted.length + s.conn.outputBuffer.readable.length
  let c ← s.conn.sendInLoop msg.m msg.data msg.len w
  return s.took c ⟨id, msg, offset⟩

/-- The next step of a call, up to its next access of shared data. -/
def advance (s : Senders ι) (i : Option ι) (w : WriteResult) : Except Fault (Senders ι) :=
  match s.callers i with
  | .idle => return s
  | .sending msg =>
      let id := s.nextId
      let s := { s with nextId := id + 1 }.goto i (.sent id)
      if i = none then s.sendInLoop id msg w else return s.queueInLoop (.sendInLoop id msg)
  | .sent id =>
      return { s with owed := if s.called then s.owed else s.owed ++ [id] }.goto i .idle
  | .shutdownCalled =>
      return s.goto i (if s.conn.state = .kConnected then .shutdownChecked else .idle)
  | .shutdownChecked => return { s with conn := s.conn.setState .kDisconnecting }.goto i .shutdownStored
  | .shutdownStored =>
      let s := s.goto i .idle
      if i = none then return s.store s.conn.shutdownInLoop
      else return s.queueInLoop (.functor .shutdownInLoop)

/-- The next functor of `doPendingFunctors`. -/
def runFunctor (s : Senders ι) (w : WriteResult) : Except Fault (Senders ι) :=
  match s.functors with
  | [] => return s
  | .sendInLoop id msg :: ts => { s with functors := ts }.sendInLoop id msg w
  | .functor f :: ts => do
      let c ← s.conn.runFunctor w f
      return { s with functors := ts }.store c

inductive Step (ι : Type) where
  | send (i : Option ι) (msg : Message)
  | shutdown (i : Option ι)
  | advance (i : Option ι) (w : WriteResult)
  | doPendingFunctors
  | runFunctor (w : WriteResult)
  | handleWrite (w : WriteResult)

/-- A `write` that takes up to `len` bytes. -/
def Succeeds (w : WriteResult) (len : Nat) : Prop := ∃ n, w = .accepted n ∧ n ≤ len

/-- The message that a step may be about to write. -/
def Pending.len : Pending → Nat
  | .sendInLoop _ msg => msg.len
  | .functor _ => 0

def Progress.len : Progress → Nat
  | .sending msg => msg.len
  | _ => 0

/-- The loop thread does one thing at a time, `doPendingFunctors` swaps the queue once it
has run the last batch, and no `write` fails. -/
def machine : Machine (Senders ι) (Step ι) where
  enabled s
    | .send i _ | .shutdown i => s.callers i = .idle
    | .advance i w => s.callers i ≠ .idle ∧ Succeeds w (s.callers i).len
    | .doPendingFunctors => s.callers none = .idle ∧ s.functors = []
    | .runFunctor w => s.callers none = .idle ∧ s.functors ≠ [] ∧
        ∀ t ∈ s.functors.head?, Succeeds w t.len
    | .handleWrite w => s.callers none = .idle ∧ s.functors = [] ∧
        Succeeds w s.conn.outputBuffer.readableBytes
  step s
    | .send i msg =>
        if s.conn.state = .kConnected then return s.goto i (.sending msg) else return s
    | .shutdown i => return { s with called := true }.goto i .shutdownCalled
    | .advance i w => s.advance i w
    | .doPendingFunctors => return { s with functors := s.pendingFunctors, pendingFunctors := [] }
    | .runFunctor w => s.runFunctor w
    | .handleWrite w => return s.store (← s.conn.handleWrite w)

end Senders
end Muduo.Net
