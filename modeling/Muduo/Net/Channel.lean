import Muduo.Support.Machine

/-! `muduo::net::Channel`: the interest set of one descriptor. Only the two masks
`kReadEvent` and `kWriteEvent` are ever set in `events_`, so they are two flags. -/
namespace Muduo.Net
open Muduo.Support

structure Channel where
  reading : Bool
  writing : Bool
  addedToLoop : Bool
  /-- How often `update()` handed the channel to the poller. -/
  updates : Nat
  deriving DecidableEq, Repr

namespace Channel

def new : Channel := ⟨false, false, false, 0⟩

def isReading (ch : Channel) : Bool := ch.reading
def isWriting (ch : Channel) : Bool := ch.writing
def isNoneEvent (ch : Channel) : Bool := !ch.reading && !ch.writing

/-- `update()` hands the channel to the poller, whatever its interest. -/
def update (ch : Channel) : Channel :=
  { ch with addedToLoop := true, updates := ch.updates + 1 }

def enableReading (ch : Channel) : Channel := { ch with reading := true }.update
def disableReading (ch : Channel) : Channel := { ch with reading := false }.update
def enableWriting (ch : Channel) : Channel := { ch with writing := true }.update
def disableWriting (ch : Channel) : Channel := { ch with writing := false }.update
def disableAll (ch : Channel) : Channel := { ch with reading := false, writing := false }.update

def remove (ch : Channel) : Except Fault Channel := do
  assert (ch.isNoneEvent = true)
  return { ch with addedToLoop := false }

def kNoneEvent : Nat := 0
/-- `POLLIN | POLLPRI` -/
def kReadEvent : Nat := 1 ||| 2
/-- `POLLOUT` -/
def kWriteEvent : Nat := 4

/-- `events()`: the mask that the flags stand for. -/
def events (ch : Channel) : Nat :=
  (if ch.reading then kReadEvent else kNoneEvent) |||
    (if ch.writing then kWriteEvent else kNoneEvent)

theorem events_eq_none_iff {ch : Channel} : ch.events = kNoneEvent ↔ ch.isNoneEvent = true := by
  obtain ⟨reading, writing, _, _⟩ := ch
  cases reading <;> cases writing <;>
    simp [events, isNoneEvent, kReadEvent, kWriteEvent, kNoneEvent]

def POLLIN : Nat := 1
def POLLPRI : Nat := 2
def POLLOUT : Nat := 4
def POLLERR : Nat := 8
def POLLHUP : Nat := 16
def POLLNVAL : Nat := 32
def POLLRDHUP : Nat := 8192

end Channel

/-- The calls that change the interest of a channel. -/
inductive InterestOp where
  | enableReading | disableReading | enableWriting | disableWriting | disableAll
  deriving DecidableEq, Repr

def InterestOp.apply : InterestOp → Channel → Channel
  | .enableReading => Channel.enableReading
  | .disableReading => Channel.disableReading
  | .enableWriting => Channel.enableWriting
  | .disableWriting => Channel.disableWriting
  | .disableAll => Channel.disableAll

@[simp] theorem InterestOp.apply_addedToLoop (op : InterestOp) (ch : Channel) :
    (op.apply ch).addedToLoop = true := by
  cases op <;> rfl

end Muduo.Net
