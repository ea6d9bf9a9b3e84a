import Mathlib.Logic.Function.Basic
import Muduo.Base.Timestamp
import Muduo.Support.Machine
import Muduo.Support.OrderedSet

/-! `muduo::net::TimerQueue` in its loop thread, where `runInLoop` calls at once. A
`Timer*` is an address in a heap of `Timer` objects; using one that is not allocated
is a fault. Times and counters do not overflow. -/
namespace Muduo.Net
open Muduo.Base Muduo.Support

abbrev Addr := Nat

/-- `UINTPTR_MAX` of a 64-bit machine, above every address of an object. -/
def UINTPTR_MAX : Addr := 0xFFFFFFFFFFFFFFFF

structure Timer where
  expiration : Timestamp
  /-- The whole microseconds of a positive `interval_`. -/
  interval : Option Nat
  sequence : Nat
  deriving DecidableEq, Repr

namespace Timer

def repeats (t : Timer) : Bool := t.interval.isSome

def restart (t : Timer) (now : Timestamp) : Timer :=
  match t.interval with
  | some interval => { t with expiration := now + interval }
  | none => { t with expiration := .invalid }

@[simp] theorem restart_sequence (t : Timer) (now : Timestamp) :
    (t.restart now).sequence = t.sequence := by
  unfold restart
  split <;> rfl

end Timer

structure TimerId where
  timer : Addr
  sequence : Nat
  deriving DecidableEq, Repr

/-- The default `TimerId`: a null pointer. -/
def TimerId.null : TimerId := ⟨0, 0⟩

abbrev Entry := StdPair Timestamp Addr
abbrev ActiveTimer := StdPair Addr Nat

/-- What the queue does, with the sequence number of the timer. -/
inductive TimerEvent where
  | created (id : TimerId)
  | cancelled (id : TimerId)
  | invoked (sequence : Nat)
  | restarted (sequence : Nat)
  | deleted (sequence : Nat)
  | resetTimerfd (expiration : Timestamp)
  deriving DecidableEq, Repr

/-- A `handleRead` in progress: its `expired` vector, the part of it that has not been
run, and its `now`. -/
structure Batch where
  expired : List Entry
  todo : List Entry
  now : Timestamp

structure TimerQueue where
  heap : Addr → Option Timer
  /-- `Timer::s_numCreated_`, which the queues of all loops share. -/
  numCreated : Nat
  timers : OrderedSet Entry
  activeTimers : OrderedSet ActiveTimer
  callingExpiredTimers : Bool
  cancelingTimers : OrderedSet ActiveTimer
  batch : Option Batch
  log : List TimerEvent

namespace TimerQueue

def new : TimerQueue where
  heap := fun _ => none
  numCreated := 0
  timers := .empty
  activeTimers := .empty
  callingExpiredTimers := false
  cancelingTimers := .empty
  batch := none
  log := []

def note (s : TimerQueue) (e : TimerEvent) : TimerQueue := { s with log := s.log ++ [e] }

/-- Reading through a `Timer*`. -/
def deref (s : TimerQueue) (timer : Addr) : Except Fault Timer :=
  match s.heap timer with
  | some t => .ok t
  | none => .error .memory

/-- `new Timer(cb, when, interval)` at an address the allocator chooses. -/
def newTimer (s : TimerQueue) (timer : Addr) (when : Timestamp) (interval : Option Nat) :
    TimerQueue × TimerId :=
  let sequence := s.numCreated + 1
  let id : TimerId := ⟨timer, sequence⟩
  ({ s with
      heap := Function.update s.heap timer (some ⟨when, interval, sequence⟩)
      numCreated := sequence
      log := s.log ++ [.created id] }, id)

/-- `delete timer`. -/
def deleteTimer (s : TimerQueue) (timer : Addr) : Except Fault TimerQueue := do
  let t ← s.deref timer
  return { s with
    heap := Function.update s.heap timer none
    log := s.log ++ [.deleted t.sequence] }

/-- `timer->restart(now)`. -/
def restartTimer (s : TimerQueue) (timer : Addr) (now : Timestamp) : Except Fault TimerQueue := do
  let t ← s.deref timer
  return { s with
    heap := Function.update s.heap timer (some (t.restart now))
    log := s.log ++ [.restarted t.sequence] }

def sizesAgree (s : TimerQueue) : Prop := s.timers.size = s.activeTimers.size

instance (s : TimerQueue) : Decidable s.sizesAgree := inferInstanceAs (Decidable (_ = _))

/-- Whether `when` is in front of every key. -/
def isEarliest (s : TimerQueue) (when : Timestamp) : Bool :=
  match s.timers.first with
  | none => true
  | some it => decide (when < it.first)

def insert (s : TimerQueue) (timer : Addr) : Except Fault (Bool × TimerQueue) := do
  assert s.sizesAgree
  let t ← s.deref timer
  let earliestChanged := s.isEarliest t.expiration
  let (timers, inserted) := s.timers.insert ⟨t.expiration, timer⟩
  assert (inserted = true)
  let (activeTimers, inserted) := s.activeTimers.insert ⟨timer, t.sequence⟩
  assert (inserted = true)
  let s := { s with timers, activeTimers }
  assert s.sizesAgree
  return (earliestChanged, s)

def addTimerInLoop (s : TimerQueue) (timer : Addr) : Except Fault TimerQueue := do
  let (earliestChanged, s) ← s.insert timer
  if earliestChanged then do
    let t ← s.deref timer
    return s.note (.resetTimerfd t.expiration)
  else return s

def addTimer (s : TimerQueue) (timer : Addr) (when : Timestamp) (interval : Option Nat) :
    Except Fault TimerQueue :=
  let (s, id) := s.newTimer timer when interval
  s.addTimerInLoop id.timer

/-- The branch of `cancelInLoop` for a timer that is queued. -/
def cancelQueued (s : TimerQueue) (id : TimerId) : Except Fault TimerQueue := do
  let t ← s.deref id.timer
  let (timers, n) := s.timers.erase ⟨t.expiration, id.timer⟩
  assert (n = 1)
  let s ← deleteTimer { s with timers } id.timer
  return { s with activeTimers := (s.activeTimers.erase ⟨id.timer, id.sequence⟩).1 }

/-- The destructor of a callback, which runs when its timer is freed, is taken to make no
calls. -/
def cancelInLoop (s : TimerQueue) (id : TimerId) : Except Fault TimerQueue := do
  assert s.sizesAgree
  let s := s.note (.cancelled id)
  let timer : ActiveTimer := ⟨id.timer, id.sequence⟩
  let s ←
    if timer ∈ s.activeTimers then s.cancelQueued id
    else if s.callingExpiredTimers then
      pure { s with cancelingTimers := (s.cancelingTimers.insert timer).1 }
    else pure s
  assert s.sizesAgree
  return s

/-- The loop of `getExpired` that takes the expired timers out of `activeTimers_`. -/
def eraseActive (s : TimerQueue) : List Entry → Except Fault TimerQueue
  | [] => return s
  | it :: expired => do
      let t ← s.deref it.second
      let (activeTimers, n) := s.activeTimers.erase ⟨it.second, t.sequence⟩
      assert (n = 1)
      eraseActive { s with activeTimers } expired

def getExpired (s : TimerQueue) (now : Timestamp) : Except Fault (List Entry × TimerQueue) := do
  assert s.sizesAgree
  let sentry : Entry := ⟨now, UINTPTR_MAX⟩
  let expired := s.timers.before sentry
  let rest := s.timers.fromBound sentry
  assert (∀ it ∈ rest.first, now < it.first)
  let s ← eraseActive { s with timers := rest } expired
  assert s.sizesAgree
  return (expired, s)

/-- `handleRead` up to its loop over the callbacks. -/
def handleRead (s : TimerQueue) (now : Timestamp) : Except Fault TimerQueue := do
  let (expired, s) ← s.getExpired now
  return { s with
    callingExpiredTimers := true
    cancelingTimers := .empty
    batch := some ⟨expired, expired, now⟩ }

/-- `it.second->run()`; what the callback does are the calls that follow. -/
def runNext (s : TimerQueue) (b : Batch) : Except Fault TimerQueue :=
  match b.todo with
  | [] => return s
  | it :: todo => do
      let t ← s.deref it.second
      return { s with batch := some { b with todo }, log := s.log ++ [.invoked t.sequence] }

/-- The branch of `reset` for a timer that repeats. -/
def requeue (s : TimerQueue) (timer : Addr) (now : Timestamp) : Except Fault TimerQueue := do
  let s ← s.restartTimer timer now
  let (_, s) ← s.insert timer
  return s

/-- The loop of `reset`. -/
def resetExpired (s : TimerQueue) (now : Timestamp) : List Entry → Except Fault TimerQueue
  | [] => return s
  | it :: expired => do
      let timer := it.second
      let t ← s.deref timer
      let s ←
        if t.repeats ∧ ⟨timer, t.sequence⟩ ∉ s.cancelingTimers then s.requeue timer now
        else s.deleteTimer timer
      resetExpired s now expired

def reset (s : TimerQueue) (expired : List Entry) (now : Timestamp) : Except Fault TimerQueue := do
  let s ← s.resetExpired now expired
  let nextExpire ← match s.timers.first with
    | some it => do
        let t ← s.deref it.second
        pure t.expiration
    | none => pure Timestamp.invalid
  return if nextExpire.valid then s.note (.resetTimerfd nextExpire) else s

/-- `handleRead` behind its loop over the callbacks. As in `cancelInLoop`, the destructors of the
callbacks it frees make no calls. -/
def finishRead (s : TimerQueue) (b : Batch) : Except Fault TimerQueue := do
  let s := { s with callingExpiredTimers := false }
  let s ← s.reset b.expired b.now
  return { s with batch := none }

/-- The primitive operations, in the order the loop thread runs them. -/
inductive Call where
  | addTimer (timer : Addr) (when : Timestamp) (interval : Option Nat)
  | cancel (id : TimerId)
  | handleRead (now : Timestamp)
  | runNext
  | finishRead
  /-- Other queues create timers. -/
  | createElsewhere (count : Nat)
  deriving DecidableEq, Repr

/-- User code runs between deliveries of the timerfd, and inside a callback. -/
def inUserCode (s : TimerQueue) : Prop :=
  ∀ b ∈ s.batch, b.todo.length < b.expired.length

/-- The allocator returns an address that is free; a `TimerId` is the default one or
was returned by `addTimer`. -/
def enabled (s : TimerQueue) : Call → Prop
  | .addTimer timer _ _ =>
      s.inUserCode ∧ s.heap timer = none ∧ 0 < timer ∧ timer < UINTPTR_MAX
  | .cancel id => s.inUserCode ∧ (id = .null ∨ .created id ∈ s.log)
  | .handleRead _ => s.batch = none
  | .runNext => ∃ b ∈ s.batch, b.todo ≠ []
  | .finishRead => ∃ b ∈ s.batch, b.todo = []
  | .createElsewhere _ => True

def step (s : TimerQueue) : Call → Except Fault TimerQueue
  | .addTimer timer when interval => s.addTimer timer when interval
  | .cancel id => s.cancelInLoop id
  | .handleRead now => s.handleRead now
  | .runNext => match s.batch with
    | some b => s.runNext b
    | none => return s
  | .finishRead => match s.batch with
    | some b => s.finishRead b
    | none => return s
  | .createElsewhere count => return { s with numCreated := s.numCreated + count }

def machine : Machine TimerQueue Call := ⟨enabled, step⟩

instance (s : TimerQueue) : Decidable s.inUserCode :=
  inferInstanceAs (Decidable (∀ b ∈ s.batch, b.todo.length < b.expired.length))

instance enabledDecidable (s : TimerQueue) : (c : Call) → Decidable (machine.enabled s c)
  | .addTimer timer _ _ => inferInstanceAs
      (Decidable (s.inUserCode ∧ s.heap timer = none ∧ 0 < timer ∧ timer < UINTPTR_MAX))
  | .cancel id =>
      inferInstanceAs (Decidable (s.inUserCode ∧ (id = .null ∨ .created id ∈ s.log)))
  | .handleRead _ => inferInstanceAs (Decidable (s.batch = none))
  | .runNext => inferInstanceAs (Decidable (∃ b ∈ s.batch, b.todo ≠ []))
  | .finishRead => inferInstanceAs (Decidable (∃ b ∈ s.batch, b.todo = []))
  | .createElsewhere _ => inferInstanceAs (Decidable True)

end TimerQueue
end Muduo.Net
