import Mathlib.Logic.Function.Basic
import Muduo.Support.Machine

/-! `muduo::net::EventLoop`: the functor queue, the wakeup descriptor and `quit_`, shared by
the loop thread and any number of other threads `ι`. One step is what a thread does
between two points where another thread may come in. -/
namespace Muduo.Net
open Muduo.Support

/-- A thread's place in `queueInLoop` or `quit`: between calls, or past the push or the
store and before its `wakeup()`. -/
inductive Caller where
  | idle | queued | quitting
  deriving DecidableEq, Repr

/-- A channel in `activeChannels_`: the wakeup channel, or one with callbacks of its own. -/
inductive Active where
  | wakeup | channel
  deriving DecidableEq, Repr

/-- The place of the loop thread in `loop()`. -/
inductive LoopPc where
  | outside
  | whileTest
  | poll
  /-- Before the next of `activeChannels_`. -/
  | handleEvents (active : List Active)
  /-- In a callback of the channel before them. -/
  | callback (active : List Active)
  | doPendingFunctors
  /-- Before the next of the functors that were swapped out. -/
  | callFunctors
  | functor
  deriving DecidableEq, Repr

/-- Where the loop thread runs code of the user, which may call the loop again. -/
def LoopPc.inUserCode : LoopPc → Bool
  | .outside | .callback _ | .functor => true
  | .whileTest | .poll | .handleEvents _ | .doPendingFunctors | .callFunctors => false

structure EventLoop (ι F : Type) where
  looping : Bool
  quit : Bool
  callingPendingFunctors : Bool
  pendingFunctors : List F
  /-- The local `functors` of `doPendingFunctors`, without those already called. -/
  functors : List F
  /-- The counter of the eventfd. -/
  wakeupFd : Nat
  pc : LoopPc
  /-- Where each thread stands; `none` is the loop thread. -/
  callers : Option ι → Caller
  /-- All functors ever pushed, and all ever called, in order. -/
  pushed : List F
  executed : List F
  /-- How many functors had been pushed when `loop()` was entered. -/
  entered : Nat
  /-- How many iterations `loop()` has started. -/
  iterations : Nat

namespace EventLoop
variable {ι F : Type}

def new : EventLoop ι F where
  looping := false
  quit := false
  callingPendingFunctors := false
  pendingFunctors := []
  functors := []
  wakeupFd := 0
  pc := .outside
  callers := fun _ => .idle
  pushed := []
  executed := []
  entered := 0
  iterations := 0

/-- A write of 1 to the eventfd, which fails rather than overflow. -/
def wakeup (l : EventLoop ι F) : EventLoop ι F :=
  { l with wakeupFd := if l.wakeupFd < 0xFFFFFFFFFFFFFFFE then l.wakeupFd + 1 else l.wakeupFd }

/-- A read of the eventfd. -/
def handleRead (l : EventLoop ι F) : EventLoop ι F := { l with wakeupFd := 0 }

/-- The critical section of `queueInLoop`. -/
def pushBack (l : EventLoop ι F) (cb : F) : EventLoop ι F :=
  { l with pendingFunctors := l.pendingFunctors ++ [cb], pushed := l.pushed ++ [cb] }

/-- Whether a thread that has pushed or quit still calls `wakeup()`. -/
def wakes (l : EventLoop ι F) (caller : Option ι) : Bool :=
  match l.callers caller with
  | .idle => false
  | .queued => !caller.isNone || l.callingPendingFunctors
  | .quitting => !caller.isNone

/-- `loop()` up to its `while`. -/
def loop (l : EventLoop ι F) : Except Fault (EventLoop ι F) := do
  assert (l.looping = false)
  return { l with looping := true, quit := false, pc := .whileTest, entered := l.pushed.length }

def whileTest (l : EventLoop ι F) : EventLoop ι F :=
  if !l.quit then { l with pc := .poll, iterations := l.iterations + 1 }
  else { l with looping := false, pc := .outside }

/-- The swap of `doPendingFunctors`. Only the loop thread reads
`callingPendingFunctors_`, so nothing comes in between. -/
def swapFunctors (l : EventLoop ι F) : EventLoop ι F :=
  { l with callingPendingFunctors := true, functors := l.pendingFunctors, pendingFunctors := [],
           pc := .callFunctors }

/-- The next functor. What its destructor does is left out: it is taken to call neither the
loop nor anything that queues. -/
def callFunctor (l : EventLoop ι F) : EventLoop ι F :=
  match l.functors with
  | [] => { l with callingPendingFunctors := false, pc := .whileTest }
  | f :: fs => { l with functors := fs, executed := l.executed ++ [f], pc := .functor }

/-- The next step of the loop thread in `loop()`; `active` is what `poll` reports. -/
def advance (l : EventLoop ι F) (active : List Active) : EventLoop ι F :=
  match l.pc with
  | .outside => l
  | .whileTest => l.whileTest
  | .poll => { l with pc := .handleEvents active }
  | .handleEvents [] => { l with pc := .doPendingFunctors }
  | .handleEvents (.wakeup :: rest) => { l.handleRead with pc := .handleEvents rest }
  | .handleEvents (.channel :: rest) => { l with pc := .callback rest }
  | .callback rest => { l with pc := .handleEvents rest }
  | .doPendingFunctors => l.swapFunctors
  | .callFunctors => l.callFunctor
  | .functor => { l with pc := .callFunctors }

inductive Step (ι F : Type) where
  /-- `queueInLoop(cb)` up to the end of its critical section. -/
  | queueInLoop (caller : Option ι) (cb : F)
  /-- The store of `quit()`. -/
  | quit (caller : Option ι)
  /-- The rest of either call. -/
  | wakeup (caller : Option ι)
  | loop
  | advance (active : List Active)

/-- A thread makes one call at a time, and the loop thread only from user code. -/
def ready (l : EventLoop ι F) (caller : Option ι) : Prop :=
  l.callers caller = .idle ∧ (caller = none → l.pc.inUserCode = true)

def enabled (l : EventLoop ι F) : Step ι F → Prop
  | .queueInLoop caller _ => l.ready caller
  | .quit caller => l.ready caller
  | .wakeup caller => l.callers caller ≠ .idle
  | .loop => l.callers none = .idle ∧ l.pc = .outside
  | .advance _ => l.callers none = .idle ∧ l.pc ≠ .outside

variable [DecidableEq ι]

def step (l : EventLoop ι F) : Step ι F → Except Fault (EventLoop ι F)
  | .queueInLoop caller cb =>
      return { l.pushBack cb with callers := Function.update l.callers caller .queued }
  | .quit caller =>
      return { l with quit := true, callers := Function.update l.callers caller .quitting }
  | .wakeup caller =>
      let callers := Function.update l.callers caller .idle
      return if l.wakes caller then { l.wakeup with callers } else { l with callers }
  | .loop => l.loop
  | .advance active => return l.advance active

def machine : Machine (EventLoop ι F) (Step ι F) := ⟨enabled, step⟩

end EventLoop
end Muduo.Net
