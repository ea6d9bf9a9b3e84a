import Muduo.Net.EventLoop

/-! `muduo::net::EventLoopThread`: a worker thread that runs one loop, and the threads that
know the loop once `startLoop()` has returned it. -/
namespace Muduo.Net
open Muduo.Support

/-- The place of the worker in `threadFunc()`. -/
inductive Worker where
  | notStarted
  /-- The loop is constructed, and `callback_` runs. -/
  | initCallback
  | published
  | looping
  | returned
  | finished
  deriving DecidableEq, Repr

/-- The place of the owner in `startLoop()` and the destructor. -/
inductive Owner where
  | idle
  | waiting
  | started
  /-- Before and after the `quit()` of the destructor. -/
  | quitting | quitted
  | joining
  | destroyed
  deriving DecidableEq, Repr

/-- The threads that may call the loop from outside. -/
inductive Client (ι : Type) where
  | owner
  | other (i : ι)
  deriving DecidableEq, Repr

structure EventLoopThread (ι F : Type) where
  /-- `loop_ != NULL` -/
  loopSet : Bool
  exiting : Bool
  worker : Worker
  owner : Owner
  /-- The loop on the worker's stack. -/
  loop : EventLoop (Client ι) F
  /-- A client has called `quit()` on the loop. -/
  quitCalled : Bool

namespace EventLoopThread
variable {ι F : Type}

def new : EventLoopThread ι F where
  loopSet := false
  exiting := false
  worker := .notStarted
  owner := .idle
  loop := .new
  quitCalled := false

inductive Step (ι F : Type) where
  | startLoop
  /-- The worker sets `loop_` and notifies. -/
  | publish
  /-- The owner finds `loop_` set. -/
  | startLoopReturns
  /-- The worker calls `loop.loop()`. -/
  | enterLoop
  /-- The worker or a client takes a step in the loop. -/
  | inLoop (a : EventLoop.Step (Client ι) F)
  /-- `loop.loop()` returns to `threadFunc`. -/
  | loopReturns
  /-- The worker clears `loop_`. -/
  | unpublish
  /-- The destructor up to its `quit()`. -/
  | destroy
  | destructorQuits
  | join
  | joined

/-- A client may call the loop once `startLoop()` has returned it. -/
def knowsLoop (t : EventLoopThread ι F) : Client ι → Prop
  | .owner => t.owner = .started
  | .other _ => t.owner ≠ .idle ∧ t.owner ≠ .waiting

/-- Who takes a step in the loop: the worker in `callback_` and in `loop()`, and clients as
long as the loop exists. A call begun is always finished. -/
def mayAct (t : EventLoopThread ι F) : EventLoop.Step (Client ι) F → Prop
  | .queueInLoop none _ | .quit none | .wakeup none =>
      t.worker = .initCallback ∨ t.worker = .looping ∧ t.loop.pc ≠ .outside
  | .queueInLoop (some i) _ | .quit (some i) => t.knowsLoop i ∧ t.worker ≠ .finished
  | .wakeup (some _) => t.worker ≠ .finished
  | .loop => False
  | .advance _ => t.worker = .looping

def enabled (t : EventLoopThread ι F) : Step ι F → Prop
  | .startLoop => t.owner = .idle
  | .publish => t.worker = .initCallback ∧ t.loop.callers none = .idle
  | .startLoopReturns => t.owner = .waiting ∧ t.loopSet = true
  | .enterLoop => t.worker = .published ∧ t.loop.enabled .loop
  | .inLoop a => t.mayAct a ∧ t.loop.enabled a
  | .loopReturns => t.worker = .looping ∧ t.loop.pc = .outside ∧ t.loop.callers none = .idle
  | .unpublish => t.worker = .returned
  | .destroy => t.owner = .started ∧ t.loop.callers (some .owner) = .idle
  | .destructorQuits => t.owner = .quitting ∧ t.worker ≠ .finished
  | .join => t.owner = .quitted ∧ t.loop.callers (some .owner) = .idle
  | .joined => t.owner = .joining ∧ t.worker = .finished

/-- Whether the step is the store of a client's `quit()`. -/
def isClientQuit : EventLoop.Step (Client ι) F → Bool
  | .quit (some _) => true
  | _ => false

/-- The loop thread in `loop()` never takes a request back, and starts no iteration with one
pending. -/
theorem advance_quit {l : EventLoop (Client ι) F} (h : l.quit = true) (active : List Active) :
    (l.advance active).quit = true ∧ (l.advance active).iterations = l.iterations := by
  unfold EventLoop.advance
  split
  case h_2 => simp [EventLoop.whileTest, h]
  case h_9 =>
    unfold EventLoop.callFunctor
    split <;> exact ⟨h, rfl⟩
  all_goals exact ⟨h, rfl⟩

variable [DecidableEq ι]

def step (t : EventLoopThread ι F) : Step ι F → Except Fault (EventLoopThread ι F)
  | .startLoop => do
      assert (t.worker = .notStarted)
      return { t with worker := .initCallback, owner := .waiting }
  | .publish => return { t with loopSet := true, worker := .published }
  | .startLoopReturns => return { t with owner := .started }
  | .enterLoop => do
      let loop ← t.loop.loop
      return { t with loop, worker := .looping }
  | .inLoop a => do
      let loop ← t.loop.step a
      return { t with loop, quitCalled := t.quitCalled || isClientQuit a }
  | .loopReturns => return { t with worker := .returned }
  | .unpublish => return { t with loopSet := false, worker := .finished }
  | .destroy =>
      return { t with exiting := true, owner := if t.loopSet then .quitting else .destroyed }
  | .destructorQuits => do
      let loop ← t.loop.step (.quit (some .owner))
      return { t with loop, owner := .quitted, quitCalled := true }
  | .join => return { t with owner := .joining }
  | .joined => return { t with owner := .destroyed }

def machine : Machine (EventLoopThread ι F) (Step ι F) := ⟨enabled, step⟩

/-- The request of `s` is still in force in `t`: a further test of `quit_` ends the loop, no
iteration has started since, and so a `join` waits for a loop that is going to end. -/
structure Remembers (s t : EventLoopThread ι F) : Prop where
  quit : t.loop.quit = true
  iterations : t.loop.iterations = s.loop.iterations

/-- `loop()` is entered before any `quit()` of a client. -/
def EntersFirst (t : EventLoopThread ι F) (a : Step ι F) : Prop :=
  a = .enterLoop → t.quitCalled = false

variable {s t u : EventLoopThread ι F}

/-- Only the entry into `loop()` clears `quit_`. -/
theorem loopStep_quit {l l' : EventLoop (Client ι) F} {a : EventLoop.Step (Client ι) F}
    (h : l.quit = true) (ha : a ≠ .loop) (hok : l.step a = .ok l') :
    l'.quit = true ∧ l'.iterations = l.iterations := by
  cases a with
  | queueInLoop caller cb =>
    cases hok
    exact ⟨h, rfl⟩
  | quit caller =>
    cases hok
    exact ⟨rfl, rfl⟩
  | wakeup caller =>
    cases hok
    split <;> exact ⟨h, rfl⟩
  | loop => exact absurd rfl ha
  | advance active =>
    cases hok
    exact advance_quit h active

theorem loopStep_quits {l l' : EventLoop (Client ι) F} {a : EventLoop.Step (Client ι) F}
    (ha : isClientQuit a = true) (hok : l.step a = .ok l') : l'.quit = true := by
  cases a with
  | quit caller =>
    cases hok
    rfl
  | _ => simp [isClientQuit] at ha

/-- Every step but the entry into `loop()` keeps a request in force. -/
theorem step_remembers {a : Step ι F} (h : s.loop.quit = true) (he : enabled s a)
    (ha : a ≠ .enterLoop) (hok : step s a = .ok t) : Remembers s t := by
  cases a with
  | startLoop =>
    obtain ⟨_, hok⟩ := assert_bind_ok.mp hok
    cases hok
    exact ⟨h, rfl⟩
  | enterLoop => exact absurd rfl ha
  | inLoop b =>
    obtain ⟨l, hl, hok⟩ := bind_ok.mp hok
    cases hok
    have hb : b ≠ .loop := by
      rintro rfl
      exact he.1
    obtain ⟨hq, hi⟩ := loopStep_quit h hb hl
    exact ⟨hq, hi⟩
  | destructorQuits =>
    obtain ⟨l, hl, hok⟩ := bind_ok.mp hok
    cases hok
    cases hl
    exact ⟨rfl, rfl⟩
  | publish | startLoopReturns | loopReturns | unpublish | destroy | join | joined =>
    cases hok
    exact ⟨h, rfl⟩

theorem enterLoop_forgets (hok : step s .enterLoop = .ok t) :
    t.loop.quit = false ∧ t.quitCalled = s.quitCalled := by
  obtain ⟨l, hl, hok⟩ := bind_ok.mp hok
  obtain ⟨_, hl⟩ := assert_bind_ok.mp hl
  cases hl
  cases hok
  exact ⟨rfl, rfl⟩

/-- A client's `quit()` sets `quit_`, and no other step counts as one. -/
theorem step_quitCalled {a : Step ι F} (hs : s.quitCalled = false) (hok : step s a = .ok t)
    (ht : t.quitCalled = true) : t.loop.quit = true := by
  cases a with
  | startLoop =>
    obtain ⟨_, hok⟩ := assert_bind_ok.mp hok
    cases hok
    rw [hs] at ht
    cases ht
  | enterLoop =>
    rw [(enterLoop_forgets hok).2, hs] at ht
    cases ht
  | inLoop b =>
    obtain ⟨l, hl, hok⟩ := bind_ok.mp hok
    cases hok
    simp only [hs, Bool.false_or] at ht
    exact loopStep_quits ht hl
  | destructorQuits =>
    obtain ⟨l, hl, hok⟩ := bind_ok.mp hok
    cases hok
    cases hl
    rfl
  | publish | startLoopReturns | loopReturns | unpublish | destroy | join | joined =>
    cases hok
    rw [hs] at ht
    cases ht

theorem quitCalled_stays {a : Step ι F} (hs : s.quitCalled = true) (hok : step s a = .ok t) :
    t.quitCalled = true := by
  cases a with
  | startLoop =>
    obtain ⟨_, hok⟩ := assert_bind_ok.mp hok
    cases hok
    exact hs
  | enterLoop => exact (enterLoop_forgets hok).2.trans hs
  | inLoop b =>
    obtain ⟨l, hl, hok⟩ := bind_ok.mp hok
    cases hok
    simp [hs]
  | destructorQuits =>
    obtain ⟨l, hl, hok⟩ := bind_ok.mp hok
    cases hok
    rfl
  | publish | startLoopReturns | loopReturns | unpublish | destroy | join | joined =>
    cases hok
    exact hs

theorem step_spec {a : Step ι F} (h : s.quitCalled = true → Remembers s s) (he : enabled s a)
    (hok : step s a = .ok t) :
    (s.quitCalled = true → Remembers s t) ∧ (t.quitCalled = true → Remembers t t) ↔
      EntersFirst s a := by
  by_cases hs : s.quitCalled = true
  · have hq := (h hs).quit
    constructor
    · rintro ⟨hst, _⟩ rfl
      have hx := (hst hs).quit
      rw [(enterLoop_forgets hok).1] at hx
      cases hx
    · intro hk
      have ha : a ≠ .enterLoop := by
        intro hx
        rw [hk hx] at hs
        cases hs
      have ht := step_remembers hq he ha hok
      exact ⟨fun _ => ht, fun _ => ⟨ht.quit, rfl⟩⟩
  · rw [Bool.not_eq_true] at hs
    refine ⟨fun _ _ => hs, fun _ => ⟨fun hx => ?_, fun ht => ⟨step_quitCalled hs hok ht, rfl⟩⟩⟩
    rw [hs] at hx
    cases hx

/-- No `quit()` is forgotten exactly when `loop()` is entered before any of them. -/
theorem quit_remembered (steps : List (Step ι F)) (t : EventLoopThread ι F)
    (h : machine.Run .new steps t) :
    machine.Since (.new : EventLoopThread ι F) steps (·.quitCalled = true) Remembers ↔
      machine.EveryStep (.new : EventLoopThread ι F) steps EntersFirst := by
  apply h.since_iff (I := fun _ => True)
  · intro s t u hst htu
    exact ⟨htu.quit, htu.iterations.trans hst.iterations⟩
  · intro s a t _ hr he hok
    exact ⟨trivial, fun hs => quitCalled_stays hs hok, step_spec hr he hok⟩
  · trivial
  · intro hx
    cases hx

/-- The owner quits a loop that has begun to wait. -/
theorem quit_remembered_sample : ∃ t : EventLoopThread Unit Unit,
    machine.Run .new [.startLoop, .publish, .startLoopReturns, .enterLoop, .inLoop (.advance []),
      .inLoop (.quit (some .owner))] t ∧ t.quitCalled = true ∧
    machine.Since (.new : EventLoopThread Unit Unit) [.startLoop, .publish, .startLoopReturns,
      .enterLoop, .inLoop (.advance []), .inLoop (.quit (some .owner))] (·.quitCalled = true)
      Remembers := by
  have hr : machine.Run (.new : EventLoopThread Unit Unit) [.startLoop, .publish,
      .startLoopReturns, .enterLoop, .inLoop (.advance []), .inLoop (.quit (some .owner))] _ :=
    .cons rfl rfl (.cons ⟨rfl, rfl⟩ rfl (.cons ⟨rfl, rfl⟩ rfl (.cons ⟨rfl, rfl, rfl⟩ rfl
      (.cons ⟨rfl, rfl, by decide⟩ rfl (.cons ⟨⟨rfl, by decide⟩, rfl, by simp⟩ rfl (.nil _))))))
  refine ⟨_, hr, rfl, (quit_remembered _ _ hr).mpr ?_⟩
  refine .cons rfl rfl (by simp [EntersFirst]) (.cons ⟨rfl, rfl⟩ rfl (by simp [EntersFirst])
    (.cons ⟨rfl, rfl⟩ rfl (by simp [EntersFirst]) (.cons ⟨rfl, rfl, rfl⟩ rfl (fun _ => rfl) ?_)))
  exact Machine.everyStep_of_forall (by simp [EntersFirst])

/-- The owner destroys the thread before the worker enters `loop()`: the loop starts, and
the destructor waits for it. -/
theorem quit_before_loop_forgotten : ∃ s t : EventLoopThread Unit Unit,
    machine.Run .new [.startLoop, .publish, .startLoopReturns, .destroy, .destructorQuits] s ∧
    s.quitCalled = true ∧ s.loop.quit = true ∧
    machine.Run s [.inLoop (.wakeup (some .owner)), .join, .enterLoop, .inLoop (.advance [])] t ∧
    t.owner = .joining ∧ t.loop.pc = .poll ∧ t.loop.quit = false ∧
    t.loop.iterations = s.loop.iterations + 1 ∧
    ¬ machine.Since (.new : EventLoopThread Unit Unit) [.startLoop, .publish, .startLoopReturns,
      .destroy, .destructorQuits, .inLoop (.wakeup (some .owner)), .join, .enterLoop,
      .inLoop (.advance [])] (·.quitCalled = true) Remembers := by
  have hs : machine.Run (.new : EventLoopThread Unit Unit) [.startLoop, .publish,
      .startLoopReturns, .destroy, .destructorQuits] _ :=
    .cons rfl rfl (.cons ⟨rfl, rfl⟩ rfl (.cons ⟨rfl, rfl⟩ rfl (.cons ⟨rfl, rfl⟩ rfl
      (.cons ⟨rfl, by decide⟩ rfl (.nil _)))))
  refine ⟨_, _, hs, rfl, rfl, .cons
    ⟨Worker.noConfusion, Caller.noConfusion⟩ rfl (.cons ⟨rfl, rfl⟩ rfl
    (.cons ⟨rfl, rfl, rfl⟩ rfl (.cons ⟨rfl, rfl, by decide⟩ rfl (.nil _)))),
    rfl, rfl, rfl, rfl, fun h => ?_⟩
  have hq := (h _ [.inLoop (.wakeup (some .owner)), .join, .enterLoop] [.inLoop (.advance [])]
    _ _ rfl hs (.cons
    ⟨Worker.noConfusion, Caller.noConfusion⟩ rfl (.cons ⟨rfl, rfl⟩ rfl
      (.cons ⟨rfl, rfl, rfl⟩ rfl (.nil _)))) rfl).quit
  cases hq

end EventLoopThread
end Muduo.Net
