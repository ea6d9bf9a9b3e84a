import Muduo.Base.CountDownLatch

/-! `muduo::Thread`: its owner in `start()`, `join()` and the destructor, and the thread it has
created in `ThreadData::runInThread()`, with every step of their latch between them. -/
namespace Muduo.Base
open Muduo.Support

inductive Side where
  | owner
  | child
  deriving DecidableEq, Repr

/-- The place of the owner in `start()`. -/
inductive Starter where
  | idle
  /-- In `latch_.wait()`. -/
  | waiting
  | returned
  deriving DecidableEq, Repr

/-- The place of the new thread in `runInThread()`. -/
inductive Runner where
  | absent
  | created
  /-- It has set `*tid_`. -/
  | stored
  /-- In `latch_->countDown()`. -/
  | counting
  /-- In `func_()`. -/
  | running
  | finished
  deriving DecidableEq, Repr

/-- What became of `pthreadId_`. -/
inductive PthreadState where
  | none
  | joinable
  | joined
  | detached
  deriving DecidableEq, Repr

structure Thread where
  started : Bool
  joined : Bool
  pthread : PthreadState
  tid : Nat
  latch : MutexLock Side CountDownLatch CountDownLatch.Call Unit
  owner : Starter
  child : Runner
  alive : Bool

namespace Thread

def new : Thread where
  started := false
  joined := false
  pthread := .none
  tid := 0
  latch := .new (.new 1)
  owner := .idle
  child := .absent
  alive := true

inductive Step where
  | start
  | startReturns
  | storeTid
  | countDown
  | countedDown
  | finish
  | join
  | destroy
  /-- A step of one of the two inside the latch. -/
  | next (side : Side) (woken : Option Side)
  | wakeup (side : Side)
  deriving DecidableEq, Repr

section Steps
variable (tidOf : Side → Nat)

/-- The steps of the latch that `m` is among. -/
def latchStep (s : Thread) (m : MutexLock.Move Side CountDownLatch.Call Unit) :
    Except Fault (MutexLock Side CountDownLatch CountDownLatch.Call Unit) :=
  if s.alive then (MutexLock.machine CountDownLatch.methods tidOf).step s.latch m
  else .error .memory

/-- The owner starts and joins once, and not after the destructor; `pthread_join` returns when
the thread has ended. -/
def enabled (s : Thread) : Step → Prop
  | .start => s.alive = true ∧ s.owner = .idle
  | .startReturns => s.owner = .waiting ∧ (s.latch.phase .owner).isOutside = true
  | .storeTid => s.child = .created
  | .countDown => s.child = .stored
  | .countedDown => s.child = .counting ∧ (s.latch.phase .child).isOutside = true
  | .finish => s.child = .running
  | .join => s.alive = true ∧ s.owner = .returned ∧ s.joined = false ∧ s.child = .finished
  | .destroy => s.alive = true ∧ s.owner ≠ .waiting
  | .next side woken =>
      (MutexLock.machine CountDownLatch.methods tidOf).enabled s.latch (.next side woken)
  | .wakeup side =>
      (MutexLock.machine CountDownLatch.methods tidOf).enabled s.latch (.wakeup side ())

/-- `~CountDownLatch`, with the assertions of `~Condition` and `~MutexLock`. -/
def destroyLatch (s : Thread) : Except Fault Unit := do
  assert ((s.latch.conds ()).waiting = ∅ ∧ (s.latch.conds ()).awakened = ∅)
  assert (s.latch.holder = 0)
  assert (s.latch.owner = none)

def step (s : Thread) : Step → Except Fault Thread
  | .start => do
      assert (s.started = false)
      let latch ← s.latchStep tidOf (.call .owner .wait)
      return { s with
        started := true
        pthread := .joinable
        child := .created
        latch
        owner := .waiting }
  | .startReturns => do
      assert (0 < s.tid)
      return { s with owner := .returned }
  | .storeTid =>
      if s.alive then return { s with
        tid := tidOf .child
        child := .stored }
      else .error .memory
  | .countDown => do
      let latch ← s.latchStep tidOf (.call .child .countDown)
      return { s with
        latch
        child := .counting }
  | .countedDown => return { s with child := .running }
  | .finish => return { s with child := .finished }
  | .join => do
      assert (s.started = true)
      assert (s.joined = false)
      return { s with
        joined := true
        pthread := .joined }
  | .destroy => do
      s.destroyLatch
      return { s with
        pthread := if s.started && !s.joined then .detached else s.pthread
        alive := false }
  | .next side woken => do
      let latch ← s.latchStep tidOf (.next side woken)
      return { s with latch }
  | .wakeup side => do
      let latch ← s.latchStep tidOf (.wakeup side ())
      return { s with latch }

def machine : Machine Thread Step := ⟨enabled tidOf, step tidOf⟩

instance enabledDecidable (s : Thread) : (a : Step) → Decidable ((machine tidOf).enabled s a)
  | .start => inferInstanceAs (Decidable (s.alive = true ∧ s.owner = .idle))
  | .startReturns =>
      inferInstanceAs (Decidable (s.owner = .waiting ∧ (s.latch.phase .owner).isOutside = true))
  | .storeTid => inferInstanceAs (Decidable (s.child = .created))
  | .countDown => inferInstanceAs (Decidable (s.child = .stored))
  | .countedDown =>
      inferInstanceAs (Decidable (s.child = .counting ∧ (s.latch.phase .child).isOutside = true))
  | .finish => inferInstanceAs (Decidable (s.child = .running))
  | .join => inferInstanceAs (Decidable
      (s.alive = true ∧ s.owner = .returned ∧ s.joined = false ∧ s.child = .finished))
  | .destroy => inferInstanceAs (Decidable (s.alive = true ∧ s.owner ≠ .waiting))
  | .next side woken => inferInstanceAs (Decidable
      ((MutexLock.machine CountDownLatch.methods tidOf).enabled s.latch (.next side woken)))
  | .wakeup side => inferInstanceAs (Decidable
      ((MutexLock.machine CountDownLatch.methods tidOf).enabled s.latch (.wakeup side ())))

end Steps

/-- How far the owner is in `start()`, by its call of the latch and what came of it. -/
def OwnerAt (p : Progress CountDownLatch.Call) (returned : Nat) : Starter → Prop
  | .idle => p = .idle ∧ returned = 0
  | .waiting => p = .pending .wait ∧ returned = 0 ∨ (p = .through ∨ p = .idle) ∧ returned = 1
  | .returned => p = .idle ∧ returned = 1

def ChildAt (p : Progress CountDownLatch.Call) (downs : Nat) : Runner → Prop
  | .absent | .created | .stored => p = .idle ∧ downs = 0
  | .counting => p = .pending .countDown ∧ downs = 0 ∨ (p = .through ∨ p = .idle) ∧ downs = 1
  | .running | .finished => p = .idle ∧ downs = 1

/-- `tid_` -/
def tidAt (tidOf : Side → Nat) : Runner → Nat
  | .absent | .created => 0
  | .stored | .counting | .running | .finished => tidOf .child

/-- A thread that is started is joined or detached when the object is gone. -/
def HandleAt (started joined alive : Bool) (pthread : PthreadState) (child : Runner) :
    Starter → Prop
  | .idle => started = false ∧ joined = false ∧ pthread = .none ∧ child = .absent
  | .waiting | .returned => started = true ∧ child ≠ .absent ∧
      pthread = if joined = true then .joined else if alive = true then .joinable else .detached

/-- The new thread is done with the latch before the owner is. -/
structure Inv (tidOf : Side → Nat) (s : Thread) : Prop where
  latch : ∃ as, (MutexLock.machine CountDownLatch.methods tidOf).Run (.new (.new 1)) as s.latch
  ownerAt : OwnerAt (s.latch.phase .owner).progress s.latch.data.returned s.owner
  childAt : ChildAt (s.latch.phase .child).progress s.latch.data.downs s.child
  tid : s.tid = tidAt tidOf s.child
  handle : HandleAt s.started s.joined s.alive s.pthread s.child s.owner
  alive : s.owner = .waiting → s.alive = true
  back : 0 < s.latch.data.returned → (s.latch.phase .child).progress = .idle

variable {tidOf : Side → Nat} {s s' : Thread}

theorem new_inv : Inv tidOf new where
  latch := ⟨[], .nil _⟩
  ownerAt := ⟨rfl, rfl⟩
  childAt := ⟨rfl, rfl⟩
  tid := rfl
  handle := ⟨rfl, rfl, rfl, rfl⟩
  alive h := by cases h
  back h := absurd h (lt_irrefl 0)

/-- Nobody is in the latch when the owner is not in `start()`. -/
theorem Inv.outside (h : Inv tidOf s) (ho : s.owner ≠ .waiting) (side : Side) :
    s.latch.phase side = .outside := by
  refine Phase.outside_of_idle ?_
  have howner := h.ownerAt
  have hhandle := h.handle
  cases side with
  | owner =>
    cases hs : s.owner with
    | waiting => exact absurd hs ho
    | idle =>
      rw [hs] at howner
      exact howner.1
    | returned =>
      rw [hs] at howner
      exact howner.1
  | child =>
    cases hs : s.owner with
    | waiting => exact absurd hs ho
    | idle =>
      rw [hs] at hhandle
      have hchild := h.childAt
      rw [hhandle.2.2.2] at hchild
      exact hchild.1
    | returned =>
      rw [hs] at howner
      exact h.back (by rw [howner.2]; exact Nat.one_pos)

theorem Inv.held (h : Inv tidOf s) : MutexLock.Inv CountDownLatch.methods tidOf s.latch := by
  obtain ⟨as, hr⟩ := h.latch
  exact (MutexLock.run_refines hr).1

/-- The object is there for a thread that is in the latch. -/
theorem Inv.alive_of_inside (h : Inv tidOf s) {side : Side}
    (hin : s.latch.phase side ≠ .outside) : s.alive = true :=
  h.alive (by_contra fun ho => hin (h.outside ho side))

theorem Inv.latchStep (h : Inv tidOf s) (ha : s.alive = true)
    (m : MutexLock.Move Side CountDownLatch.Call Unit) :
    ∃ latch, s.latchStep tidOf m = .ok latch ∧
      (MutexLock.machine CountDownLatch.methods tidOf).step s.latch m = .ok latch := by
  obtain ⟨as, hr⟩ := h.latch
  obtain ⟨latch, hok⟩ := MutexLock.serving_ok (CountDownLatch.serving 1)
    CountDownLatch.new_counts hr m
  exact ⟨latch, by rw [Thread.latchStep, if_pos ha, hok], hok⟩

theorem Inv.extend (h : Inv tidOf s) {m : MutexLock.Move Side CountDownLatch.Call Unit}
    {latch : MutexLock Side CountDownLatch CountDownLatch.Call Unit}
    (he : (MutexLock.machine CountDownLatch.methods tidOf).enabled s.latch m)
    (hok : (MutexLock.machine CountDownLatch.methods tidOf).step s.latch m = .ok latch) :
    ∃ as, (MutexLock.machine CountDownLatch.methods tidOf).Run (.new (.new 1)) as latch := by
  obtain ⟨as, hr⟩ := h.latch
  exact ⟨as ++ [m], Machine.run_append.mpr ⟨s.latch, hr, .singleton he hok⟩⟩

theorem OwnerAt.leave {n : Nat} {o : Starter} (h : OwnerAt .through n o) : OwnerAt .idle n o := by
  cases o with
  | idle => cases h.1
  | returned => cases h.1
  | waiting =>
    rcases h with ⟨hp, _⟩ | ⟨_, hn⟩
    · cases hp
    · exact .inr ⟨.inr rfl, hn⟩

theorem ChildAt.leave {n : Nat} {c : Runner} (h : ChildAt .through n c) : ChildAt .idle n c := by
  cases c with
  | counting =>
    rcases h with ⟨hp, _⟩ | ⟨_, hn⟩
    · cases hp
    · exact .inr ⟨.inr rfl, hn⟩
  | _ => cases h.1

theorem OwnerAt.pending {c : CountDownLatch.Call} {n : Nat} {o : Starter}
    (h : OwnerAt (.pending c) n o) : o = .waiting ∧ c = .wait ∧ n = 0 := by
  cases o with
  | idle => cases h.1
  | returned => cases h.1
  | waiting =>
    rcases h with ⟨hp, hn⟩ | ⟨hp | hp, _⟩
    · cases hp
      exact ⟨rfl, rfl, hn⟩
    · cases hp
    · cases hp

theorem ChildAt.pending {call : CountDownLatch.Call} {n : Nat} {c : Runner}
    (h : ChildAt (.pending call) n c) : c = .counting ∧ call = .countDown ∧ n = 0 := by
  cases c with
  | counting =>
    rcases h with ⟨hp, hn⟩ | ⟨hp | hp, _⟩
    · cases hp
      exact ⟨rfl, rfl, hn⟩
    · cases hp
    · cases hp
  | _ => cases h.1

theorem ChildAt.counted {p : Progress CountDownLatch.Call} {n : Nat} {c : Runner}
    (h : ChildAt p n c) (hn : 0 < n) : p = .through ∨ p = .idle := by
  cases c with
  | counting =>
    rcases h with ⟨_, hz⟩ | ⟨hp, _⟩
    · exact absurd hz hn.ne'
    · exact hp
  | running => exact .inr h.1
  | finished => exact .inr h.1
  | _ => exact absurd h.2 hn.ne'

/-- The owner goes on in the latch: it is through only when the new thread is out of it. -/
theorem Inv.nextOwner (h : Inv tidOf s) {woken : Option Side}
    {latch : MutexLock Side CountDownLatch CountDownLatch.Call Unit}
    (hrun : ∃ as, (MutexLock.machine CountDownLatch.methods tidOf).Run (.new (.new 1)) as latch)
    (hok : (MutexLock.machine CountDownLatch.methods tidOf).step s.latch (.next .owner woken) =
      .ok latch) : Inv tidOf { s with latch } := by
  obtain ⟨hother, hdata⟩ := MutexLock.next_progress hok
  have hchild : latch.phase .child = s.latch.phase .child := hother .child Side.noConfusion
  have howner := h.ownerAt
  rcases hdata with ⟨hd, hp⟩ | ⟨c, hp, hholds, hwaits, hbody, hp'⟩
  · refine ⟨hrun, ?_, ?_, h.tid, h.handle, h.alive, ?_⟩
    · show OwnerAt (latch.phase .owner).progress latch.data.returned s.owner
      rw [hd]
      rcases hp with hp | ⟨hp, hp'⟩
      · rw [hp]
        exact howner
      · rw [hp] at howner
        rw [hp']
        exact howner.leave
    · show ChildAt (latch.phase .child).progress latch.data.downs s.child
      rw [hd, hchild]
      exact h.childAt
    · show 0 < latch.data.returned → (latch.phase .child).progress = .idle
      rw [hd, hchild]
      exact h.back
  · rw [hp] at howner
    obtain ⟨hwaiting, rfl, hreturned⟩ := howner.pending
    have hd : latch.data = { s.latch.data with returned := s.latch.data.returned + 1 } :=
      (Except.ok.inj hbody).symm
    have hdowns : 0 < s.latch.data.downs := by
      obtain ⟨as, hr⟩ := h.latch
      have hcount := (CountDownLatch.latch_counts hr).count
      have hopen : ¬ s.latch.data.count > 0 := by simpa [CountDownLatch.methods] using hwaits
      omega
    refine ⟨hrun, ?_, ?_, h.tid, h.handle, h.alive, fun _ => ?_⟩
    · show OwnerAt (latch.phase .owner).progress latch.data.returned s.owner
      rw [hp', hd, hwaiting]
      exact .inr ⟨.inl rfl, by rw [hreturned]⟩
    · show ChildAt (latch.phase .child).progress latch.data.downs s.child
      rw [hd, hchild]
      exact h.childAt
    · show (latch.phase .child).progress = .idle
      rw [hchild]
      -- The new thread has counted down, and the mutex is with the owner.
      rcases h.childAt.counted hdowns with hthrough | hidle
      · have hc := (h.held.held.owns .child).mp (Phase.holds_of_through hthrough)
        have ho := (h.held.held.owns .owner).mp hholds
        cases hc.symm.trans ho
      · exact hidle

/-- The new thread goes on in the latch. -/
theorem Inv.nextChild (h : Inv tidOf s) {woken : Option Side}
    {latch : MutexLock Side CountDownLatch CountDownLatch.Call Unit}
    (hrun : ∃ as, (MutexLock.machine CountDownLatch.methods tidOf).Run (.new (.new 1)) as latch)
    (hok : (MutexLock.machine CountDownLatch.methods tidOf).step s.latch (.next .child woken) =
      .ok latch) : Inv tidOf { s with latch } := by
  obtain ⟨hother, hdata⟩ := MutexLock.next_progress hok
  have howner : latch.phase .owner = s.latch.phase .owner := hother .owner Side.noConfusion
  have hchild := h.childAt
  rcases hdata with ⟨hd, hp⟩ | ⟨c, hp, _, _, hbody, hp'⟩
  · refine ⟨hrun, ?_, ?_, h.tid, h.handle, h.alive, ?_⟩
    · show OwnerAt (latch.phase .owner).progress latch.data.returned s.owner
      rw [hd, howner]
      exact h.ownerAt
    · show ChildAt (latch.phase .child).progress latch.data.downs s.child
      rw [hd]
      rcases hp with hp | ⟨hp, hp'⟩
      · rw [hp]
        exact hchild
      · rw [hp] at hchild
        rw [hp']
        exact hchild.leave
    · show 0 < latch.data.returned → (latch.phase .child).progress = .idle
      rw [hd]
      intro hr
      rcases hp with hp | ⟨_, hp'⟩
      · exact hp.trans (h.back hr)
      · exact hp'
  · rw [hp] at hchild
    obtain ⟨hcounting, rfl, hdowns⟩ := hchild.pending
    have hd : latch.data = { s.latch.data with
        count := s.latch.data.count - 1
        downs := s.latch.data.downs + 1 } := (Except.ok.inj hbody).symm
    refine ⟨hrun, ?_, ?_, h.tid, h.handle, h.alive, fun hr => ?_⟩
    · show OwnerAt (latch.phase .owner).progress latch.data.returned s.owner
      rw [hd, howner]
      exact h.ownerAt
    · show ChildAt (latch.phase .child).progress latch.data.downs s.child
      rw [hp', hd, hcounting]
      exact .inr ⟨.inl rfl, by rw [hdowns]⟩
    · have hr' : 0 < s.latch.data.returned := by
        have hr : 0 < latch.data.returned := hr
        rw [hd] at hr
        exact hr
      have hidle := h.back hr'
      rw [hp] at hidle
      cases hidle

theorem HandleAt.runner {started joined alive : Bool} {pthread : PthreadState} {c c' : Runner}
    {o : Starter} (h : HandleAt started joined alive pthread c o) (hc : c ≠ .absent)
    (hc' : c' ≠ .absent) : HandleAt started joined alive pthread c' o := by
  cases o with
  | idle => exact absurd h.2.2.2 hc
  | waiting => exact ⟨h.1, hc', h.2.2⟩
  | returned => exact ⟨h.1, hc', h.2.2⟩

theorem Inv.downs_of_returned (h : Inv tidOf s) (hr : 0 < s.latch.data.returned) :
    0 < s.latch.data.downs := by
  obtain ⟨as, hrun⟩ := h.latch
  have hcounts := CountDownLatch.latch_counts hrun
  have hcount := hcounts.count
  have hopen := hcounts.returned hr
  omega

/-- The owner waits for a thread that has not counted down. -/
theorem Inv.waits (h : Inv tidOf s) (hc : s.child = .created ∨ s.child = .stored) :
    s.owner = .waiting := by
  have hdowns : s.latch.data.downs = 0 := by
    have hchild := h.childAt
    rcases hc with hc | hc
    · rw [hc] at hchild
      exact hchild.2
    · rw [hc] at hchild
      exact hchild.2
  cases ho : s.owner with
  | waiting => rfl
  | idle =>
    have hhandle := h.handle
    rw [ho] at hhandle
    rcases hc with hc | hc
    · exact absurd (hc.symm.trans hhandle.2.2.2) Runner.noConfusion
    · exact absurd (hc.symm.trans hhandle.2.2.2) Runner.noConfusion
  | returned =>
    have howner := h.ownerAt
    rw [ho] at howner
    have hpos := h.downs_of_returned (by rw [howner.2]; exact Nat.one_pos)
    exact absurd hdowns hpos.ne'

theorem isOutside_iff {p : Phase CountDownLatch.Call Unit} : p.isOutside = true ↔ p = .outside := by
  cases p <;> simp [Phase.isOutside]

/-- The owner is back from the latch. -/
theorem Inv.back_in (h : Inv tidOf s) (hout : (s.latch.phase .owner).isOutside = true)
    (ho : s.owner = .waiting) :
    (s.latch.phase .owner).progress = .idle ∧ s.latch.data.returned = 1 := by
  have howner := h.ownerAt
  rw [isOutside_iff.mp hout, ho] at howner
  rcases howner with ⟨hp, _⟩ | ⟨_, hr⟩
  · cases hp
  · exact ⟨by rw [isOutside_iff.mp hout]; rfl, hr⟩

theorem Inv.tid_of_returned (h : Inv tidOf s) (hr : 0 < s.latch.data.returned) :
    s.tid = tidOf .child := by
  have hdowns := h.downs_of_returned hr
  have hchild := h.childAt
  have htid := h.tid
  cases hc : s.child with
  | absent =>
    rw [hc] at hchild
    exact absurd hchild.2 hdowns.ne'
  | created =>
    rw [hc] at hchild
    exact absurd hchild.2 hdowns.ne'
  | _ => rw [htid, hc, tidAt]

theorem Inv.start (h : Inv tidOf s) (ha : s.alive = true) (ho : s.owner = .idle) :
    ∃ s', step tidOf s .start = .ok s' ∧ Inv tidOf s' := by
  obtain ⟨hhandle, howner, hchild⟩ := (⟨h.handle, h.ownerAt, h.childAt⟩ : _ ∧ _ ∧ _)
  rw [ho] at hhandle howner
  obtain ⟨hstarted, hjoined, -, habsent⟩ := hhandle
  rw [habsent] at hchild
  have htid := h.tid
  rw [habsent] at htid
  obtain ⟨latch, hlatch, hok⟩ := h.latchStep ha (.call .owner .wait)
  have hout := h.outside (by rw [ho]; exact Starter.noConfusion) .owner
  have hrun := h.extend (by show (s.latch.phase .owner).isOutside = true; rw [hout]; rfl) hok
  refine ⟨{ s with
    started := true
    pthread := .joinable
    child := .created
    latch
    owner := .waiting }, ?_, hrun, ?_, ?_, htid, ?_, fun _ => ha, fun hr => ?_⟩
  · rw [step, assert_bind_true hstarted, hlatch]
    rfl
  · cases hok
    exact .inl ⟨rfl, howner.2⟩
  · cases hok
    exact ⟨hchild.1, hchild.2⟩
  · refine ⟨rfl, Runner.noConfusion, ?_⟩
    simp [hjoined, ha]
  · cases hok
    exact absurd howner.2 (ne_of_gt hr)

theorem Inv.startReturns (h : Inv tidOf s) (hpos : 0 < tidOf .child) (ho : s.owner = .waiting)
    (hout : (s.latch.phase .owner).isOutside = true) :
    ∃ s', step tidOf s .startReturns = .ok s' ∧ Inv tidOf s' := by
  obtain ⟨hidle, hreturned⟩ := h.back_in hout ho
  have htid := h.tid_of_returned (by rw [hreturned]; exact Nat.one_pos)
  have hhandle := h.handle
  rw [ho] at hhandle
  refine ⟨{ s with owner := .returned }, ?_, h.latch, ⟨hidle, hreturned⟩, h.childAt, h.tid,
    hhandle, fun hw => Starter.noConfusion hw, h.back⟩
  rw [step, assert_bind_true (by rw [htid]; exact hpos)]
  rfl

theorem Inv.storeTid (h : Inv tidOf s) (hc : s.child = .created) :
    ∃ s', step tidOf s .storeTid = .ok s' ∧ Inv tidOf s' := by
  have hchild := h.childAt
  rw [hc] at hchild
  have ha := h.alive (h.waits (.inl hc))
  refine ⟨{ s with
    tid := tidOf .child
    child := .stored }, ?_, h.latch, h.ownerAt, hchild, rfl, ?_, h.alive, h.back⟩
  · rw [step, if_pos ha]
    rfl
  · exact h.handle.runner (by rw [hc]; exact Runner.noConfusion) Runner.noConfusion

theorem Inv.countDown (h : Inv tidOf s) (hc : s.child = .stored) :
    ∃ s', step tidOf s .countDown = .ok s' ∧ Inv tidOf s' := by
  have hchild := h.childAt
  rw [hc] at hchild
  have htid := h.tid
  rw [hc] at htid
  have ha := h.alive (h.waits (.inr hc))
  obtain ⟨latch, hlatch, hok⟩ := h.latchStep ha (.call .child .countDown)
  have hout := Phase.outside_of_idle hchild.1
  have hrun := h.extend (by show (s.latch.phase .child).isOutside = true; rw [hout]; rfl) hok
  refine ⟨{ s with
    latch
    child := .counting }, ?_, hrun, ?_, ?_, htid, ?_, h.alive, fun hr => ?_⟩
  · rw [step, hlatch]
    rfl
  · cases hok
    exact h.ownerAt
  · cases hok
    exact .inl ⟨rfl, hchild.2⟩
  · exact h.handle.runner (by rw [hc]; exact Runner.noConfusion) Runner.noConfusion
  · cases hok
    have hdowns := h.downs_of_returned hr
    exact absurd hchild.2 hdowns.ne'

theorem Inv.destroyLatch (h : Inv tidOf s) (ho : s.owner ≠ .waiting) :
    s.destroyLatch = .ok () := by
  have hout := h.outside ho
  have hfree : s.latch.owner = none :=
    Option.eq_none_iff_forall_not_mem.mpr fun side hs => by
      have hholds := (h.held.held.owns side).mpr hs
      rw [hout side] at hholds
      cases hholds
  have hnone : ∀ side, ¬ (s.latch.conds ()).Blocks side := fun side hb => by
    obtain ⟨c, hph⟩ := (h.held.parked.blocked side ()).mp hb
    rw [hout side] at hph
    cases hph
  have hw : (s.latch.conds ()).waiting = ∅ :=
    Finset.eq_empty_of_forall_notMem fun side hs => hnone side (.inl hs)
  have ha : (s.latch.conds ()).awakened = ∅ :=
    Finset.eq_empty_of_forall_notMem fun side hs => hnone side (.inr hs)
  rw [Thread.destroyLatch, assert_bind_true ⟨hw, ha⟩, assert_bind_true (h.held.held.free hfree),
    assert_true hfree]

theorem Inv.countedDown (h : Inv tidOf s) (hc : s.child = .counting)
    (hout : (s.latch.phase .child).isOutside = true) :
    Inv tidOf { s with child := .running } := by
  have hchild := h.childAt
  rw [hc, isOutside_iff.mp hout] at hchild
  have htid := h.tid
  rw [hc] at htid
  refine ⟨h.latch, h.ownerAt, ?_, htid, ?_, h.alive, h.back⟩
  · rcases hchild with ⟨hp, _⟩ | ⟨_, hdowns⟩
    · cases hp
    · exact ⟨by rw [isOutside_iff.mp hout]; rfl, hdowns⟩
  · exact h.handle.runner (by rw [hc]; exact Runner.noConfusion) Runner.noConfusion

theorem Inv.finish (h : Inv tidOf s) (hc : s.child = .running) :
    Inv tidOf { s with child := .finished } := by
  have hchild := h.childAt
  rw [hc] at hchild
  have htid := h.tid
  rw [hc] at htid
  exact ⟨h.latch, h.ownerAt, hchild, htid,
    h.handle.runner (by rw [hc]; exact Runner.noConfusion) Runner.noConfusion, h.alive, h.back⟩

theorem Inv.join (h : Inv tidOf s) (ho : s.owner = .returned) (hj : s.joined = false) :
    ∃ s', step tidOf s .join = .ok s' ∧ Inv tidOf s' := by
  have hhandle := h.handle
  rw [ho] at hhandle
  refine ⟨{ s with
    joined := true
    pthread := .joined }, ?_, h.latch, h.ownerAt, h.childAt, h.tid, ?_, h.alive, h.back⟩
  · rw [step, assert_bind_true hhandle.1, assert_bind_true hj]
    rfl
  · show HandleAt s.started true s.alive .joined s.child s.owner
    rw [ho]
    exact ⟨hhandle.1, hhandle.2.1, rfl⟩

theorem Inv.destroy (h : Inv tidOf s) (ha : s.alive = true) (ho : s.owner ≠ .waiting) :
    ∃ s', step tidOf s .destroy = .ok s' ∧ Inv tidOf s' := by
  refine ⟨{ s with
    pthread := if s.started && !s.joined then .detached else s.pthread
    alive := false }, ?_, h.latch, h.ownerAt, h.childAt, h.tid, ?_, fun hw => absurd hw ho,
    h.back⟩
  · rw [step, h.destroyLatch ho]
    rfl
  · have hhandle := h.handle
    dsimp only
    cases hs : s.owner with
    | waiting => exact absurd hs ho
    | idle =>
      rw [hs] at hhandle
      refine ⟨hhandle.1, hhandle.2.1, ?_, hhandle.2.2.2⟩
      simp [hhandle.1, hhandle.2.2.1]
    | returned =>
      rw [hs, ha] at hhandle
      refine ⟨hhandle.1, hhandle.2.1, ?_⟩
      cases hj : s.joined with
      | false => simp [hhandle.1]
      | true => simp [hhandle.2.2, hj]

theorem Inv.next (h : Inv tidOf s) {side : Side} {woken : Option Side}
    (he : enabled tidOf s (.next side woken)) :
    ∃ s', step tidOf s (.next side woken) = .ok s' ∧ Inv tidOf s' := by
  have hin : s.latch.phase side ≠ .outside := fun hout => by
    simp [enabled, MutexLock.machine, MutexLock.enabled, MutexLock.Ready, hout] at he
  obtain ⟨latch, hlatch, hok⟩ := h.latchStep (h.alive_of_inside hin) (.next side woken)
  have hrun := h.extend he hok
  refine ⟨{ s with latch }, by rw [step, hlatch]; rfl, ?_⟩
  cases side with
  | owner => exact h.nextOwner hrun hok
  | child => exact h.nextChild hrun hok

theorem Inv.wakeup (h : Inv tidOf s) {side : Side} (he : enabled tidOf s (.wakeup side)) :
    ∃ s', step tidOf s (.wakeup side) = .ok s' ∧ Inv tidOf s' := by
  have hin : s.latch.phase side ≠ .outside := fun hout => by
    obtain ⟨c, hph⟩ := (h.held.parked.blocked side ()).mp (.inl he)
    rw [hout] at hph
    cases hph
  obtain ⟨latch, hlatch, hok⟩ := h.latchStep (h.alive_of_inside hin) (.wakeup side ())
  have hrun := h.extend he hok
  refine ⟨{ s with latch }, by rw [step, hlatch]; rfl, ?_⟩
  cases hok
  exact ⟨hrun, h.ownerAt, h.childAt, h.tid, h.handle, h.alive, h.back⟩

theorem step_spec (hpos : 0 < tidOf .child) (h : Inv tidOf s) {a : Step}
    (he : (machine tidOf).enabled s a) :
    ∃ s', (machine tidOf).step s a = .ok s' ∧ Inv tidOf s' := by
  cases a with
  | start => exact h.start he.1 he.2
  | startReturns => exact h.startReturns hpos he.1 he.2
  | storeTid => exact h.storeTid he
  | countDown => exact h.countDown he
  | countedDown => exact ⟨_, rfl, h.countedDown he.1 he.2⟩
  | finish => exact ⟨_, rfl, h.finish he⟩
  | join => exact h.join he.2.1 he.2.2.1
  | destroy => exact h.destroy he.1 he.2
  | next side woken => exact h.next he
  | wakeup side => exact h.wakeup he

theorem reachable_inv (hpos : 0 < tidOf .child) {as : List Step}
    (h : (machine tidOf).Run new as s) : Inv tidOf s := by
  refine h.invariant (fun s a s' hi he hs => ?_) new_inv
  obtain ⟨s'', hok, hi'⟩ := step_spec hpos hi he
  cases hs.symm.trans hok
  exact hi'

/-- `start()` does not hang: the owner, the new thread or the latch between them can go on. -/
theorem Inv.live (h : Inv tidOf s) (ho : s.owner = .waiting) :
    enabled tidOf s .startReturns ∨ enabled tidOf s .storeTid ∨ enabled tidOf s .countDown ∨
    ∃ side woken, enabled tidOf s (.next side woken) := by
  by_contra hnot
  obtain ⟨hback, hnot⟩ := not_or.mp hnot
  obtain ⟨hstore, hnot⟩ := not_or.mp hnot
  obtain ⟨hcount, hnext⟩ := not_or.mp hnot
  obtain ⟨as, hr⟩ := h.latch
  have hstuck := CountDownLatch.latch_stuck hr fun side woken hx => hnext ⟨side, woken, hx⟩
  have hdowns : s.latch.data.downs = 1 := by
    have hidle : (s.latch.phase .child).progress = .idle := by
      rcases hstuck .child with hout | ⟨hph, _⟩
      · rw [hout]
        rfl
      · have hchild := h.childAt
        rw [hph] at hchild
        cases hchild.pending.2.1
    have hchild := h.childAt
    rw [hidle] at hchild
    have hhandle := h.handle
    rw [ho] at hhandle
    cases hc : s.child with
    | absent => exact absurd hc hhandle.2.1
    | created => exact absurd hc hstore
    | stored => exact absurd hc hcount
    | counting =>
      rw [hc] at hchild
      rcases hchild with ⟨hp, _⟩ | ⟨_, hone⟩
      · cases hp
      · exact hone
    | running =>
      rw [hc] at hchild
      exact hchild.2
    | finished =>
      rw [hc] at hchild
      exact hchild.2
  rcases hstuck .owner with hout | ⟨_, hlt⟩
  · exact hback ⟨ho, by rw [hout]; rfl⟩
  · rw [hdowns] at hlt
    exact absurd hlt (lt_irrefl 1)

/-- In every interleaving of the owner and the new thread, no assertion fails and nothing
touches the object after its destructor. When `start()` has returned, `tid_` is the new
thread's; until then one of the two can go on; and when the object is gone, the thread is joined
or detached exactly if it was started. -/
theorem start_safe (hpos : 0 < tidOf .child) {as : List Step}
    (h : (machine tidOf).Run new as s) :
    (∀ a, (machine tidOf).enabled s a → ∃ s', (machine tidOf).step s a = .ok s') ∧
    (s.owner = .returned → s.tid = tidOf .child ∧ ∀ side, s.latch.phase side = .outside) ∧
    (s.owner = .waiting → ∃ a, (machine tidOf).enabled s a ∧ ∀ side, a ≠ .wakeup side) ∧
    (s.alive = false → s.pthread = if s.started = true then
      if s.joined = true then .joined else .detached else .none) := by
  have hi := reachable_inv hpos h
  refine ⟨fun a he => ?_, fun ho => ?_, fun ho => ?_, fun ha => ?_⟩
  · obtain ⟨s', hok, _⟩ := step_spec hpos hi he
    exact ⟨s', hok⟩
  · have howner := hi.ownerAt
    rw [ho] at howner
    exact ⟨hi.tid_of_returned (by rw [howner.2]; exact Nat.one_pos),
      hi.outside (by rw [ho]; exact Starter.noConfusion)⟩
  · rcases hi.live ho with he | he | he | ⟨side, woken, he⟩
    · exact ⟨.startReturns, he, fun _ hx => by cases hx⟩
    · exact ⟨.storeTid, he, fun _ hx => by cases hx⟩
    · exact ⟨.countDown, he, fun _ hx => by cases hx⟩
    · exact ⟨.next side woken, he, fun _ hx => by cases hx⟩
  · have hhandle := hi.handle
    rw [ha] at hhandle
    cases ho : s.owner with
    | waiting => exact absurd (hi.alive ho) (by rw [ha]; exact Bool.false_ne_true)
    | idle =>
      rw [ho] at hhandle
      simp [hhandle.1, hhandle.2.2.1]
    | returned =>
      rw [ho] at hhandle
      simp [hhandle.1, hhandle.2.2]

/-- The owner waits first, and destroys the object as soon as `start()` has returned. -/
theorem start_safe_sample : ∃ s : Thread, (machine fun side => if side = .owner then 1 else 2).Run new [.start,
      .next .owner none, .next .owner none, .next .owner none, .next .owner none, .storeTid,
      .countDown, .next .child none, .next .child none, .next .child none, .next .child none,
      .next .child none, .next .owner none, .next .owner none, .next .owner none,
      .next .owner none, .next .owner none, .startReturns, .destroy, .countedDown, .finish] s ∧
    (s.owner = .returned → s.tid = 2 ∧ ∀ side, s.latch.phase side = .outside) ∧
    s.pthread = .detached := by
  obtain ⟨s, hr, hs⟩ := (machine fun side => if side = .owner then 1 else 2).exists_run new [.start,
      .next .owner none, .next .owner none, .next .owner none, .next .owner none, .storeTid,
      .countDown, .next .child none, .next .child none, .next .child none, .next .child none,
      .next .child none, .next .owner none, .next .owner none, .next .owner none,
      .next .owner none, .next .owner none, .startReturns, .destroy, .countedDown, .finish]
    pthread .detached (by decide +kernel)
  exact ⟨s, hr, (start_safe (by decide) hr).2.1, hs⟩

end Thread
end Muduo.Base
