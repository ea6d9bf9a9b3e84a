import Muduo.Base.Monitor

/-! `muduo::MutexLock`, `MutexLockGuard` and `Condition::wait` step by step: between any two
steps of one thread, the others may take theirs. -/
namespace Muduo.Base
open Muduo.Support

/-- Where a thread is in a method. `after` is the condition it has last waited for. -/
inductive Phase (γ κ : Type) where
  | outside
  /-- In `pthread_mutex_lock`. -/
  | entering (c : γ)
  /-- With the mutex, before `assignHolder`. -/
  | entered (c : γ)
  /-- At the test of its loop, inside the guard. -/
  | testing (c : γ) (after : Option κ)
  /-- In `wait()`, behind the constructor of the `UnassignGuard`. -/
  | suspending (c : γ) (k : κ) (after : Option κ)
  /-- In `pthread_cond_wait`. -/
  | blocked (c : γ) (k : κ)
  /-- Behind `pthread_cond_wait`, before the destructor of the `UnassignGuard`. -/
  | resumed (c : γ) (k : κ)
  /-- Done, before the destructor of the `MutexLockGuard`. -/
  | leaving
  /-- In `unlock()`, behind `unassignHolder`. -/
  | released

/-- How far a call is. -/
inductive Progress (γ : Type) where
  | idle
  | pending (c : γ)
  /-- Decided, and not back from the destructor of the `MutexLockGuard`. -/
  | through
  deriving DecidableEq

namespace Phase
variable {γ κ : Type}

/-- The thread has the `pthread_mutex_t`. -/
def holds : Phase γ κ → Bool
  | .entered _ | .testing .. | .suspending .. | .resumed .. | .leaving | .released => true
  | .outside | .entering _ | .blocked .. => false

/-- The thread is between `lock()` and `unlock()`, and not in `wait()`. -/
def inside : Phase γ κ → Bool
  | .testing .. | .leaving => true
  | .outside | .entering _ | .entered _ | .suspending .. | .blocked .. | .resumed ..
  | .released => false

/-- The call that the thread has waited in, until it is decided. -/
def waited : Phase γ κ → Option γ
  | .blocked c _ | .resumed c _ | .testing c (some _) | .suspending c _ (some _) => some c
  | .testing _ none | .suspending _ _ none | .outside | .entering _ | .entered _ | .leaving
  | .released => none

/-- The condition whose wakeup the thread has not answered yet. -/
def pending : Phase γ κ → Option κ
  | .resumed _ k => some k
  | .testing _ after | .suspending _ _ after => after
  | .outside | .entering _ | .entered _ | .blocked .. | .leaving | .released => none

def isOutside : Phase γ κ → Bool
  | .outside => true
  | .entering _ | .entered _ | .testing .. | .suspending .. | .blocked .. | .resumed .. | .leaving
  | .released => false

def progress : Phase γ κ → Progress γ
  | .outside => .idle
  | .entering c | .entered c | .testing c _ | .suspending c _ _ | .blocked c _ | .resumed c _ =>
      .pending c
  | .leaving | .released => .through

/-- A phase other than `blocked`. -/
def free : Phase γ κ → Bool
  | .blocked .. => false
  | .outside | .entering _ | .entered _ | .testing .. | .suspending .. | .resumed .. | .leaving
  | .released => true

variable {q : Phase γ κ}

theorem holds_of_through (h : q.progress = .through) : q.holds = true := by
  cases q <;> first | rfl | cases h

theorem outside_of_idle (h : q.progress = .idle) : q = .outside := by
  cases q <;> first | rfl | cases h

end Phase

/-- An object with its mutex: `owner` has the `pthread_mutex_t`, `holder` is `holder_`. -/
structure MutexLock (T σ γ κ : Type) where
  data : σ
  conds : κ → Condition T
  owner : Option T
  holder : Nat
  phase : T → Phase γ κ

namespace MutexLock
variable {T σ γ κ : Type}

def new (data : σ) : MutexLock T σ γ κ := ⟨data, fun _ => .new, none, 0, fun _ => .outside⟩

section Steps
variable [DecidableEq T] [DecidableEq κ] (M : Methods σ γ κ) (tid : T → Nat)

/-- `isLockedByThisThread()`, called by `t`. -/
def isLockedByThisThread (s : MutexLock T σ γ κ) (t : T) : Bool := s.holder = tid t

def goto (s : MutexLock T σ γ κ) (t : T) (phase : Phase γ κ) : MutexLock T σ γ κ :=
  { s with phase := Function.update s.phase t phase }

def assignHolder (s : MutexLock T σ γ κ) (t : T) : MutexLock T σ γ κ := { s with holder := tid t }

def unassignHolder (s : MutexLock T σ γ κ) : MutexLock T σ γ κ := { s with holder := 0 }

/-- The next step of a thread in a method; `woken` is whom `notify()` wakes. -/
inductive Move (T γ κ : Type) where
  | call (t : T) (c : γ)
  | next (t : T) (woken : Option T)
  /-- A spurious wakeup. -/
  | wakeup (t : T) (k : κ)

/-- The thread may go on from where it is: it gets a mutex that is free, and wakes a thread
that there is to wake. -/
def Ready (s : MutexLock T σ γ κ) (t : T) (woken : Option T) : Phase γ κ → Prop
  | .outside => False
  | .entering _ => s.owner = none
  | .blocked _ k => t ∈ (s.conds k).awakened ∧ s.owner = none
  | .testing c _ => Monitor.Wakes M s.conds c s.data woken
  | .entered _ | .suspending .. | .resumed .. | .leaving | .released => True

def enabled (s : MutexLock T σ γ κ) : Move T γ κ → Prop
  | .call t _ => (s.phase t).isOutside = true
  | .next t woken => s.Ready M t woken (s.phase t)
  | .wakeup t k => t ∈ (s.conds k).waiting

/-- The body of a loop, or what stands behind it. -/
def test (s : MutexLock T σ γ κ) (t : T) (c : γ) (after : Option κ) (woken : Option T) :
    Except Fault (MutexLock T σ γ κ) :=
  match M.waits c s.data with
  | some k => return s.unassignHolder.goto t (.suspending c k after)
  | none => do
      let data ← M.body c s.data
      return { s with
        data
        conds := Monitor.notified s.conds woken (M.notifies c data)
        phase := Function.update s.phase t .leaving }

def step (s : MutexLock T σ γ κ) : Move T γ κ → Except Fault (MutexLock T σ γ κ)
  | .call t c => return s.goto t (.entering c)
  | .next t woken => match s.phase t with
    | .outside => return s
    | .entering c => return { s with owner := some t }.goto t (.entered c)
    | .entered c => return (s.assignHolder tid t).goto t (.testing c none)
    | .testing c after => s.test M t c after woken
    | .suspending c k _ => return { s with
        conds := Function.update s.conds k ((s.conds k).wait t)
        owner := none }.goto t (.blocked c k)
    | .blocked c k => return { s with
        conds := Function.update s.conds k ((s.conds k).relock t)
        owner := some t }.goto t (.resumed c k)
    | .resumed c k => return (s.assignHolder tid t).goto t (.testing c (some k))
    | .leaving => return s.unassignHolder.goto t .released
    | .released => return { s with owner := none }.goto t .outside
  | .wakeup t k => return { s with conds := Function.update s.conds k ((s.conds k).wake t) }

def machine : Machine (MutexLock T σ γ κ) (Move T γ κ) := ⟨enabled M, step M tid⟩

instance readyDecidable (s : MutexLock T σ γ κ) (t : T) (woken : Option T) :
    (q : Phase γ κ) → Decidable (s.Ready M t woken q)
  | .outside => isFalse id
  | .entering _ => inferInstanceAs (Decidable (s.owner = none))
  | .blocked _ k => inferInstanceAs (Decidable (t ∈ (s.conds k).awakened ∧ s.owner = none))
  | .testing c _ => inferInstanceAs (Decidable (Monitor.Wakes M s.conds c s.data woken))
  | .entered _ | .suspending .. | .resumed .. | .leaving | .released => isTrue trivial

instance enabledDecidable (s : MutexLock T σ γ κ) :
    (a : Move T γ κ) → Decidable ((machine M tid).enabled s a)
  | .call t _ => inferInstanceAs (Decidable ((s.phase t).isOutside = true))
  | .next t woken => inferInstanceAs (Decidable (s.Ready M t woken (s.phase t)))
  | .wakeup t k => inferInstanceAs (Decidable (t ∈ (s.conds k).waiting))

end Steps

/-- The mutex belongs to the thread that is at a place where it has it, and `holder_` names
that thread just while it is inside. -/
structure Held (tid : T → Nat) (s : MutexLock T σ γ κ) : Prop where
  owns : ∀ t, (s.phase t).holds = true ↔ s.owner = some t
  free : s.owner = none → s.holder = 0
  named : ∀ t, s.owner = some t → s.holder = if (s.phase t).inside = true then tid t else 0

/-- The threads in `pthread_cond_wait` are those that the conditions have. -/
structure Parked (s : MutexLock T σ γ κ) : Prop where
  blocked : ∀ t k, (s.conds k).Blocks t ↔ ∃ c, s.phase t = .blocked c k
  disjoint : ∀ k, Disjoint (s.conds k).waiting (s.conds k).awakened

structure Inv (M : Methods σ γ κ) (tid : T → Nat) (s : MutexLock T σ γ κ) : Prop where
  held : Held tid s
  parked : Parked s
  suspended : ∀ t c k after, s.phase t = .suspending c k after → M.waits c s.data = some k

variable {M : Methods σ γ κ} {tid : T → Nat} {s s' : MutexLock T σ γ κ} {t : T} {q : Phase γ κ}

theorem new_inv (data : σ) : Inv M tid (new data : MutexLock T σ γ κ) where
  held := ⟨fun _ => iff_of_false Bool.false_ne_true (Option.some_ne_none _).symm, fun _ => rfl,
    fun t h => absurd h (Option.some_ne_none t).symm⟩
  parked := ⟨fun t k => by simp [new, Condition.new, Condition.Blocks],
    fun _ => Finset.disjoint_empty_left _⟩
  suspended _ _ _ _ h := by cases h

theorem Held.locked (h : Held tid s) (hpos : ∀ t, tid t ≠ 0) (hinj : Function.Injective tid)
    (t : T) : s.isLockedByThisThread tid t = true ↔ (s.phase t).inside = true := by
  have hinside : (s.phase t).inside = true → (s.phase t).holds = true := by
    cases s.phase t <;> simp [Phase.inside, Phase.holds]
  rw [isLockedByThisThread, decide_eq_true_eq]
  constructor
  · intro hh
    cases ho : s.owner with
    | none =>
      rw [h.free ho] at hh
      exact absurd hh.symm (hpos t)
    | some u =>
      rw [h.named u ho] at hh
      split at hh
      · next hu =>
        obtain rfl := hinj hh
        exact hu
      · exact absurd hh.symm (hpos t)
  · intro hi
    rw [h.named t ((h.owns t).mp (hinside hi)), if_pos hi]

section Invariant
variable [DecidableEq T]

/-- The thread has the mutex, or gets it. -/
theorem Held.take (h : Held tid s) (hs : s.owner = some t ∨ s.owner = none)
    (hq : q.holds = true) (hp : s'.phase = Function.update s.phase t q)
    (ho : s'.owner = some t) (hh : s'.holder = if q.inside = true then tid t else 0) :
    Held tid s' where
  owns u := by
    rw [hp, ho]
    by_cases hu : u = t
    · subst hu
      rw [Function.update_self]
      exact iff_of_true hq rfl
    · rw [Function.update_of_ne hu, h.owns u]
      refine iff_of_false (fun hx => ?_) fun hx => hu (Option.some.inj hx).symm
      rcases hs with hs | hs <;> rw [hs] at hx <;> cases hx
      exact hu rfl
  free hn := by
    rw [ho] at hn
    cases hn
  named u hu := by
    rw [ho] at hu
    cases hu
    rw [hp, Function.update_self]
    exact hh

/-- The thread gives the mutex up. -/
theorem Held.give (h : Held tid s) (hs : s.owner = some t) (hi : (s.phase t).inside = false)
    (hq : q.holds = false) (hp : s'.phase = Function.update s.phase t q)
    (ho : s'.owner = none) (hh : s'.holder = s.holder) : Held tid s' where
  owns u := by
    rw [hp, ho]
    refine iff_of_false ?_ (Option.some_ne_none u).symm
    by_cases hu : u = t
    · subst hu
      rw [Function.update_self, hq]
      exact Bool.false_ne_true
    · rw [Function.update_of_ne hu, h.owns u, hs]
      exact fun hx => hu (Option.some.inj hx).symm
  free _ := by
    rw [hh, h.named t hs, hi, if_neg Bool.false_ne_true]
  named u hu := by
    rw [ho] at hu
    cases hu

/-- The thread is not at the mutex. -/
theorem Held.aside (h : Held tid s) (hs : (s.phase t).holds = false) (hq : q.holds = false)
    (hp : s'.phase = Function.update s.phase t q) (ho : s'.owner = s.owner)
    (hh : s'.holder = s.holder) : Held tid s' where
  owns u := by
    rw [hp, ho]
    by_cases hu : u = t
    · subst hu
      rw [Function.update_self, ← h.owns u, hs, hq]
    · rw [Function.update_of_ne hu, h.owns u]
  free hn := by
    rw [hh]
    exact h.free (ho.symm.trans hn)
  named u hu := by
    rw [ho] at hu
    have hne : u ≠ t := by
      rintro rfl
      rw [← h.owns u, hs] at hu
      cases hu
    rw [hp, Function.update_of_ne hne, hh]
    exact h.named u hu

/-- The thread goes on, and nobody else is blocked or unblocked. -/
theorem Parked.keep (h : Parked s) (hs : ∀ c k, s.phase t ≠ .blocked c k)
    (hq : ∀ c k, q ≠ .blocked c k) (hp : s'.phase = Function.update s.phase t q)
    (hc : ∀ k u, (s'.conds k).Blocks u ↔ (s.conds k).Blocks u)
    (hd : ∀ k, Disjoint (s'.conds k).waiting (s'.conds k).awakened) : Parked s' where
  blocked u k := by
    rw [hc, h.blocked, hp]
    by_cases hu : u = t
    · subst hu
      rw [Function.update_self]
      exact iff_of_false (fun ⟨c, hx⟩ => hs c k hx) fun ⟨c, hx⟩ => hq c k hx
    · rw [Function.update_of_ne hu]
  disjoint := hd

/-- A thread that is deciding has the mutex, so the data that another has tested stay. -/
theorem Inv.suspend (h : Inv M tid s) (hp : s'.phase = Function.update s.phase t q)
    (hq : ∀ c k after, q = .suspending c k after → M.waits c s'.data = some k)
    (hd : s'.data = s.data ∨ s.owner = some t) (u : T) (c : γ) (k : κ) (after : Option κ)
    (hu : s'.phase u = .suspending c k after) : M.waits c s'.data = some k := by
  rw [hp] at hu
  by_cases hut : u = t
  · subst hut
    rw [Function.update_self] at hu
    exact hq c k after hu
  · rw [Function.update_of_ne hut] at hu
    have howner := (h.held.owns u).mp (by rw [hu]; rfl)
    rcases hd with hd | hd
    · rw [hd]
      exact h.suspended u c k after hu
    · rw [howner] at hd
      exact absurd (Option.some.inj hd) hut

variable [DecidableEq κ]

theorem Inv.test (h : Inv M tid s) {c : γ} {after : Option κ} (hph : s.phase t = .testing c after)
    {woken : Option T} (hw : Monitor.Wakes M s.conds c s.data woken)
    (hok : s.test M t c after woken = .ok s') : Inv M tid s' := by
  have howner := (h.held.owns t).mp (by rw [hph]; rfl)
  rw [MutexLock.test] at hok
  split at hok
  · next k hk =>
    cases hok
    refine ⟨h.held.take (.inl howner) rfl rfl howner rfl,
      h.parked.keep (fun _ _ hx => ?_) (fun _ _ hx => ?_) rfl (fun _ _ => Iff.rfl)
        h.parked.disjoint,
      h.suspend rfl (fun c' k' after' hx => ?_) (.inl rfl)⟩
    · rw [hph] at hx
      cases hx
    · cases hx
    · cases hx
      exact hk
  · next hnone =>
    obtain ⟨data, hdata, hok⟩ := bind_ok.mp hok
    cases hok
    have hreach := hw data hnone hdata
    refine ⟨h.held.take (.inl howner) rfl rfl howner ?_,
      h.parked.keep (fun _ _ hx => ?_) (fun _ _ hx => ?_) rfl (Monitor.notified_blocks hreach)
        (Monitor.notified_disjoint h.parked.disjoint),
      h.suspend rfl (fun c' k' after' hx => by cases hx) (.inr howner)⟩
    · rw [h.held.named t howner, hph]
      rfl
    · rw [hph] at hx
      cases hx
    · cases hx

omit [DecidableEq κ] in
/-- A step of a thread that does not touch the data or the conditions. -/
theorem Inv.goto (h : Inv M tid s) {owner : Option T} {holder : Nat}
    (hheld : Held tid ({ s with
      owner
      holder
      phase := Function.update s.phase t q } : MutexLock T σ γ κ))
    (hs : Phase.free (s.phase t) = true) (hq : Phase.free q = true)
    (hn : ∀ c k after, q ≠ .suspending c k after) : Inv M tid ({ s with
      owner
      holder
      phase := Function.update s.phase t q } : MutexLock T σ γ κ) where
  held := hheld
  parked := h.parked.keep (fun _ _ hx => by rw [hx] at hs; cases hs)
    (fun _ _ hx => by rw [hx] at hq; cases hq) rfl (fun _ _ => Iff.rfl) h.parked.disjoint
  suspended := h.suspend rfl (fun c k after hx => absurd hx (hn c k after)) (.inl rfl)

omit [DecidableEq T] in
/-- One condition changes, and the threads blocked in it as the step says. -/
theorem Parked.change (h : Parked s) {k : κ} {cond : Condition T}
    (hc : s'.conds = Function.update s.conds k cond)
    (hd : Disjoint cond.waiting cond.awakened)
    (hb : ∀ u, cond.Blocks u ↔ ∃ c, s'.phase u = .blocked c k)
    (ho : ∀ u j, j ≠ k → ((∃ c, s'.phase u = .blocked c j) ↔ ∃ c, s.phase u = .blocked c j)) :
    Parked s' where
  blocked u j := by
    rw [hc]
    by_cases hj : j = k
    · subst hj
      rw [Function.update_self]
      exact hb u
    · rw [Function.update_of_ne hj, ho u j hj]
      exact h.blocked u j
  disjoint j := by
    rw [hc]
    by_cases hj : j = k
    · subst hj
      rw [Function.update_self]
      exact hd
    · rw [Function.update_of_ne hj]
      exact h.disjoint j

theorem Inv.condWait (h : Inv M tid s) {c : γ} {k : κ} {after : Option κ}
    (hph : s.phase t = .suspending c k after) : Inv M tid ({ s with
      conds := Function.update s.conds k ((s.conds k).wait t)
      owner := none
      phase := Function.update s.phase t (.blocked c k) } : MutexLock T σ γ κ) where
  held := h.held.give ((h.held.owns t).mp (by rw [hph]; rfl)) (by rw [hph]; rfl) rfl rfl rfl rfl
  parked := by
    have hnot : ¬ (s.conds k).Blocks t := fun hb => by
      obtain ⟨c', hx⟩ := (h.parked.blocked t k).mp hb
      rw [hph] at hx
      cases hx
    refine h.parked.change rfl (Condition.wait_disjoint (h.parked.disjoint k) hnot)
      (fun u => ?_) fun u j hj => ?_
    · rw [Condition.blocks_wait, h.parked.blocked u k]
      by_cases hu : u = t
      · subst hu
        simp
      · simp [hu]
    · by_cases hu : u = t
      · subst hu
        simp [hph, Ne.symm hj]
      · simp [Function.update_of_ne hu]
  suspended := h.suspend rfl (fun c' k' after' hx => by cases hx) (.inl rfl)

theorem Inv.relock (h : Inv M tid s) {c : γ} {k : κ} (hph : s.phase t = .blocked c k)
    (ht : t ∈ (s.conds k).awakened) (hfree : s.owner = none) : Inv M tid ({ s with
      conds := Function.update s.conds k ((s.conds k).relock t)
      owner := some t
      phase := Function.update s.phase t (.resumed c k) } : MutexLock T σ γ κ) where
  held := h.held.take (.inr hfree) rfl rfl rfl (h.held.free hfree)
  parked := by
    refine h.parked.change rfl (Condition.relock_disjoint (h.parked.disjoint k)) (fun u => ?_)
      fun u j hj => ?_
    · rw [Condition.blocks_relock (h.parked.disjoint k) ht, h.parked.blocked u k]
      by_cases hu : u = t
      · subst hu
        simp
      · simp [hu]
    · by_cases hu : u = t
      · subst hu
        simp [hph, Ne.symm hj]
      · simp [Function.update_of_ne hu]
  suspended := h.suspend rfl (fun c' k' after' hx => by cases hx) (.inl rfl)

theorem Inv.wakeup (h : Inv M tid s) {k : κ} (ht : t ∈ (s.conds k).waiting) : Inv M tid ({ s with
      conds := Function.update s.conds k ((s.conds k).wake t) } : MutexLock T σ γ κ) where
  held := ⟨h.held.owns, h.held.free, h.held.named⟩
  parked := h.parked.change rfl (Condition.wake_disjoint (h.parked.disjoint k))
    (fun u => (Condition.blocks_wake ht).trans (h.parked.blocked u k)) fun _ _ _ => Iff.rfl
  suspended := h.suspended

theorem step_inv (s : MutexLock T σ γ κ) (a : Move T γ κ) (s' : MutexLock T σ γ κ)
    (h : Inv M tid s) (he : (machine M tid).enabled s a) (hok : (machine M tid).step s a = .ok s') :
    Inv M tid s' := by
  cases a with
  | call t c =>
    cases hok
    cases hph : s.phase t with
    | outside =>
      refine h.goto ?_ (by rw [hph]; rfl) rfl fun _ _ _ hx => by cases hx
      exact h.held.aside (by rw [hph]; rfl) rfl rfl rfl rfl
    | _ => simp [machine, enabled, Phase.isOutside, hph] at he
  | next t woken =>
    have howns : (s.phase t).holds = true → s.owner = some t := (h.held.owns t).mp
    cases hph : s.phase t with
    | outside => simp [machine, enabled, Ready, hph] at he
    | entering c =>
      simp only [machine, enabled, Ready, step, hph] at he hok
      cases hok
      refine h.goto (h.held.take (.inr he) rfl rfl rfl ?_) (by rw [hph]; rfl) rfl
        fun _ _ _ hx => by cases hx
      exact h.held.free he
    | entered c =>
      simp only [machine, step, hph] at hok
      cases hok
      have howner := howns (by rw [hph]; rfl)
      exact h.goto (h.held.take (.inl howner) rfl rfl howner rfl) (by rw [hph]; rfl) rfl
        fun _ _ _ hx => by cases hx
    | testing c after =>
      simp only [machine, enabled, Ready, step, hph] at he hok
      exact h.test hph he hok
    | suspending c k after =>
      simp only [machine, step, hph] at hok
      cases hok
      exact h.condWait hph
    | blocked c k =>
      simp only [machine, enabled, Ready, step, hph] at he hok
      cases hok
      exact h.relock hph he.1 he.2
    | resumed c k =>
      simp only [machine, step, hph] at hok
      cases hok
      have howner := howns (by rw [hph]; rfl)
      exact h.goto (h.held.take (.inl howner) rfl rfl howner rfl) (by rw [hph]; rfl) rfl
        fun _ _ _ hx => by cases hx
    | leaving =>
      simp only [machine, step, hph] at hok
      cases hok
      have howner := howns (by rw [hph]; rfl)
      exact h.goto (h.held.take (.inl howner) rfl rfl howner rfl) (by rw [hph]; rfl) rfl
        fun _ _ _ hx => by cases hx
    | released =>
      simp only [machine, step, hph] at hok
      cases hok
      have howner := howns (by rw [hph]; rfl)
      exact h.goto (h.held.give howner (by rw [hph]; rfl) rfl rfl rfl rfl) (by rw [hph]; rfl) rfl
        fun _ _ _ hx => by cases hx
  | wakeup t k =>
    cases hok
    exact h.wakeup he

end Invariant

section Progress
variable [DecidableEq T] [DecidableEq κ]

/-- A step of a thread leaves the others where they are. The data stay, unless the thread has
the mutex and does the work of its call. -/
theorem next_progress {woken : Option T}
    (hok : (machine M tid).step s (.next t woken) = .ok s') :
    (∀ u, u ≠ t → s'.phase u = s.phase u) ∧
    (s'.data = s.data ∧ ((s'.phase t).progress = (s.phase t).progress ∨
        (s.phase t).progress = .through ∧ (s'.phase t).progress = .idle) ∨
      ∃ c, (s.phase t).progress = .pending c ∧ (s.phase t).holds = true ∧
        M.waits c s.data = none ∧ M.body c s.data = .ok s'.data ∧
        (s'.phase t).progress = .through) := by
  have hother : ∀ q : Phase γ κ, ∀ u, u ≠ t → Function.update s.phase t q u = s.phase u :=
    fun q u hu => Function.update_of_ne hu q s.phase
  have hself : ∀ q : Phase γ κ, (Function.update s.phase t q t).progress = q.progress :=
    fun q => congrArg Phase.progress (Function.update_self t q s.phase)
  cases hph : s.phase t with
  | outside =>
    simp only [machine, step, hph] at hok
    cases hok
    exact ⟨fun _ _ => rfl, .inl ⟨rfl, .inl (by rw [hph])⟩⟩
  | testing c after =>
    simp only [machine, step, hph, test] at hok
    split at hok
    · cases hok
      exact ⟨hother _, .inl ⟨rfl, .inl (hself _)⟩⟩
    · next hnone =>
      obtain ⟨data, hdata, hok⟩ := bind_ok.mp hok
      cases hok
      exact ⟨hother _, .inr ⟨c, rfl, rfl, hnone, hdata, hself _⟩⟩
  | released =>
    simp only [machine, step, hph] at hok
    cases hok
    exact ⟨hother _, .inl ⟨rfl, .inr ⟨rfl, hself _⟩⟩⟩
  | _ =>
    simp only [machine, step, hph] at hok
    cases hok
    exact ⟨hother _, .inl ⟨rfl, .inl (hself _)⟩⟩

end Progress

end MutexLock
end Muduo.Base
