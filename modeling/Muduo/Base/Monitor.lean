import Mathlib.Data.ENat.Basic
import Mathlib.Logic.Function.Basic
import Muduo.Base.Condition
import Muduo.Support.Machine

/-! The methods of an object that has one mutex: each takes a `MutexLockGuard`, waits in a
loop for what it needs, does its work and notifies. A step is what one thread does from the
moment it gets the mutex until it gives it up. -/
namespace Muduo.Base
open Muduo.Support

inductive Notification (κ : Type) where
  | notify (k : κ)
  | notifyAll (k : κ)
  deriving DecidableEq

/-- What the methods `γ` do to the data `σ` of the object. -/
structure Methods (σ γ κ : Type) where
  /-- The condition that the loop of a method waits for. -/
  waits : γ → σ → Option κ
  body : γ → σ → Except Fault σ
  /-- Whom a method notifies, by the data that it leaves. -/
  notifies : γ → σ → Option (Notification κ)

/-- The data, and who is blocked in which call. -/
structure Monitor (T σ γ κ : Type) where
  data : σ
  conds : κ → Condition T
  call : T → Option γ

namespace Monitor
variable {T σ γ κ : Type}

def new (data : σ) : Monitor T σ γ κ := ⟨data, fun _ => .new, fun _ => none⟩

/-- `notify()` wakes a waiting thread if there is one. -/
def Reaches (conds : κ → Condition T) (woken : Option T) : Option (Notification κ) → Prop
  | some (.notify k) => (conds k).Signals woken
  | some (.notifyAll _) | none => True

/-- Only the threads that no signal reached count. -/
theorem Reaches.congr {conds conds' : κ → Condition T} {woken : Option T}
    {n : Option (Notification κ)} (h : ∀ k, (conds' k).waiting = (conds k).waiting)
    (hr : Reaches conds woken n) : Reaches conds' woken n := by
  cases n with
  | none => trivial
  | some n =>
    cases n with
    | notifyAll k => trivial
    | notify k =>
      cases woken with
      | none => exact (h k).trans hr
      | some u =>
        show u ∈ (conds' k).waiting
        rw [h k]
        exact hr

theorem exists_reaches (conds : κ → Condition T) (n : Option (Notification κ)) :
    ∃ woken, Reaches conds woken n := by
  cases n with
  | none => exact ⟨none, trivial⟩
  | some n =>
    cases n with
    | notifyAll k => exact ⟨none, trivial⟩
    | notify k =>
      rcases (conds k).waiting.eq_empty_or_nonempty with he | ⟨u, hu⟩
      · exact ⟨none, he⟩
      · exact ⟨some u, hu⟩

variable [DecidableEq T] [DecidableEq κ]

def notified (conds : κ → Condition T) (woken : Option T) :
    Option (Notification κ) → κ → Condition T
  | some (.notify k) => Function.update conds k ((conds k).notify woken)
  | some (.notifyAll k) => Function.update conds k (conds k).notifyAll
  | none => conds

section Notified
variable {conds : κ → Condition T} {woken : Option T} {n : Option (Notification κ)}

theorem notified_blocks (hw : Reaches conds woken n) (k : κ) (u : T) :
    (notified conds woken n k).Blocks u ↔ (conds k).Blocks u := by
  cases n with
  | none => exact Iff.rfl
  | some n =>
    cases n with
    | notify j =>
      by_cases hk : k = j
      · subst hk
        rw [notified, Function.update_self]
        exact Condition.blocks_notify hw
      · rw [notified, Function.update_of_ne hk]
    | notifyAll j =>
      by_cases hk : k = j
      · subst hk
        rw [notified, Function.update_self]
        exact Condition.blocks_notifyAll
      · rw [notified, Function.update_of_ne hk]

theorem notified_disjoint (hd : ∀ k, Disjoint (conds k).waiting (conds k).awakened) (k : κ) :
    Disjoint (notified conds woken n k).waiting (notified conds woken n k).awakened := by
  cases n with
  | none => exact hd k
  | some n =>
    cases n with
    | notify j =>
      by_cases hk : k = j
      · subst hk
        rw [notified, Function.update_self]
        exact Condition.notify_disjoint (hd k)
      · rw [notified, Function.update_of_ne hk]
        exact hd k
    | notifyAll j =>
      by_cases hk : k = j
      · subst hk
        rw [notified, Function.update_self]
        exact Condition.notifyAll_disjoint
      · rw [notified, Function.update_of_ne hk]
        exact hd k

end Notified

variable (M : Methods σ γ κ)

/-- A method with the mutex, from the test of its loop on; `woken` is whom `notify()` wakes. -/
def go (s : Monitor T σ γ κ) (t : T) (c : γ) (woken : Option T) :
    Except Fault (Monitor T σ γ κ) :=
  match M.waits c s.data with
  | some k => return { s with
      conds := Function.update s.conds k ((s.conds k).wait t)
      call := Function.update s.call t (some c) }
  | none => do
      let data ← M.body c s.data
      return ⟨data, notified s.conds woken (M.notifies c data), Function.update s.call t none⟩

inductive Action (T γ κ : Type) where
  | enter (t : T) (c : γ) (woken : Option T)
  /-- A woken thread gets the mutex and goes on in its loop. -/
  | resume (t : T) (k : κ) (woken : Option T)
  /-- A spurious wakeup. -/
  | wakeup (t : T) (k : κ)

/-- The thread that goes on wakes a thread that there is to wake. -/
def Wakes (conds : κ → Condition T) (c : γ) (s : σ) (woken : Option T) : Prop :=
  ∀ s', M.waits c s = none → M.body c s = .ok s' → Reaches conds woken (M.notifies c s')

instance reachesDecidable (conds : κ → Condition T) (woken : Option T) :
    (n : Option (Notification κ)) → Decidable (Reaches conds woken n)
  | some (.notify k) => inferInstanceAs (Decidable ((conds k).Signals woken))
  | some (.notifyAll _) | none => isTrue trivial

instance wakesDecidable (conds : κ → Condition T) (c : γ) (s : σ) (woken : Option T) :
    Decidable (Wakes M conds c s woken) :=
  match hb : M.body c s with
  | .error _ => isTrue fun s' _ h => by
      rw [hb] at h
      cases h
  | .ok s' =>
      decidable_of_iff (M.waits c s = none → Reaches conds woken (M.notifies c s'))
        ⟨fun h s'' hw hok => by
          rw [hb] at hok
          cases hok
          exact h hw, fun h hw => h s' hw hb⟩

omit [DecidableEq T] [DecidableEq κ] in
theorem exists_wakes (conds : κ → Condition T) (c : γ) (s : σ) :
    ∃ woken, Wakes M conds c s woken := by
  cases hb : M.body c s with
  | error e => exact ⟨none, fun s' _ hok => by rw [hb] at hok; cases hok⟩
  | ok s' =>
    obtain ⟨woken, hw⟩ := exists_reaches conds (M.notifies c s')
    refine ⟨woken, fun s'' _ hok => ?_⟩
    cases hb.symm.trans hok
    exact hw

def enabled (s : Monitor T σ γ κ) : Action T γ κ → Prop
  | .enter t c woken => s.call t = none ∧ Wakes M s.conds c s.data woken
  | .resume t k woken => t ∈ (s.conds k).awakened ∧
      ∃ c, s.call t = some c ∧ Wakes M s.conds c s.data woken
  | .wakeup t k => t ∈ (s.conds k).waiting

def step (s : Monitor T σ γ κ) : Action T γ κ → Except Fault (Monitor T σ γ κ)
  | .enter t c woken => s.go M t c woken
  | .resume t k woken =>
      match s.call t with
      | some c =>
          { s with conds := Function.update s.conds k ((s.conds k).relock t) }.go M t c woken
      | none => return s
  | .wakeup t k => return { s with conds := Function.update s.conds k ((s.conds k).wake t) }

def machine : Machine (Monitor T σ γ κ) (Action T γ κ) := ⟨enabled M, step M⟩

/-- While a thread waits, there is somebody awake for each of the `n` things to wait for. -/
def Meets (c : Condition T) (n : ℕ∞) : Prop := ∀ j : Nat, (j : ℕ∞) ≤ n → c.Served j

/-- The methods keep `I`, and lose no wakeup: `loop` is the condition that a method waits for,
and `n k` counts the things that the threads in `k` wait for. -/
structure Serving (M : Methods σ γ κ) (I : σ → Prop) (loop : γ → Option κ) (n : κ → σ → ℕ∞) :
    Prop where
  waits : ∀ c s k, I s → M.waits c s = some k → loop c = some k ∧ n k s = 0
  body : ∀ c s, I s → M.waits c s = none → ∃ s', M.body c s = .ok s' ∧ I s' ∧
    ∀ k, M.notifies c s' = some (.notifyAll k) ∨ n k s' + (if loop c = some k then 1 else 0) ≤
      n k s + if M.notifies c s' = some (.notify k) then 1 else 0

/-- What holds whenever the mutex is free. -/
structure Inv (I : σ → Prop) (loop : γ → Option κ) (n : κ → σ → ℕ∞) (s : Monitor T σ γ κ) :
    Prop where
  data : I s.data
  disjoint : ∀ k, Disjoint (s.conds k).waiting (s.conds k).awakened
  call : ∀ t k, (s.conds k).Blocks t → ∃ c, s.call t = some c ∧ loop c = some k
  meets : ∀ k, Meets (s.conds k) (n k s.data)

variable {M} {I : σ → Prop} {loop : γ → Option κ} {n : κ → σ → ℕ∞} {s s' : Monitor T σ γ κ}
  {t : T} {woken : Option T}

omit [DecidableEq T] [DecidableEq κ] in
theorem new_inv {data : σ} (hi : I data) :
    Inv I loop n (new data : Monitor T σ γ κ) where
  data := hi
  disjoint _ := Finset.disjoint_empty_left _
  call t k h := by simp [new, Condition.new, Condition.Blocks] at h
  meets _ _ _ := Condition.new_served

/-- A signal makes up for one more thing to wait for. -/
theorem served_notified {conds : κ → Condition T} {x : Option (Notification κ)}
    (hd : ∀ k, Disjoint (conds k).waiting (conds k).awakened) (hw : Reaches conds woken x)
    {k : κ} {j : Nat} (hj : x = some (.notifyAll k) ∨
      (conds k).Served (j - if x = some (.notify k) then 1 else 0)) :
    (notified conds woken x k).Served j := by
  rcases hj with rfl | hj
  · intro hne
    rw [notified, Function.update_self] at hne
    exact absurd hne Finset.not_nonempty_empty
  · by_cases hx : x = some (.notify k)
    · subst hx
      rw [if_pos rfl] at hj
      rw [notified, Function.update_self]
      exact (hj.notify (hd k) hw).mono (Nat.le_add_of_sub_le le_rfl)
    · rw [if_neg hx, Nat.sub_zero] at hj
      cases x with
      | none => exact hj
      | some x =>
        cases x with
        | notify i =>
          rw [notified, Function.update_of_ne fun hki => hx (by rw [hki])]
          exact hj
        | notifyAll i =>
          rw [notified]
          by_cases hki : k = i
          · subst hki
            rw [Function.update_self]
            exact fun hne => absurd hne Finset.not_nonempty_empty
          · rw [Function.update_of_ne hki]
            exact hj

omit [DecidableEq T] in
/-- What a method leaves is served by what it found, as far as it did not use that up. -/
theorem Serving.served (hM : Serving M I loop n) {c : γ} {d d' : σ} (hi : I d)
    (hw : M.waits c d = none) (hb : M.body c d = .ok d') {cond : Condition T} {k : κ}
    (hm : ∀ j : Nat, j + (if loop c = some k then 1 else 0) ≤ n k d → cond.Served j)
    {j : Nat} (hj : (j : ℕ∞) ≤ n k d') : M.notifies c d' = some (.notifyAll k) ∨
      cond.Served (j - if M.notifies c d' = some (.notify k) then 1 else 0) := by
  obtain ⟨d'', hb', _, hserve⟩ := hM.body c d hi hw
  cases hb.symm.trans hb'
  refine (hserve k).imp_right fun hle => ?_
  generalize hx : (if loop c = some k then 1 else 0 : ℕ∞) = x at hm hle
  by_cases hy : M.notifies c d' = some (.notify k)
  · rw [if_pos hy] at hle ⊢
    cases j with
    | zero => exact Condition.served_zero
    | succ j =>
      refine hm j ((WithTop.add_le_add_iff_right ENat.one_ne_top).mp ?_)
      calc (j : ℕ∞) + x + 1
        _ = ((j + 1 : Nat) : ℕ∞) + x := by rw [Nat.cast_add, Nat.cast_one, add_right_comm]
        _ ≤ n k d' + x := add_le_add_left hj x
        _ ≤ n k d + 1 := hle
  · rw [if_neg hy, add_zero] at hle
    rw [if_neg hy, Nat.sub_zero]
    exact hm j ((add_le_add_left hj x).trans hle)

/-- A method that has the mutex keeps the invariant: none of its own wakeups is left. -/
theorem go_spec (hM : Serving M I loop n) {c : γ} (hi : I s.data)
    (hd : ∀ k, Disjoint (s.conds k).waiting (s.conds k).awakened)
    (hc : ∀ u k, (s.conds k).Blocks u → u ≠ t ∧ ∃ c, s.call u = some c ∧ loop c = some k)
    (hm : ∀ k, ∀ j : Nat, j + (if loop c = some k then 1 else 0) ≤ n k s.data →
      (s.conds k).Served j)
    (hw : Wakes M s.conds c s.data woken) : ∃ s', s.go M t c woken = .ok s' ∧ Inv I loop n s' := by
  have hframe : ∀ u k x, (s.conds k).Blocks u →
      ∃ c, Function.update s.call t x u = some c ∧ loop c = some k := fun u k x hb => by
    obtain ⟨hne, hcall⟩ := hc u k hb
    rw [Function.update_of_ne hne]
    exact hcall
  rw [go]
  cases hwaits : M.waits c s.data with
  | some k =>
    obtain ⟨hloop, hzero⟩ := hM.waits c s.data k hi hwaits
    have hblock : ¬ (s.conds k).Blocks t := fun hb => (hc t k hb).1 rfl
    refine ⟨_, rfl, hi, fun j => ?_, fun u j hb => ?_, fun j => ?_⟩
    · by_cases hj : j = k
      · subst hj
        simpa using Condition.wait_disjoint (hd j) hblock
      · simpa [hj] using hd j
    · by_cases hj : j = k
      · subst hj
        dsimp only at hb
        rw [Function.update_self, Condition.blocks_wait] at hb
        rcases hb with rfl | hb
        · exact ⟨c, Function.update_self .., hloop⟩
        · exact hframe u j _ hb
      · dsimp only at hb
        rw [Function.update_of_ne hj] at hb
        exact hframe u j _ hb
    · by_cases hj : j = k
      · subst hj
        intro i hle
        rw [hzero, nonpos_iff_eq_zero, Nat.cast_eq_zero] at hle
        rw [hle]
        exact Condition.served_zero
      · have hne : loop c ≠ some j := fun hx => hj (Option.some.inj (hx.symm.trans hloop))
        dsimp only
        rw [Function.update_of_ne hj]
        exact fun i hle => hm j i (by rwa [if_neg hne, add_zero])
  | none =>
    obtain ⟨data, hdata, hidata, hserve⟩ := hM.body c s.data hi hwaits
    have hreach := hw data hwaits hdata
    simp only [hdata, ok_bind]
    refine ⟨_, rfl, hidata, notified_disjoint hd, fun u k hb => ?_, fun k => ?_⟩
    · exact hframe u k none ((notified_blocks hreach k u).mp hb)
    · exact fun j hj => served_notified hd hreach (hM.served hi hwaits hdata (hm k) hj)

theorem step_spec (hM : Serving M I loop n) (h : Inv I loop n s) {a : Action T γ κ}
    (he : (machine M).enabled s a) :
    ∃ s', (machine M).step s a = .ok s' ∧ Inv I loop n s' := by
  cases a with
  | enter t c woken =>
    refine go_spec hM h.data h.disjoint (fun u k hb => ?_) (fun k j hj => ?_) he.2
    · refine ⟨?_, h.call u k hb⟩
      rintro rfl
      obtain ⟨c', hcall, _⟩ := h.call u k hb
      rw [he.1] at hcall
      cases hcall
    · exact h.meets k j (le_trans le_self_add hj)
  | resume t k woken =>
    obtain ⟨ht, c, hcall, hw⟩ := he
    obtain ⟨c', hcall', hloop⟩ := h.call t k (.inr ht)
    rw [hcall] at hcall'
    cases hcall'
    have hnot : ∀ j, j ≠ k → loop c ≠ some j := fun j hj hx =>
      hj (Option.some.inj (hx.symm.trans hloop))
    let cleared : Monitor T σ γ κ :=
      { s with conds := Function.update s.conds k ((s.conds k).relock t) }
    have hself : cleared.conds k = (s.conds k).relock t := Function.update_self ..
    have hother : ∀ j, j ≠ k → cleared.conds j = s.conds j := fun j hj =>
      Function.update_of_ne hj ..
    have hwakes : Wakes M cleared.conds c cleared.data woken := fun d hn hb => (hw d hn hb).congr fun j => by
      by_cases hj : j = k
      · rw [hj, hself]
        rfl
      · rw [hother j hj]
    have hgo : ∃ s', cleared.go M t c woken = .ok s' ∧ Inv I loop n s' := by
      refine go_spec hM h.data (fun j => ?_) (fun u j hb => ?_) (fun j i hi => ?_) hwakes
      · by_cases hj : j = k
        · rw [hj, hself]
          exact Condition.relock_disjoint (h.disjoint k)
        · rw [hother j hj]
          exact h.disjoint j
      · by_cases hj : j = k
        · subst hj
          rw [hself, Condition.blocks_relock (h.disjoint j) ht] at hb
          exact ⟨hb.1, h.call u j hb.2⟩
        · rw [hother j hj] at hb
          refine ⟨?_, h.call u j hb⟩
          rintro rfl
          obtain ⟨c', hcall', hloop'⟩ := h.call u j hb
          cases hcall.symm.trans hcall'
          exact hnot j hj hloop'
      · by_cases hj : j = k
        · subst hj
          rw [if_pos hloop] at hi
          rw [hself]
          have hserved := h.meets j (i + 1) (by rw [Nat.cast_add, Nat.cast_one]; exact hi)
          exact hserved.relock
        · rw [if_neg (hnot j hj), add_zero] at hi
          rw [hother j hj]
          exact h.meets j i hi
    simp only [machine, step, hcall]
    exact hgo
  | wakeup t k =>
    refine ⟨_, rfl, h.data, fun j => ?_, fun u j hb => ?_, fun j i hi => ?_⟩
    · by_cases hj : j = k
      · subst hj
        simpa using Condition.wake_disjoint (h.disjoint j)
      · simpa [hj] using h.disjoint j
    · by_cases hj : j = k
      · subst hj
        dsimp only at hb
        rw [Function.update_self, Condition.blocks_wake he] at hb
        exact h.call u j hb
      · dsimp only at hb
        rw [Function.update_of_ne hj] at hb
        exact h.call u j hb
    · by_cases hj : j = k
      · subst hj
        dsimp only
        rw [Function.update_self]
        exact ((h.meets j i hi).wake (h.disjoint j) he).mono (Nat.le_succ i)
      · dsimp only
        rw [Function.update_of_ne hj]
        exact h.meets j i hi

theorem run_inv (hM : Serving M I loop n) {data : σ} (hi : I data) {bs : List (Action T γ κ)}
    (h : (machine M).Run (new data) bs s) : Inv I loop n s := by
  refine h.invariant (fun s a s' hinv he hs => ?_) (new_inv hi)
  obtain ⟨s'', hok, hinv'⟩ := step_spec hM hinv he
  cases hs.symm.trans hok
  exact hinv'

end Monitor
end Muduo.Base
