import Mathlib.Data.Finset.Card

/-! `muduo::Condition` under a Mesa monitor: who waits, and who was woken and has not run yet. -/
namespace Muduo.Base

structure Condition (T : Type) where
  /-- The threads in `wait()` that no signal reached. -/
  waiting : Finset T
  /-- The threads that were woken and do not hold the mutex yet. -/
  awakened : Finset T

namespace Condition
variable {T : Type}

def new : Condition T := ⟨∅, ∅⟩

/-- The thread is in `wait()`. -/
def Blocks (c : Condition T) (t : T) : Prop := t ∈ c.waiting ∨ t ∈ c.awakened

/-- While a thread waits, there is somebody awake for each of the `n` things to wait for. -/
def Served (c : Condition T) (n : Nat) : Prop := c.waiting.Nonempty → n ≤ c.awakened.card

theorem Served.mono {c : Condition T} {n m : Nat} (h : c.Served n) (hle : m ≤ n) : c.Served m :=
  fun hw => hle.trans (h hw)

theorem new_served {n : Nat} : (new : Condition T).Served n :=
  fun h => absurd h Finset.not_nonempty_empty

theorem served_zero {c : Condition T} : c.Served 0 := fun _ => Nat.zero_le _

variable [DecidableEq T]

/-- `pthread_cond_wait` up to its release of the mutex. -/
def wait (c : Condition T) (t : T) : Condition T := { c with waiting := insert t c.waiting }

/-- A signal, or a spurious wakeup, reaches a thread. -/
def wake (c : Condition T) (t : T) : Condition T :=
  ⟨c.waiting.erase t, insert t c.awakened⟩

/-- `notify()`, with the thread that it wakes. -/
def notify (c : Condition T) : Option T → Condition T
  | some t => c.wake t
  | none => c

/-- `notifyAll()` -/
def notifyAll (c : Condition T) : Condition T := ⟨∅, c.awakened ∪ c.waiting⟩

/-- The end of `pthread_cond_wait`. -/
def relock (c : Condition T) (t : T) : Condition T := { c with awakened := c.awakened.erase t }

/-- A thread that has the mutex again, and has not gone on yet. -/
def retain (c : Condition T) (t : T) : Condition T := { c with awakened := insert t c.awakened }

/-- `notify()` wakes one waiting thread if there is one. -/
def Signals (c : Condition T) : Option T → Prop
  | some t => t ∈ c.waiting
  | none => c.waiting = ∅

instance (c : Condition T) : (woken : Option T) → Decidable (c.Signals woken)
  | some t => inferInstanceAs (Decidable (t ∈ c.waiting))
  | none => inferInstanceAs (Decidable (c.waiting = ∅))

variable {c : Condition T} {t u : T} {n : Nat} {woken : Option T}

theorem Served.wake (h : c.Served n) (hd : Disjoint c.waiting c.awakened) (ht : t ∈ c.waiting) :
    (c.wake t).Served (n + 1) := by
  intro _
  have hnew : t ∉ c.awakened := Finset.disjoint_left.mp hd ht
  calc n + 1 ≤ c.awakened.card + 1 := Nat.add_le_add_right (h ⟨t, ht⟩) 1
    _ = (c.wake t).awakened.card := (Finset.card_insert_of_notMem hnew).symm

/-- A signal makes up for one more thing to wait for. -/
theorem Served.notify (h : c.Served n) (hd : Disjoint c.waiting c.awakened)
    (hw : c.Signals woken) : (c.notify woken).Served (n + 1) := by
  cases woken with
  | some t => exact h.wake hd hw
  | none =>
    intro hne
    exact absurd hw hne.ne_empty

/-- A woken thread may use up one thing. -/
theorem Served.relock (h : c.Served n) : (c.relock t).Served (n - 1) := by
  intro hw
  calc n - 1 ≤ c.awakened.card - 1 := Nat.sub_le_sub_right (h hw) 1
    _ ≤ (c.relock t).awakened.card := Finset.pred_card_le_card_erase

theorem wait_disjoint (hd : Disjoint c.waiting c.awakened) (ht : ¬ c.Blocks t) :
    Disjoint (c.wait t).waiting (c.wait t).awakened :=
  Finset.disjoint_insert_left.mpr ⟨fun ha => ht (.inr ha), hd⟩

theorem wake_disjoint (hd : Disjoint c.waiting c.awakened) :
    Disjoint (c.wake t).waiting (c.wake t).awakened :=
  Finset.disjoint_insert_right.mpr
    ⟨Finset.notMem_erase t c.waiting, hd.mono_left (Finset.erase_subset t c.waiting)⟩

theorem notify_disjoint (hd : Disjoint c.waiting c.awakened) :
    Disjoint (c.notify woken).waiting (c.notify woken).awakened := by
  cases woken with
  | some t => exact wake_disjoint hd
  | none => exact hd

theorem notifyAll_disjoint : Disjoint c.notifyAll.waiting c.notifyAll.awakened :=
  Finset.disjoint_empty_left _

theorem relock_disjoint (hd : Disjoint c.waiting c.awakened) :
    Disjoint (c.relock t).waiting (c.relock t).awakened :=
  hd.mono_right (Finset.erase_subset t c.awakened)

theorem blocks_wait : (c.wait t).Blocks u ↔ u = t ∨ c.Blocks u := by
  simp [Blocks, wait, or_assoc]

theorem blocks_wake (ht : t ∈ c.waiting) : (c.wake t).Blocks u ↔ c.Blocks u := by
  by_cases h : u = t
  · subst h
    simp [Blocks, wake, ht]
  · simp [Blocks, wake, h]

theorem blocks_notify (hw : c.Signals woken) : (c.notify woken).Blocks u ↔ c.Blocks u := by
  cases woken with
  | some t => exact blocks_wake hw
  | none => exact Iff.rfl

theorem blocks_notifyAll : c.notifyAll.Blocks u ↔ c.Blocks u := by
  simp [Blocks, notifyAll, or_comm]

theorem blocks_relock (hd : Disjoint c.waiting c.awakened) (ht : t ∈ c.awakened) :
    (c.relock t).Blocks u ↔ u ≠ t ∧ c.Blocks u := by
  have hnot : t ∉ c.waiting := Finset.disjoint_right.mp hd ht
  by_cases h : u = t
  · subst h
    simp [Blocks, relock, hnot]
  · simp [Blocks, relock, h]

theorem relock_retain (ht : t ∉ c.awakened) : (c.retain t).relock t = c := by
  rw [relock, retain, Finset.erase_insert ht]

theorem retain_relock (ht : t ∈ c.awakened) : (c.relock t).retain t = c := by
  rw [relock, retain, Finset.insert_erase ht]

theorem wake_retain : (c.retain u).wake t = (c.wake t).retain u := by
  rw [wake, retain, Finset.insert_comm]
  rfl

end Condition
end Muduo.Base
