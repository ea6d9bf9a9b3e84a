import Mathlib.Logic.Function.Basic
import Muduo.Base.Condition
import Muduo.Support.Machine

/-! `muduo::BoundedBlockingQueue` under any schedule. A step is what one thread does from the
moment it gets the mutex until it gives it up, in `wait()` or at its return. -/
namespace Muduo.Base
open Muduo.Support

/-- `boost::circular_buffer`. -/
structure CircularBuffer (α : Type) where
  capacity : Nat
  toList : List α
  bounded : toList.length ≤ capacity

namespace CircularBuffer
variable {α : Type}

def new (capacity : Nat) : CircularBuffer α := ⟨capacity, [], Nat.zero_le _⟩

def size (b : CircularBuffer α) : Nat := b.toList.length

def full (b : CircularBuffer α) : Bool := b.size = b.capacity

def empty (b : CircularBuffer α) : Bool := b.size = 0

/-- A full buffer overwrites its first element. -/
def pushBack (b : CircularBuffer α) (x : α) : CircularBuffer α :=
  if h : b.size < b.capacity then ⟨b.capacity, b.toList ++ [x], by
    rw [List.length_append]
    exact h⟩
  else ⟨b.capacity, (b.toList ++ [x]).tail, by simpa using b.bounded⟩

def front (b : CircularBuffer α) : Except Fault α :=
  match b.toList with
  | x :: _ => .ok x
  | [] => .error .memory

def popFront (b : CircularBuffer α) : CircularBuffer α :=
  ⟨b.capacity, b.toList.tail, by
    rw [List.length_tail]
    exact (Nat.sub_le _ _).trans b.bounded⟩

variable {b : CircularBuffer α} {x : α}

@[simp] theorem pushBack_capacity : (b.pushBack x).capacity = b.capacity := by
  unfold pushBack
  split <;> rfl

theorem pushBack_of_not_full (h : ¬ b.full = true) : (b.pushBack x).toList = b.toList ++ [x] := by
  have hne : b.size ≠ b.capacity := by simpa [full] using h
  have hlt : b.size < b.capacity := lt_of_le_of_ne b.bounded hne
  unfold pushBack
  rw [dif_pos hlt]

theorem exists_front (h : ¬ b.empty = true) :
    ∃ x, b.front = .ok x ∧ b.toList = x :: b.popFront.toList := by
  obtain ⟨capacity, l, hb⟩ := b
  cases l with
  | nil => exact absurd rfl h
  | cons x l => exact ⟨x, rfl, rfl⟩

end CircularBuffer

/-- The call a thread is in. -/
inductive QueueCall (α : Type) where
  | outside
  | inPut (x : α)
  | inTake
  deriving DecidableEq, Repr

structure BoundedBlockingQueue (T α : Type) where
  notEmpty : Condition T
  notFull : Condition T
  queue : CircularBuffer α
  call : T → QueueCall α
  /-- The items in the order they went in, and in the order they came out. -/
  puts : List α
  taken : List α

namespace BoundedBlockingQueue
variable {T α : Type} [DecidableEq T]

def new (maxSize : Nat) : BoundedBlockingQueue T α where
  notEmpty := .new
  notFull := .new
  queue := .new maxSize
  call := fun _ => .outside
  puts := []
  taken := []

/-- `put(x)` with the mutex, from the test of its loop on; `woken` is whom `notify()` wakes. -/
def put (s : BoundedBlockingQueue T α) (t : T) (x : α) (woken : Option T) :
    Except Fault (BoundedBlockingQueue T α) :=
  if s.queue.full then
    return { s with
      notFull := s.notFull.wait t
      call := Function.update s.call t (.inPut x) }
  else do
    assert (¬ s.queue.full)
    return { s with
      queue := s.queue.pushBack x
      notEmpty := s.notEmpty.notify woken
      call := Function.update s.call t .outside
      puts := s.puts ++ [x] }

/-- `take()` with the mutex, from the test of its loop on. -/
def take (s : BoundedBlockingQueue T α) (t : T) (woken : Option T) :
    Except Fault (BoundedBlockingQueue T α) :=
  if s.queue.empty then
    return { s with
      notEmpty := s.notEmpty.wait t
      call := Function.update s.call t .inTake }
  else do
    assert (¬ s.queue.empty)
    let front ← s.queue.front
    return { s with
      queue := s.queue.popFront
      notFull := s.notFull.notify woken
      call := Function.update s.call t .outside
      taken := s.taken ++ [front] }

inductive Action (T α : Type) where
  | put (t : T) (x : α) (woken : Option T)
  | take (t : T) (woken : Option T)
  /-- A woken thread gets the mutex and goes on in its loop. -/
  | resume (t : T) (woken : Option T)
  /-- A spurious wakeup. -/
  | wakeup (t : T)
  deriving DecidableEq, Repr

def enabled (s : BoundedBlockingQueue T α) : Action T α → Prop
  | .put t _ woken => s.call t = .outside ∧ (s.queue.full = false → s.notEmpty.Signals woken)
  | .take t woken => s.call t = .outside ∧ (s.queue.empty = false → s.notFull.Signals woken)
  | .resume t woken =>
      t ∈ s.notFull.awakened ∧ (s.queue.full = false → s.notEmpty.Signals woken) ∨
      t ∈ s.notEmpty.awakened ∧ (s.queue.empty = false → s.notFull.Signals woken)
  | .wakeup t => t ∈ s.notFull.waiting ∨ t ∈ s.notEmpty.waiting

def step (s : BoundedBlockingQueue T α) : Action T α → Except Fault (BoundedBlockingQueue T α)
  | .put t x woken => s.put t x woken
  | .take t woken => s.take t woken
  | .resume t woken => match s.call t with
    | .inPut x => put { s with notFull := s.notFull.relock t } t x woken
    | .inTake => take { s with notEmpty := s.notEmpty.relock t } t woken
    | .outside => return s
  | .wakeup t => match s.call t with
    | .inPut _ => return { s with notFull := s.notFull.wake t }
    | .inTake => return { s with notEmpty := s.notEmpty.wake t }
    | .outside => return s

def machine (T α : Type) [DecidableEq T] : Machine (BoundedBlockingQueue T α) (Action T α) :=
  ⟨enabled, step⟩

instance enabledDecidable [DecidableEq α] (s : BoundedBlockingQueue T α) :
    (a : Action T α) → Decidable ((machine T α).enabled s a)
  | .put t _ woken => inferInstanceAs
      (Decidable (s.call t = .outside ∧ (s.queue.full = false → s.notEmpty.Signals woken)))
  | .take t woken => inferInstanceAs
      (Decidable (s.call t = .outside ∧ (s.queue.empty = false → s.notFull.Signals woken)))
  | .resume t woken => inferInstanceAs (Decidable
      (t ∈ s.notFull.awakened ∧ (s.queue.full = false → s.notEmpty.Signals woken) ∨
        t ∈ s.notEmpty.awakened ∧ (s.queue.empty = false → s.notFull.Signals woken)))
  | .wakeup t => inferInstanceAs (Decidable (t ∈ s.notFull.waiting ∨ t ∈ s.notEmpty.waiting))

/-- What holds whenever a thread has the mutex; `out` says which threads are in no `wait()`. -/
structure Good (maxSize : Nat) (out : T → Prop) (s : BoundedBlockingQueue T α) : Prop where
  fifo : s.taken ++ s.queue.toList = s.puts
  capacity : s.queue.capacity = maxSize
  consumers : Disjoint s.notEmpty.waiting s.notEmpty.awakened
  producers : Disjoint s.notFull.waiting s.notFull.awakened
  inTake : ∀ t, s.notEmpty.Blocks t → s.call t = .inTake ∧ ¬ out t
  inPut : ∀ t, s.notFull.Blocks t → (∃ x, s.call t = .inPut x) ∧ ¬ out t

/-- What holds whenever the mutex is free. -/
structure Inv (maxSize : Nat) (s : BoundedBlockingQueue T α) : Prop where
  good : Good maxSize (fun _ => False) s
  items : s.notEmpty.Served s.queue.size
  slots : s.notFull.Served (maxSize - s.queue.size)

variable {s s' : BoundedBlockingQueue T α} {maxSize : Nat} {t : T} {x : α} {woken : Option T}

omit [DecidableEq T] in
theorem new_inv (maxSize : Nat) : Inv maxSize (new maxSize : BoundedBlockingQueue T α) := by
  refine ⟨⟨rfl, rfl, ?_, ?_, ?_, ?_⟩, Condition.new_served, Condition.new_served⟩
  · exact Finset.disjoint_empty_left _
  · exact Finset.disjoint_empty_left _
  · intro t h
    simp [new, Condition.new, Condition.Blocks] at h
  · intro t h
    simp [new, Condition.new, Condition.Blocks] at h

omit [DecidableEq T] in
/-- A thread outside is in no `wait()`. -/
theorem Good.enter (h : Good maxSize (fun _ => False) s) (ht : s.call t = .outside) :
    Good maxSize (· = t) s := by
  obtain ⟨h₁, h₂, h₃, h₄, h₅, h₆⟩ := h
  refine ⟨h₁, h₂, h₃, h₄, fun u hu => ⟨(h₅ u hu).1, ?_⟩, fun u hu => ⟨(h₆ u hu).1, ?_⟩⟩
  · rintro rfl
    cases ht.symm.trans (h₅ u hu).1
  · rintro rfl
    obtain ⟨x, hx⟩ := (h₆ u hu).1
    cases ht.symm.trans hx

theorem Good.inTake_frame (h : Good maxSize (· = t) s) {u : T} (hu : s.notEmpty.Blocks u)
    (p : QueueCall α) : Function.update s.call t p u = .inTake ∧ ¬ False := by
  obtain ⟨hcall, hne⟩ := h.inTake u hu
  exact ⟨by rw [Function.update_of_ne hne, hcall], id⟩

theorem Good.inPut_frame (h : Good maxSize (· = t) s) {u : T} (hu : s.notFull.Blocks u)
    (p : QueueCall α) : (∃ x, Function.update s.call t p u = .inPut x) ∧ ¬ False := by
  obtain ⟨⟨x, hcall⟩, hne⟩ := h.inPut u hu
  exact ⟨⟨x, by rw [Function.update_of_ne hne, hcall]⟩, id⟩

theorem put_spec (h : Good maxSize (· = t) s) (hi : s.notEmpty.Served s.queue.size)
    (hs : s.notFull.Served (maxSize - s.queue.size - 1))
    (hw : s.queue.full = false → s.notEmpty.Signals woken) :
    ∃ s', s.put t x woken = .ok s' ∧ Inv maxSize s' := by
  unfold put
  by_cases hf : s.queue.full = true
  · rw [if_pos hf]
    have hsize : s.queue.size = maxSize := by
      rw [← h.capacity]
      simpa [CircularBuffer.full] using hf
    have hblock : ¬ s.notFull.Blocks t := fun hb => (h.inPut t hb).2 rfl
    refine ⟨_, rfl, ⟨h.fifo, h.capacity, h.consumers, ?_, ?_, ?_⟩, hi, ?_⟩
    · exact Condition.wait_disjoint h.producers hblock
    · exact fun u hu => h.inTake_frame hu _
    · intro u hu
      rcases Condition.blocks_wait.mp hu with rfl | hu
      · exact ⟨⟨x, by simp⟩, id⟩
      · exact h.inPut_frame hu _
    · dsimp only
      rw [hsize, Nat.sub_self]
      exact Condition.served_zero
  · rw [if_neg hf, assert_true hf, ok_bind]
    have hwoken := hw (by simpa using hf)
    have hlist := CircularBuffer.pushBack_of_not_full (x := x) hf
    have hsize : (s.queue.pushBack x).size = s.queue.size + 1 := by
      simp [CircularBuffer.size, hlist]
    refine ⟨_, rfl, ⟨?_, ?_, ?_, h.producers, ?_, ?_⟩, ?_, ?_⟩
    · dsimp only
      rw [hlist, ← List.append_assoc, h.fifo]
    · exact CircularBuffer.pushBack_capacity.trans h.capacity
    · exact Condition.notify_disjoint h.consumers
    · exact fun u hu => h.inTake_frame ((Condition.blocks_notify hwoken).mp hu) _
    · exact fun u hu => h.inPut_frame hu _
    · dsimp only
      rw [hsize]
      exact hi.notify h.consumers hwoken
    · dsimp only
      rw [hsize, Nat.sub_add_eq]
      exact hs

theorem take_spec (h : Good maxSize (· = t) s) (hi : s.notEmpty.Served (s.queue.size - 1))
    (hs : s.notFull.Served (maxSize - s.queue.size))
    (hw : s.queue.empty = false → s.notFull.Signals woken) :
    ∃ s', s.take t woken = .ok s' ∧ Inv maxSize s' := by
  unfold take
  by_cases he : s.queue.empty = true
  · rw [if_pos he]
    have hsize : s.queue.size = 0 := by simpa [CircularBuffer.empty] using he
    have hblock : ¬ s.notEmpty.Blocks t := fun hb => (h.inTake t hb).2 rfl
    refine ⟨_, rfl, ⟨h.fifo, h.capacity, ?_, h.producers, ?_, ?_⟩, ?_, hs⟩
    · exact Condition.wait_disjoint h.consumers hblock
    · intro u hu
      rcases Condition.blocks_wait.mp hu with rfl | hu
      · exact ⟨by simp, id⟩
      · exact h.inTake_frame hu _
    · exact fun u hu => h.inPut_frame hu _
    · dsimp only
      rw [hsize]
      exact Condition.served_zero
  · obtain ⟨x, hfront, hlist⟩ := CircularBuffer.exists_front he
    rw [if_neg he, assert_true he, ok_bind, hfront, ok_bind]
    have hwoken := hw (by simpa using he)
    have hsize : s.queue.size = s.queue.popFront.size + 1 := by
      simp [CircularBuffer.size, hlist]
    have hle : s.queue.size ≤ maxSize := h.capacity ▸ s.queue.bounded
    have hfree : maxSize - s.queue.popFront.size = maxSize - s.queue.size + 1 := by omega
    refine ⟨_, rfl, ⟨?_, ?_, h.consumers, ?_, ?_, ?_⟩, ?_, ?_⟩
    · dsimp only
      rw [List.append_assoc, ← h.fifo, hlist]
      rfl
    · exact h.capacity
    · exact Condition.notify_disjoint h.producers
    · exact fun u hu => h.inTake_frame hu _
    · exact fun u hu => h.inPut_frame ((Condition.blocks_notify hwoken).mp hu) _
    · dsimp only
      rw [hsize, Nat.add_sub_cancel] at hi
      exact hi
    · dsimp only
      rw [hfree]
      exact hs.notify h.producers hwoken

theorem Inv.put (h : Inv maxSize s) (ht : s.call t = .outside)
    (hw : s.queue.full = false → s.notEmpty.Signals woken) :
    ∃ s', s.put t x woken = .ok s' ∧ Inv maxSize s' :=
  put_spec (h.good.enter ht) h.items (h.slots.mono (Nat.sub_le _ _)) hw

theorem Inv.take (h : Inv maxSize s) (ht : s.call t = .outside)
    (hw : s.queue.empty = false → s.notFull.Signals woken) :
    ∃ s', s.take t woken = .ok s' ∧ Inv maxSize s' :=
  take_spec (h.good.enter ht) (h.items.mono (Nat.sub_le _ _)) h.slots hw

/-- A producer that goes on takes its wakeup with it, and one slot at most. -/
theorem Inv.resumePut (h : Inv maxSize s) (ht : t ∈ s.notFull.awakened)
    (hw : s.queue.full = false → s.notEmpty.Signals woken) :
    ∃ s', s.step (.resume t woken) = .ok s' ∧ Inv maxSize s' := by
  obtain ⟨x, hcall⟩ := (h.good.inPut t (.inr ht)).1
  have hgood : Good maxSize (· = t) { s with notFull := s.notFull.relock t } := by
    refine ⟨h.good.fifo, h.good.capacity, h.good.consumers,
      Condition.relock_disjoint h.good.producers, fun u hu => ?_, fun u hu => ?_⟩
    · obtain ⟨htake, _⟩ := h.good.inTake u hu
      refine ⟨htake, ?_⟩
      rintro rfl
      cases hcall.symm.trans htake
    · obtain ⟨hne, hu⟩ := (Condition.blocks_relock h.good.producers ht).mp hu
      exact ⟨(h.good.inPut u hu).1, hne⟩
  simp only [step, hcall]
  exact put_spec hgood h.items h.slots.relock hw

theorem Inv.resumeTake (h : Inv maxSize s) (ht : t ∈ s.notEmpty.awakened)
    (hw : s.queue.empty = false → s.notFull.Signals woken) :
    ∃ s', s.step (.resume t woken) = .ok s' ∧ Inv maxSize s' := by
  have hcall := (h.good.inTake t (.inr ht)).1
  have hgood : Good maxSize (· = t) { s with notEmpty := s.notEmpty.relock t } := by
    refine ⟨h.good.fifo, h.good.capacity, Condition.relock_disjoint h.good.consumers,
      h.good.producers, fun u hu => ?_, fun u hu => ?_⟩
    · obtain ⟨hne, hu⟩ := (Condition.blocks_relock h.good.consumers ht).mp hu
      exact ⟨(h.good.inTake u hu).1, hne⟩
    · obtain ⟨⟨x, hput⟩, _⟩ := h.good.inPut u hu
      refine ⟨⟨x, hput⟩, ?_⟩
      rintro rfl
      cases hcall.symm.trans hput
  simp only [step, hcall]
  exact take_spec hgood h.items.relock h.slots hw

/-- A spurious wakeup serves no less. -/
theorem Inv.wakeup (h : Inv maxSize s) (ht : t ∈ s.notFull.waiting ∨ t ∈ s.notEmpty.waiting) :
    ∃ s', s.step (.wakeup t) = .ok s' ∧ Inv maxSize s' := by
  obtain ⟨hg, hi, hs⟩ := h
  rcases ht with ht | ht
  · obtain ⟨x, hcall⟩ := (hg.inPut t (.inl ht)).1
    simp only [step, hcall]
    refine ⟨_, rfl, ⟨hg.fifo, hg.capacity, hg.consumers, Condition.wake_disjoint hg.producers,
      hg.inTake, fun u hu => hg.inPut u ((Condition.blocks_wake ht).mp hu)⟩, hi, ?_⟩
    exact (hs.wake hg.producers ht).mono (Nat.le_succ _)
  · have hcall := (hg.inTake t (.inl ht)).1
    simp only [step, hcall]
    refine ⟨_, rfl, ⟨hg.fifo, hg.capacity, Condition.wake_disjoint hg.consumers, hg.producers,
      fun u hu => hg.inTake u ((Condition.blocks_wake ht).mp hu), hg.inPut⟩, ?_, hs⟩
    exact (hi.wake hg.consumers ht).mono (Nat.le_succ _)

theorem step_spec (h : Inv maxSize s) {a : Action T α} (he : (machine T α).enabled s a) :
    ∃ s', (machine T α).step s a = .ok s' ∧ Inv maxSize s' := by
  cases a with
  | put t x woken => exact h.put he.1 he.2
  | take t woken => exact h.take he.1 he.2
  | resume t woken =>
    rcases he with ⟨ht, hw⟩ | ⟨ht, hw⟩
    · exact h.resumePut ht hw
    · exact h.resumeTake ht hw
  | wakeup t => exact h.wakeup he

theorem reachable_inv {as : List (Action T α)} (h : (machine T α).Run (new maxSize) as s) :
    Inv maxSize s := by
  refine h.invariant (fun s a s' hi he hs => ?_) (new_inv maxSize)
  obtain ⟨s'', hok, hi'⟩ := step_spec hi he
  cases hs.symm.trans hok
  exact hi'

/-- Under every schedule the queue is a FIFO within its bound, no wakeup is lost, and no
assertion fails. -/
theorem bounded_fifo {as : List (Action T α)} (h : (machine T α).Run (new maxSize) as s) :
    s.taken ++ s.queue.toList = s.puts ∧ s.queue.size ≤ maxSize ∧
    (s.notEmpty.waiting.Nonempty → s.queue.size ≤ s.notEmpty.awakened.card) ∧
    (s.notFull.waiting.Nonempty → maxSize - s.queue.size ≤ s.notFull.awakened.card) ∧
    ∀ a, (machine T α).enabled s a → ∃ s', (machine T α).step s a = .ok s' := by
  have hi := reachable_inv h
  refine ⟨hi.good.fifo, hi.good.capacity ▸ s.queue.bounded, hi.items, hi.slots, fun a he => ?_⟩
  obtain ⟨s', hok, _⟩ := step_spec hi he
  exact ⟨s', hok⟩

/-- A consumer waits, an item comes, another consumer barges in, and the woken one waits again. -/
theorem bounded_fifo_sample : ∃ s : BoundedBlockingQueue Nat Nat, (machine Nat Nat).Run (new 1)
      [.take 1 none, .put 2 7 (some 1), .put 2 8 none, .take 3 (some 2), .resume 1 none] s ∧
    s.taken ++ s.queue.toList = s.puts ∧ s.puts = [7] ∧
    (s.notEmpty.waiting.Nonempty → s.queue.size ≤ s.notEmpty.awakened.card) := by
  obtain ⟨s, hr, hs⟩ := (machine Nat Nat).exists_run (new 1)
    [.take 1 none, .put 2 7 (some 1), .put 2 8 none, .take 3 (some 2), .resume 1 none]
    puts [7] (by decide)
  obtain ⟨hfifo, _, hitems, _⟩ := bounded_fifo hr
  exact ⟨s, hr, hfifo, hs, hitems⟩

end BoundedBlockingQueue
end Muduo.Base
