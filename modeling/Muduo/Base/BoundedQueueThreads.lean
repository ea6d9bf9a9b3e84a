import Muduo.Base.AtomicMethods
import Muduo.Base.BoundedBlockingQueue

/-! `muduo::BoundedBlockingQueue` over `MutexLock` and `Condition`: the steps of its methods,
taken apart, refine those that run from one release of the mutex to the next. -/
namespace Muduo.Base
open Muduo.Support

namespace BoundedBlockingQueue
variable {T α : Type}

/-- What the methods work on. -/
structure Items (α : Type) where
  queue : CircularBuffer α
  puts : List α
  taken : List α

inductive Call (α : Type) where
  | put (x : α)
  | take

inductive Cond where
  | notEmpty
  | notFull
  deriving DecidableEq, Repr

def Items.new (maxSize : Nat) : Items α := ⟨.new maxSize, [], []⟩

def methods : Methods (Items α) (Call α) Cond where
  waits
    | .put _, s => if s.queue.full then some .notFull else none
    | .take, s => if s.queue.empty then some .notEmpty else none
  body
    | .put x, s => do
        assert (¬ s.queue.full)
        return { s with
          queue := s.queue.pushBack x
          puts := s.puts ++ [x] }
    | .take, s => do
        assert (¬ s.queue.empty)
        let front ← s.queue.front
        return { s with
          queue := s.queue.popFront
          taken := s.taken ++ [front] }
  notifies
    | .put _, _ => some (.notify .notEmpty)
    | .take, _ => some (.notify .notFull)

/-- The condition that a method waits for. -/
def loop : Call α → Option Cond
  | .put _ => some .notFull
  | .take => some .notEmpty

structure Items.Fifo (maxSize : Nat) (s : Items α) : Prop where
  fifo : s.taken ++ s.queue.toList = s.puts
  capacity : s.queue.capacity = maxSize

theorem Items.new_fifo (maxSize : Nat) : (Items.new maxSize : Items α).Fifo maxSize := ⟨rfl, rfl⟩

/-- What the threads in a condition wait for: items, and free places. -/
def room (maxSize : Nat) : Cond → Items α → ℕ∞
  | .notEmpty, s => (s.queue.size : ℕ∞)
  | .notFull, s => ((maxSize - s.queue.size : Nat) : ℕ∞)

theorem put_body {s : Items α} {maxSize : Nat} (hi : s.Fifo maxSize) (x : α)
    (hf : s.queue.full = false) : ∃ s', methods.body (.put x) s = .ok s' ∧ s'.Fifo maxSize ∧
      s'.queue.size = s.queue.size + 1 := by
  have hnot : ¬ s.queue.full = true := by rw [hf]; exact Bool.false_ne_true
  have hlist := CircularBuffer.pushBack_of_not_full (x := x) hnot
  refine ⟨{ s with
    queue := s.queue.pushBack x
    puts := s.puts ++ [x] }, ?_, ⟨?_, CircularBuffer.pushBack_capacity.trans hi.capacity⟩, ?_⟩
  · rw [methods]
    exact assert_bind_true hnot _
  · dsimp only
    rw [hlist, ← List.append_assoc, hi.fifo]
  · simp [CircularBuffer.size, hlist]

theorem take_body {s : Items α} {maxSize : Nat} (hi : s.Fifo maxSize)
    (he : s.queue.empty = false) : ∃ s', methods.body .take s = .ok s' ∧ s'.Fifo maxSize ∧
      s.queue.size = s'.queue.size + 1 := by
  have hnot : ¬ s.queue.empty = true := by rw [he]; exact Bool.false_ne_true
  obtain ⟨x, hfront, hlist⟩ := CircularBuffer.exists_front hnot
  refine ⟨{ s with
    queue := s.queue.popFront
    taken := s.taken ++ [x] }, ?_, ⟨?_, hi.capacity⟩, ?_⟩
  · simp only [methods, assert_true hnot, ok_bind, hfront]
    rfl
  · dsimp only
    rw [List.append_assoc, ← hi.fifo, hlist]
    rfl
  · simp [CircularBuffer.size, hlist]

theorem serving (maxSize : Nat) : Monitor.Serving (methods : Methods (Items α) (Call α) Cond)
    (Items.Fifo maxSize) loop (room maxSize) where
  waits c s k hi h := by
    cases c with
    | put x =>
      obtain ⟨hf, rfl⟩ := Option.ite_some_none_eq_some.mp h
      refine ⟨rfl, ?_⟩
      have hsize : s.queue.size = maxSize := by
        rw [← hi.capacity]
        simpa [CircularBuffer.full] using hf
      rw [room, hsize, Nat.sub_self]
      rfl
    | take =>
      obtain ⟨he, rfl⟩ := Option.ite_some_none_eq_some.mp h
      refine ⟨rfl, ?_⟩
      have hsize : s.queue.size = 0 := by simpa [CircularBuffer.empty] using he
      rw [room, hsize]
      rfl
  body c s hi h := by
    have hle : s.queue.size ≤ maxSize := hi.capacity ▸ s.queue.bounded
    cases c with
    | put x =>
      have hf : s.queue.full = false := by simpa [methods] using h
      obtain ⟨s', hok, hi', hsize⟩ := put_body hi x hf
      have hle' : s'.queue.size ≤ maxSize := hi'.capacity ▸ s'.queue.bounded
      refine ⟨s', hok, hi', fun k => .inr ?_⟩
      cases k with
      | notEmpty => simp [room, loop, methods, hsize]
      | notFull =>
        have hfree : maxSize - s'.queue.size + 1 = maxSize - s.queue.size := by omega
        simp only [room, loop, methods, if_true, ← hfree]
        simp
    | take =>
      have he : s.queue.empty = false := by simpa [methods] using h
      obtain ⟨s', hok, hi', hsize⟩ := take_body hi he
      refine ⟨s', hok, hi', fun k => .inr ?_⟩
      cases k with
      | notEmpty =>
        simp only [room, loop, methods, if_true, hsize]
        simp
      | notFull =>
        have hfree : maxSize - s'.queue.size = maxSize - s.queue.size + 1 := by omega
        simp [room, loop, methods, hfree]

section Refinement
variable [DecidableEq T]

def Call.inCall : Option (Call α) → QueueCall α
  | none => .outside
  | some (.put x) => .inPut x
  | some .take => .inTake

/-- The queue with the methods that run from one release of the mutex to the next. -/
def atomic (m : Monitor T (Items α) (Call α) Cond) : BoundedBlockingQueue T α where
  notEmpty := m.conds .notEmpty
  notFull := m.conds .notFull
  queue := m.data.queue
  call := Call.inCall ∘ m.call
  puts := m.data.puts
  taken := m.data.taken

variable {m m' : Monitor T (Items α) (Call α) Cond} {t : T} {x : α} {woken : Option T}

theorem go_put (h : m.go methods t (.put x) woken = .ok m') :
    (atomic m).put t x woken = .ok (atomic m') := by
  rw [Monitor.go] at h
  rw [put]
  by_cases hf : m.data.queue.full = true
  · simp only [methods, if_pos hf] at h
    cases h
    rw [if_pos (show (atomic m).queue.full = true from hf)]
    simp only [atomic, Function.comp_update, Function.update_self]
    rfl
  · simp only [methods, if_neg hf, assert_true hf, ok_bind] at h
    cases h
    have hf' : ¬ (atomic m).queue.full = true := hf
    rw [if_neg hf', assert_bind_true hf']
    simp only [atomic, Function.comp_update, Monitor.notified, Function.update_self]
    rfl

theorem go_take (h : m.go methods t .take woken = .ok m') :
    (atomic m).take t woken = .ok (atomic m') := by
  rw [Monitor.go] at h
  rw [take]
  by_cases he : m.data.queue.empty = true
  · simp only [methods, if_pos he] at h
    cases h
    rw [if_pos (show (atomic m).queue.empty = true from he)]
    simp only [atomic, Function.comp_update, Function.update_self]
    rfl
  · obtain ⟨front, hfront, -⟩ := CircularBuffer.exists_front he
    simp only [methods, if_neg he, assert_true he, ok_bind, hfront] at h
    cases h
    have he' : ¬ (atomic m).queue.empty = true := he
    have hfront' : (atomic m).queue.front = .ok front := hfront
    rw [if_neg he', assert_bind_true he', hfront', ok_bind]
    simp only [atomic, Function.comp_update, Monitor.notified, Function.update_self]
    rfl

omit [DecidableEq T] in
theorem signals_put (hw : Monitor.Wakes methods m.conds (.put x) m.data woken)
    (hf : m.data.queue.full = false) : (m.conds .notEmpty).Signals woken := by
  have hnot : ¬ m.data.queue.full = true := by rw [hf]; exact Bool.false_ne_true
  exact hw _ (if_neg hnot) (assert_bind_true hnot _)

omit [DecidableEq T] in
theorem signals_take (hw : Monitor.Wakes methods m.conds (.take : Call α) m.data woken)
    (he : m.data.queue.empty = false) : (m.conds .notFull).Signals woken := by
  have hnot : ¬ m.data.queue.empty = true := by rw [he]; exact Bool.false_ne_true
  obtain ⟨front, hfront, -⟩ := CircularBuffer.exists_front hnot
  have hbody : methods.body .take m.data = .ok { m.data with
      queue := m.data.queue.popFront
      taken := m.data.taken ++ [front] } := by
    simp only [methods, assert_true hnot, ok_bind, hfront]
    rfl
  exact hw _ (if_neg hnot) hbody

theorem step_atomic {maxSize : Nat} (h : Monitor.Inv (Items.Fifo maxSize) loop (room maxSize) m)
    {a : Monitor.Action T (Call α) Cond} (he : (Monitor.machine methods).enabled m a)
    (hok : (Monitor.machine methods).step m a = .ok m') :
    ∃ b, (machine T α).enabled (atomic m) b ∧ (machine T α).step (atomic m) b =
      .ok (atomic m') := by
  cases a with
  | enter t c woken =>
    obtain ⟨hcall, hw⟩ := he
    have hout : (atomic m).call t = .outside := congrArg Call.inCall hcall
    cases c with
    | put x => exact ⟨.put t x woken, ⟨hout, signals_put hw⟩, go_put hok⟩
    | take => exact ⟨.take t woken, ⟨hout, signals_take hw⟩, go_take hok⟩
  | resume t k woken =>
    obtain ⟨ht, c, hcall, hw⟩ := he
    obtain ⟨c', hcall', hloop⟩ := h.call t k (.inr ht)
    cases hcall.symm.trans hcall'
    simp only [Monitor.machine, Monitor.step, hcall] at hok
    cases c with
    | put x =>
      cases hloop
      have hput : (atomic m).call t = .inPut x := congrArg Call.inCall hcall
      refine ⟨.resume t woken, .inl ⟨ht, signals_put hw⟩, ?_⟩
      simp only [machine, step, hput]
      exact go_put hok
    | take =>
      cases hloop
      have htake : (atomic m).call t = .inTake := congrArg Call.inCall hcall
      refine ⟨.resume t woken, .inr ⟨ht, signals_take hw⟩, ?_⟩
      simp only [machine, step, htake]
      exact go_take hok
  | wakeup t k =>
    obtain ⟨c, hcall, hloop⟩ := h.call t k (.inl he)
    cases hok
    cases c with
    | put x =>
      cases hloop
      have hput : (atomic m).call t = .inPut x := congrArg Call.inCall hcall
      refine ⟨.wakeup t, .inl he, ?_⟩
      simp only [machine, step, hput]
      rfl
    | take =>
      cases hloop
      have htake : (atomic m).call t = .inTake := congrArg Call.inCall hcall
      refine ⟨.wakeup t, .inr he, ?_⟩
      simp only [machine, step, htake]
      rfl

theorem run_atomic {maxSize : Nat} {bs : List (Monitor.Action T (Call α) Cond)}
    (h : (Monitor.machine methods).Run (.new (Items.new maxSize)) bs m) :
    ∃ cs, (machine T α).Run (new maxSize) cs (atomic m) := by
  have hstep := h.refines atomic (K := fun _ _ => True) (N := machine T α)
    (fun _ _ _ hi he _ hok => ?_) (Machine.everyStep_of_forall fun _ _ _ => trivial)
    (Monitor.new_inv (Items.new_fifo maxSize) : Monitor.Inv _ loop (room maxSize) _)
  · exact hstep.2
  · obtain ⟨m'', hok', hi'⟩ := Monitor.step_spec (serving maxSize) hi he
    cases hok.symm.trans hok'
    exact ⟨hi', .inr (step_atomic hi he hok)⟩

/-- Between any steps of any number of threads, the queue is a FIFO within its bound, and is
as a run of the methods from one release of the mutex to the next leaves it. No assertion fails;
threads that cannot go on wait for an item of an empty queue or for a place in a full one. -/
theorem bounded_threads {tid : T → Nat} {maxSize : Nat}
    {s : MutexLock T (Items α) (Call α) Cond} {as : List (MutexLock.Move T (Call α) Cond)}
    (h : (MutexLock.machine methods tid).Run (.new (.new maxSize)) as s) :
    s.data.taken ++ s.data.queue.toList = s.data.puts ∧ s.data.queue.size ≤ maxSize ∧
    (∃ bs, (machine T α).Run (new maxSize) bs (atomic s.monitor)) ∧
    (∀ a, ∃ s', (MutexLock.machine methods tid).step s a = .ok s') ∧
    (MutexLock.Stuck methods s → ∀ t, s.phase t = .outside ∨
      (s.phase t = .blocked .take .notEmpty ∧ s.data.queue.size = 0) ∨
      ∃ x, s.phase t = .blocked (.put x) .notFull ∧ s.data.queue.size = maxSize) := by
  have hfifo := Items.new_fifo (α := α) maxSize
  have hdata : s.data.Fifo maxSize := (MutexLock.serving_run (serving maxSize) hfifo h).2.data
  have hle : s.data.queue.size ≤ maxSize := hdata.capacity ▸ s.data.queue.bounded
  obtain ⟨bs, hbs⟩ := (MutexLock.run_refines h).2
  refine ⟨hdata.fifo, hle, run_atomic hbs, MutexLock.serving_ok (serving maxSize) hfifo h,
    fun hs t => ?_⟩
  refine (MutexLock.serving_stuck (serving maxSize) hfifo h hs t).imp_right ?_
  rintro ⟨c, k, hph, hloop, hzero⟩
  cases c with
  | put x =>
    cases hloop
    have hfull : maxSize - s.data.queue.size = 0 := Nat.cast_eq_zero.mp hzero
    exact .inr ⟨x, hph, by omega⟩
  | take =>
    cases hloop
    exact .inl ⟨hph, Nat.cast_eq_zero.mp hzero⟩

open MutexLock in
/-- A producer waits at a full queue until a consumer makes room. -/
theorem bounded_threads_sample : ∃ s : MutexLock Nat (Items Nat) (Call Nat) Cond,
    (MutexLock.machine methods (· + 1)).Run (.new (.new 1)) [.call 1 (.put 7), .next 1 none,
      .next 1 none, .next 1 none, .next 1 none, .next 1 none, .call 2 (.put 8), .next 2 none,
      .next 2 none, .next 2 none, .next 2 none, .call 3 .take, .next 3 none, .next 3 none,
      .next 3 (some 2), .next 3 none, .next 3 none, .next 2 none, .next 2 none, .next 2 none] s ∧
    s.data.taken ++ s.data.queue.toList = s.data.puts ∧ s.data.queue.size ≤ 1 ∧
    s.data.puts = [7, 8] := by
  obtain ⟨s, hr, hs⟩ := (MutexLock.machine methods (· + 1)).exists_run
    (.new (.new 1) : MutexLock Nat (Items Nat) (Call Nat) Cond) [.call 1 (.put 7), .next 1 none,
      .next 1 none, .next 1 none, .next 1 none, .next 1 none, .call 2 (.put 8), .next 2 none,
      .next 2 none, .next 2 none, .next 2 none, .call 3 .take, .next 3 none, .next 3 none,
      .next 3 (some 2), .next 3 none, .next 3 none, .next 2 none, .next 2 none, .next 2 none]
    (fun s => s.data.puts) [7, 8] (by decide +kernel)
  exact ⟨s, hr, (bounded_threads hr).1, (bounded_threads hr).2.1, hs⟩

end Refinement

end BoundedBlockingQueue
end Muduo.Base
