import Muduo.Base.AtomicMethods

/-! `muduo::BlockingQueue` over `MutexLock` and `Condition`. -/
namespace Muduo.Base
open Muduo.Support

/-- `queue_`, with the items in the order they went in, and in the order they came out. -/
structure BlockingQueue (α : Type) where
  queue : List α
  puts : List α
  taken : List α
  deriving DecidableEq, Repr

namespace BlockingQueue
variable {T α : Type}

inductive Call (α : Type) where
  | put (x : α)
  | take

def new : BlockingQueue α := ⟨[], [], []⟩

def take (s : BlockingQueue α) : Except Fault (BlockingQueue α) := do
  assert (¬ s.queue.isEmpty)
  match s.queue with
  | front :: queue => return { s with
      queue
      taken := s.taken ++ [front] }
  | [] => .error .memory

/-- There is one condition, `notEmpty_`. -/
def methods : Methods (BlockingQueue α) (Call α) Unit where
  waits
    | .put _, _ => none
    | .take, s => if s.queue.isEmpty then some () else none
  body
    | .put x, s => return { s with
        queue := s.queue ++ [x]
        puts := s.puts ++ [x] }
    | .take, s => s.take
  notifies
    | .put _, _ => some (.notify ())
    | .take, _ => none

/-- The condition that a method waits for. -/
def loop : Call α → Option Unit
  | .put _ => none
  | .take => some ()

/-- What went in comes out, in this order. -/
def Fifo (s : BlockingQueue α) : Prop := s.taken ++ s.queue = s.puts

theorem new_fifo : (new : BlockingQueue α).Fifo := rfl

theorem take_spec {s : BlockingQueue α} (hi : s.Fifo) (hne : s.queue.isEmpty = false) :
    ∃ s', s.take = .ok s' ∧ s'.Fifo ∧ s'.queue.length + 1 = s.queue.length := by
  obtain ⟨queue, puts, taken⟩ := s
  cases queue with
  | nil => cases hne
  | cons front queue =>
    refine ⟨⟨queue, puts, taken ++ [front]⟩, rfl, ?_, rfl⟩
    calc taken ++ [front] ++ queue
    _ = taken ++ front :: queue := List.append_assoc ..
    _ = puts := hi

/-- There are as many things to wait for as the queue has items. -/
theorem serving : Monitor.Serving (methods : Methods (BlockingQueue α) (Call α) Unit) Fifo loop
    fun _ s => (s.queue.length : ℕ∞) where
  waits c s k _ h := by
    cases c with
    | put x => cases h
    | take =>
      obtain ⟨he, -⟩ := Option.ite_some_none_eq_some.mp h
      rw [List.isEmpty_iff] at he
      exact ⟨rfl, by rw [he]; rfl⟩
  body c s hi h := by
    cases c with
    | put x =>
      refine ⟨_, rfl, ?_, fun k => .inr ?_⟩
      · calc s.taken ++ (s.queue ++ [x])
        _ = s.taken ++ s.queue ++ [x] := (List.append_assoc ..).symm
        _ = s.puts ++ [x] := congrArg (· ++ [x]) hi
      · simp [loop, methods]
    | take =>
      have hne : s.queue.isEmpty = false := by simpa [methods] using h
      obtain ⟨s', hok, hi', hlen⟩ := take_spec hi hne
      refine ⟨s', hok, hi', fun k => .inr ?_⟩
      simp only [loop, methods, ← hlen]
      simp

variable [DecidableEq T] {tid : T → Nat} {s : MutexLock T (BlockingQueue α) (Call α) Unit}

/-- Between any steps of any number of threads, what went in and is not out is in the queue, in
this order. No assertion fails, and threads that cannot go on are all in `take()`, with nothing
in the queue. -/
theorem blocking_fifo {as : List (MutexLock.Move T (Call α) Unit)}
    (h : (MutexLock.machine methods tid).Run (.new new) as s) :
    s.data.taken ++ s.data.queue = s.data.puts ∧
    (∀ a, ∃ s', (MutexLock.machine methods tid).step s a = .ok s') ∧
    (MutexLock.Stuck methods s → ∀ t, s.phase t = .outside ∨
      s.phase t = .blocked .take () ∧ s.data.queue = []) := by
  refine ⟨(MutexLock.serving_run serving new_fifo h).2.data, MutexLock.serving_ok serving new_fifo h,
    fun hs t => ?_⟩
  refine (MutexLock.serving_stuck serving new_fifo h hs t).imp_right ?_
  rintro ⟨c, k, hph, hloop, hzero⟩
  cases c with
  | put x => cases hloop
  | take => exact ⟨hph, List.length_eq_zero_iff.mp (Nat.cast_eq_zero.mp hzero)⟩

open MutexLock in
/-- A consumer waits for the item that another thread puts, and takes it. -/
theorem blocking_fifo_sample : ∃ s : MutexLock Nat (BlockingQueue Nat) (Call Nat) Unit,
    (machine methods (· + 1)).Run (.new new) [.call 0 .take, .next 0 none, .next 0 none,
      .next 0 none, .next 0 none, .call 1 (.put 7), .next 1 none, .next 1 none, .next 1 (some 0),
      .next 1 none, .next 1 none, .next 0 none, .next 0 none, .next 0 none] s ∧
    s.data.taken ++ s.data.queue = s.data.puts ∧ s.data.taken = [7] := by
  obtain ⟨s, hr, hs⟩ := (machine methods (· + 1)).exists_run
    (.new new : MutexLock Nat (BlockingQueue Nat) (Call Nat) Unit) [.call 0 .take, .next 0 none,
      .next 0 none, .next 0 none, .next 0 none, .call 1 (.put 7), .next 1 none, .next 1 none,
      .next 1 (some 0), .next 1 none, .next 1 none, .next 0 none, .next 0 none, .next 0 none]
    (fun s => s.data.taken) [7] (by decide +kernel)
  exact ⟨s, hr, (blocking_fifo hr).1, hs⟩

end BlockingQueue
end Muduo.Base
