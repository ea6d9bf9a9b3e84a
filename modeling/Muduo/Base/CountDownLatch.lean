import Muduo.Base.AtomicMethods

/-! `muduo::CountDownLatch` over `MutexLock` and `Condition`. -/
namespace Muduo.Base
open Muduo.Support

/-- `count_`, how often `countDown()` has run, and how many calls of `wait()` are through. -/
structure CountDownLatch where
  count : Int
  downs : Nat
  returned : Nat
  deriving DecidableEq, Repr

namespace CountDownLatch
variable {T : Type}

inductive Call where
  | wait
  | countDown
  | getCount
  deriving DecidableEq, Repr

def new (count : Int) : CountDownLatch := ⟨count, 0, 0⟩

/-- There is one condition, `condition_`. -/
def methods : Methods CountDownLatch Call Unit where
  waits
    | .wait, s => if s.count > 0 then some () else none
    | .countDown, _ | .getCount, _ => none
  body
    | .wait, s => return { s with returned := s.returned + 1 }
    | .countDown, s => return { s with
        count := s.count - 1
        downs := s.downs + 1 }
    | .getCount, s => return s
  notifies
    | .countDown, s => if s.count = 0 then some (.notifyAll ()) else none
    | .wait, _ | .getCount, _ => none

/-- The condition that a method waits for. -/
def loop : Call → Option Unit
  | .wait => some ()
  | .countDown | .getCount => none

/-- A call of `wait()` is through only when the count is. -/
structure Counts (count : Int) (s : CountDownLatch) : Prop where
  count : s.count = count - s.downs
  returned : 0 < s.returned → s.count ≤ 0

theorem new_counts {count : Int} : Counts count (new count) :=
  ⟨(Int.sub_zero count).symm, fun h => absurd h (lt_irrefl 0)⟩

/-- A latch that is open is open for any number of threads. -/
def room (s : CountDownLatch) : ℕ∞ := if s.count ≤ 0 then ⊤ else 0

theorem serving (count : Int) : Monitor.Serving methods (Counts count) loop fun _ => room where
  waits c s k _ h := by
    cases c with
    | wait =>
      obtain ⟨hpos, -⟩ := Option.ite_some_none_eq_some.mp h
      exact ⟨rfl, if_neg (not_le.mpr hpos)⟩
    | countDown => cases h
    | getCount => cases h
  body c s hi h := by
    cases c with
    | wait =>
      have hopen : s.count ≤ 0 := by
        by_contra hpos
        simp [methods, not_le.mp hpos] at h
      refine ⟨_, rfl, ⟨hi.count, fun _ => hopen⟩, fun k => .inr ?_⟩
      simp [room, hopen]
    | countDown =>
      refine ⟨_, rfl, ⟨?_, fun hr => ?_⟩, fun k => ?_⟩
      · have hcount := hi.count
        push_cast
        omega
      · have hle := hi.returned hr
        dsimp only
        omega
      · by_cases hzero : s.count - 1 = 0
        · exact .inl (if_pos hzero)
        · right
          rw [methods]
          simp only [loop, hzero, if_false, reduceCtorEq, add_zero, room]
          by_cases hle : s.count ≤ 0
          · rw [if_pos hle]
            exact le_top
          · have hnot : ¬ s.count - 1 ≤ 0 := by omega
            rw [if_neg hnot]
            exact zero_le
    | getCount => exact ⟨s, rfl, hi, fun k => .inr (by simp [loop, methods])⟩

variable [DecidableEq T] {tid : T → Nat} {count : Int} {s : MutexLock T CountDownLatch Call Unit}

theorem latch_counts {as : List (MutexLock.Move T Call Unit)}
    (h : (MutexLock.machine methods tid).Run (.new (new count)) as s) : Counts count s.data :=
  (MutexLock.serving_run (serving count) new_counts h).2.data

/-- Threads that cannot go on are all in `wait()`, and wait for a `countDown()`. -/
theorem latch_stuck {as : List (MutexLock.Move T Call Unit)}
    (h : (MutexLock.machine methods tid).Run (.new (new count)) as s)
    (hs : MutexLock.Stuck methods s) (t : T) : s.phase t = .outside ∨
      s.phase t = .blocked .wait () ∧ s.data.downs < count := by
  have hcount := (latch_counts h).count
  refine (MutexLock.serving_stuck (serving count) new_counts h hs t).imp_right ?_
  rintro ⟨c, k, hph, hloop, hzero⟩
  have hpos : ¬ s.data.count ≤ 0 := fun hle => by
    rw [room, if_pos hle] at hzero
    exact absurd hzero ENat.top_ne_zero
  cases c with
  | wait => exact ⟨hph, by omega⟩
  | countDown => cases hloop
  | getCount => cases hloop

end CountDownLatch
end Muduo.Base
