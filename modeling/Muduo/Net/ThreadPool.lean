import Muduo.Net.TcpServer
import Muduo.Support.Turns

/-! `muduo::net::EventLoopThreadPool` from its `start` on. -/
namespace Muduo.Net
open Muduo.Support

/-- A pool with `started_` and `numThreads_`; its `baseLoop_` is 0. -/
structure ThreadPool extends EventLoopThreadPool where
  started : Bool
  numThreads : Nat

namespace ThreadPool

/-- A new pool after `setThreadNum(numThreads)`. -/
def new (numThreads : Nat) : ThreadPool where
  loops := []
  next := 0
  started := false
  numThreads := numThreads

/-- `startLoop()` of the `i`-th thread, whose loop is its own. -/
def startLoop (i : Nat) : LoopId := i + 1

def start (p : ThreadPool) : Except Fault ThreadPool := do
  assert (p.started = false)
  let loops := (List.range p.numThreads).foldl (fun loops i => loops ++ [startLoop i]) p.loops
  return { p with started := true, loops }

def getNextLoop (p : ThreadPool) : Except Fault (LoopId × ThreadPool) := do
  assert (p.started = true)
  let (loop, pool) ← p.toEventLoopThreadPool.getNextLoop
  return (loop, { p with toEventLoopThreadPool := pool })

def getLoopForHash (p : ThreadPool) (hashCode : Nat) : Except Fault LoopId :=
  if p.loops = [] then return 0
  else match p.loops[hashCode % p.loops.length]? with
    | none => .error .memory
    | some loop => return loop

def getAllLoops (p : ThreadPool) : Except Fault (List LoopId) := do
  assert (p.started = true)
  if p.loops = [] then return [0] else return p.loops

/-- The calls that a started pool gets. -/
inductive Call where
  | getNextLoop
  | getLoopForHash (hashCode : Nat)
  | getAllLoops
  deriving DecidableEq

/-- A pool, and the loops that `getNextLoop` returned, oldest first. -/
structure Assigned where
  pool : ThreadPool
  loops : List LoopId

def step (s : Assigned) : Call → Except Fault Assigned
  | .getNextLoop => do
      let (loop, pool) ← s.pool.getNextLoop
      return ⟨pool, s.loops ++ [loop]⟩
  | .getLoopForHash hashCode => do
      let _ ← s.pool.getLoopForHash hashCode
      return s
  | .getAllLoops => do
      let _ ← s.pool.getAllLoops
      return s

def machine : Machine Assigned Call := ⟨fun _ _ => True, step⟩

/-- The loops of `n` threads. -/
def threadLoops (n : Nat) : List LoopId := (List.range n).map startLoop

/-- The loops that serve connections: the base loop where there is no thread. -/
def allLoops (n : Nat) : List LoopId := if threadLoops n = [] then [0] else threadLoops n

/-- A started pool of `n` threads that has handed out its loops in turn. -/
structure InTurn (n : Nat) (h : allLoops n ≠ []) (s : Assigned) : Prop where
  started : s.pool.started = true
  loops : s.pool.loops = threadLoops n
  next : s.pool.next = s.loops.length % (allLoops n).length
  assigned : s.loops = turns (allLoops n) h s.loops.length

variable {n : Nat} {s s' : Assigned}

theorem threadLoops_length (n : Nat) : (threadLoops n).length = n := by
  rw [threadLoops, List.length_map, List.length_range]

theorem threadLoops_eq_nil : threadLoops n = [] ↔ n = 0 := by
  rw [← List.length_eq_zero_iff, threadLoops_length]

theorem allLoops_ne_nil (n : Nat) : allLoops n ≠ [] := by
  rw [allLoops]
  split
  · exact List.cons_ne_nil 0 []
  · assumption

theorem allLoops_nodup (n : Nat) : (allLoops n).Nodup := by
  rw [allLoops]
  split
  · exact List.nodup_singleton 0
  · exact List.nodup_range.map fun i j => Nat.succ.inj

/-- `start` appends the loop of each thread. -/
theorem start_new (n : Nat) :
    (new n).start = .ok { new n with started := true, loops := threadLoops n } := by
  have hfold : (List.range n).foldl (fun loops i => loops ++ [startLoop i]) [] = threadLoops n := by
    rw [List.foldl_append_eq_append, List.nil_append, ← List.flatMap_def, ← List.map_eq_flatMap,
      threadLoops]
  rw [← hfold]
  rfl

theorem start_inTurn (n : Nat) :
    InTurn n (allLoops_ne_nil n) ⟨{ new n with started := true, loops := threadLoops n }, []⟩ where
  started := rfl
  loops := rfl
  next := (Nat.zero_mod _).symm
  assigned := rfl

theorem allLoops_of_threads (hn : threadLoops n ≠ []) : allLoops n = threadLoops n := if_neg hn

theorem allLoops_of_none (hn : threadLoops n = []) : allLoops n = [0] := if_pos hn

/-- The loop that a call returns is the one whose turn it is, and the cursor moves on. -/
theorem getNextLoop_turn (h : InTurn n (allLoops_ne_nil n) s) :
    ∃ next, s.pool.toEventLoopThreadPool.getNextLoop =
        .ok (turn (allLoops n) (allLoops_ne_nil n) s.loops.length, ⟨threadLoops n, next⟩) ∧
      next = (s.loops.length + 1) % (allLoops n).length := by
  have hturn := getElem?_mod_length (allLoops_ne_nil n) s.loops.length
  have hpool : s.pool.toEventLoopThreadPool =
      ⟨threadLoops n, s.loops.length % (allLoops n).length⟩ := by
    rw [← h.loops, ← h.next]
  rw [hpool, EventLoopThreadPool.getNextLoop]
  dsimp only
  by_cases hn : threadLoops n = []
  · have hall : (allLoops n).length = 1 := by
      rw [allLoops_of_none hn, List.length_singleton]
    have hbase : ∀ loop ∈ allLoops n, loop = 0 := by
      rw [allLoops_of_none hn]
      exact fun loop hl => List.mem_singleton.mp hl
    rw [if_pos hn, hall, Nat.mod_one, Nat.mod_one,
      hbase _ (turn_mem (allLoops_ne_nil n) s.loops.length)]
    exact ⟨0, rfl, rfl⟩
  · have hlength : (threadLoops n).length = (allLoops n).length := by
      rw [allLoops_of_threads hn]
    have hloop : (threadLoops n)[s.loops.length % (allLoops n).length]? =
        some (turn (allLoops n) (allLoops_ne_nil n) s.loops.length) := by
      rw [← hturn, allLoops_of_threads hn]
    rw [if_neg hn, hloop, hlength]
    exact ⟨_, rfl, cursor_mod (List.length_pos_iff.mpr (allLoops_ne_nil n)) s.loops.length⟩

/-- A step keeps the pool in turn, and hands out one more loop if it is a `getNextLoop`. -/
structure Serves (n : Nat) (s : Assigned) (a : Call) (s' : Assigned) : Prop where
  inTurn : InTurn n (allLoops_ne_nil n) s'
  count : s'.loops.length = s.loops.length + [a].count .getNextLoop

theorem getNextLoop_serves (h : InTurn n (allLoops_ne_nil n) s) :
    ∃ s', step s .getNextLoop = .ok s' ∧ Serves n s .getNextLoop s' := by
  obtain ⟨next, hpool, hnext⟩ := getNextLoop_turn h
  have hok : s.pool.getNextLoop = .ok (turn (allLoops n) (allLoops_ne_nil n) s.loops.length,
      ⟨⟨threadLoops n, next⟩, s.pool.started, s.pool.numThreads⟩) := by
    rw [getNextLoop, hpool, assert_true h.started]
    rfl
  have hstep : step s .getNextLoop = .ok ⟨⟨⟨threadLoops n, next⟩, s.pool.started,
      s.pool.numThreads⟩, s.loops ++ [turn (allLoops n) (allLoops_ne_nil n) s.loops.length]⟩ := by
    rw [step, hok]
    rfl
  have hlength : ∀ loop : LoopId, (s.loops ++ [loop]).length = s.loops.length + 1 := by
    intro loop
    rw [List.length_append, List.length_singleton]
  refine ⟨_, hstep, ⟨h.started, rfl, ?_, ?_⟩, hlength _⟩
  · rw [hlength]
    exact hnext
  · rw [hlength, turns_succ, ← h.assigned]

theorem getLoopForHash_in_range (p : ThreadPool) (hashCode : Nat) :
    ∃ loop, p.getLoopForHash hashCode = .ok loop := by
  rw [getLoopForHash]
  by_cases hn : p.loops = []
  · exact ⟨0, if_pos hn⟩
  · rw [if_neg hn, getElem?_mod_length hn]
    exact ⟨_, rfl⟩

theorem getAllLoops_eq (h : InTurn n (allLoops_ne_nil n) s) :
    s.pool.getAllLoops = .ok (allLoops n) := by
  rw [getAllLoops, assert_true h.started, h.loops, allLoops]
  split <;> rfl

theorem step_serves (h : InTurn n (allLoops_ne_nil n) s) (a : Call) :
    ∃ s', step s a = .ok s' ∧ Serves n s a s' := by
  cases a with
  | getNextLoop => exact getNextLoop_serves h
  | getLoopForHash hashCode =>
    obtain ⟨loop, hloop⟩ := getLoopForHash_in_range s.pool hashCode
    exact ⟨s, by rw [step, hloop]; rfl, h, rfl⟩
  | getAllLoops => exact ⟨s, by rw [step, getAllLoops_eq h]; rfl, h, rfl⟩

/-- Every sequence of calls runs, and leaves the pool in turn. -/
theorem run_serves (h : InTurn n (allLoops_ne_nil n) s) (calls : List Call) :
    ∃ s', machine.Run s calls s' ∧ InTurn n (allLoops_ne_nil n) s' ∧
      s'.loops.length = s.loops.length + calls.count .getNextLoop := by
  induction calls generalizing s with
  | nil => exact ⟨s, .nil s, h, rfl⟩
  | cons a calls ih =>
    obtain ⟨d, hs, hserves⟩ := step_serves h a
    obtain ⟨s', hr, hturn, hcount⟩ := ih hserves.inTurn
    refine ⟨s', .cons trivial hs hr, hturn, ?_⟩
    rw [hcount, hserves.count, Nat.add_assoc, ← List.count_append, List.singleton_append]

theorem getElem?_allLoops (n k : Nat) :
    (allLoops n)[k % (allLoops n).length]? =
      if n = 0 then some 0 else (threadLoops n)[k % n]? := by
  by_cases hn : n = 0
  · rw [if_pos hn, allLoops_of_none (threadLoops_eq_nil.mpr hn), List.length_singleton,
      Nat.mod_one, List.getElem?_cons_zero]
  · rw [if_neg hn, allLoops_of_threads (mt threadLoops_eq_nil.mp hn), threadLoops_length]

/-- After `start`, calls of the three functions never fault; the `k`-th `getNextLoop` returns
`loops_[k % n]`, or the base loop if there is no thread; and no two of the loops that serve
connections differ by more than one connection. -/
theorem assigned_round_robin (n : Nat) (calls : List Call) :
    ∃ p, (new n).start = .ok p ∧ p.loops.length = n ∧
      ∃ s, machine.Run ⟨p, []⟩ calls s ∧ s.loops.length = calls.count .getNextLoop ∧
        (∀ k < s.loops.length, s.loops[k]? = if n = 0 then some 0 else p.loops[k % n]?) ∧
        ∃ all, s.pool.getAllLoops = .ok all ∧ (all = if n = 0 then [0] else p.loops) ∧
          ∀ a ∈ all, ∀ b ∈ all, s.loops.count a ≤ s.loops.count b + 1 := by
  obtain ⟨s, hr, hturn, hcount⟩ := run_serves (start_inTurn n) calls
  refine ⟨_, start_new n, threadLoops_length n, s, hr, hcount.trans (Nat.zero_add _), ?_,
    allLoops n, getAllLoops_eq hturn, if_congr threadLoops_eq_nil rfl rfl, ?_⟩
  · intro k hk
    rw [hturn.assigned, getElem?_turns (allLoops_ne_nil n) hk, getElem?_allLoops]
  · intro a ha b hb
    rw [hturn.assigned]
    exact turns_balanced (allLoops_nodup n) (allLoops_ne_nil n) _ ha hb

end ThreadPool
end Muduo.Net
