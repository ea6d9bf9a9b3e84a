import Muduo.Net.ServerRegistry
import Muduo.Net.ThreadPool

/-! Which loop serves which connection of a server, whatever the threads do. -/
namespace Muduo.Net
open Muduo.Support

namespace TcpServer
open ThreadPool

/-- The loop of a connection, if there is one of this number. -/
def loopOf (s : TcpServer) (id : ConnId) : Option LoopId := (s.objects id).map Connection.loop

/-- The loops of the connections made so far, in the order of their numbers. -/
def servedIn (s : TcpServer) : List LoopId := (List.range s.nextConnId).filterMap s.loopOf

/-- The work that a connection gives waits in its own loop, and its removal in the loop of
the server. -/
structure Homed (s : TcpServer) : Prop where
  functor : ∀ l id f, .functor id f ∈ s.pending l → s.loopOf id = some l
  removal : ∀ l id, .removeConnectionInLoop id ∈ s.pending l → l = 0
  closing : ∀ l id, s.closing l = some id → s.loopOf id = some l

/-- A step that accepts nobody leaves each connection in its loop. -/
structure SameLoops (s t : TcpServer) : Prop where
  loopOf : t.loopOf = s.loopOf
  threadPool : t.threadPool = s.threadPool
  nextConnId : t.nextConnId = s.nextConnId

/-- The loops of `n` threads have been handed out in turn, from connection 1 on. -/
structure InTurn (n : Nat) (s : TcpServer) : Prop where
  positive : 1 ≤ s.nextConnId
  assigned : ∀ id : Nat, s.loopOf id =
    if 1 ≤ id ∧ id < s.nextConnId then some (turn (allLoops n) (allLoops_ne_nil n) (id - 1))
    else none
  loops : s.threadPool.loops = threadLoops n
  next : s.threadPool.next = (s.nextConnId - 1) % (allLoops n).length

variable {s t : TcpServer} {id j : ConnId} {o : Connection} {loop : LoopId} {n : Nat}
  {c : TcpConnection} {calls : List LifeCall}

theorem SameLoops.refl (s : TcpServer) : SameLoops s s := ⟨rfl, rfl, rfl⟩

theorem loopOf_update (ho : s.objects id = some o) {p : Connection} (hp : p.loop = o.loop) :
    (fun j => (Function.update s.objects id (some p) j).map Connection.loop) = s.loopOf := by
  funext j
  by_cases hj : j = id
  · subst hj
    rw [Function.update_self, Option.map_some, hp, loopOf, ho, Option.map_some]
  · rw [Function.update_of_ne hj, loopOf]

theorem store_sameLoops (ho : s.objects id = some o) : SameLoops s (s.store id o calls c) :=
  ⟨loopOf_update ho rfl, rfl, rfl⟩

theorem Homed.store (h : Homed s) (ho : s.objects id = some o) :
    Homed (s.store id o calls c) := by
  have hloops : (s.store id o calls c).loopOf = s.loopOf := (store_sameLoops ho).loopOf
  have hid : s.loopOf id = some o.loop := by rw [loopOf, ho, Option.map_some]
  constructor
  · intro l i f hm
    rw [hloops]
    rcases Mailbox.mem_post.mp hm with hold | ⟨rfl, hnew⟩
    · exact h.functor l i f hold
    · obtain ⟨g, _, hg⟩ := List.mem_map.mp hnew
      cases hg
      exact hid
  · intro l i hm
    rcases Mailbox.mem_post.mp hm with hold | ⟨_, hnew⟩
    · exact h.removal l i hold
    · obtain ⟨g, _, hg⟩ := List.mem_map.mp hnew
      cases hg
  · intro l i hc
    rw [hloops]
    dsimp only [TcpServer.store] at hc
    split at hc
    · rcases update_some hc with ⟨rfl, rfl⟩ | ⟨_, hc⟩
      · exact hid
      · exact h.closing l i hc
    · exact h.closing l i hc

/-- The loop takes the front of its queue, or goes into its close callback. -/
theorem Homed.take (h : Homed s) (loop : LoopId) :
    Homed { s with pending := s.pending.take loop } where
  functor l i f hm := h.functor l i f (Mailbox.mem_of_take hm)
  removal l i hm := h.removal l i (Mailbox.mem_of_take hm)
  closing := h.closing

theorem Homed.closed (h : Homed s) (loop : LoopId) :
    Homed { s with closing := Function.update s.closing loop none } where
  functor := h.functor
  removal := h.removal
  closing l i hc := h.closing l i (update_none hc).2

theorem Homed.post_functor (h : Homed s) (hid : s.loopOf id = some loop) (f : Functor) :
    Homed (s.queueInLoop loop [.functor id f]) := by
  constructor
  · intro l i g hm
    rcases Mailbox.mem_post.mp hm with hold | ⟨rfl, hnew⟩
    · exact h.functor l i g hold
    · cases List.mem_singleton.mp hnew
      exact hid
  · intro l i hm
    rcases Mailbox.mem_post.mp hm with hold | ⟨_, hnew⟩
    · exact h.removal l i hold
    · cases List.mem_singleton.mp hnew
  · exact h.closing

theorem Homed.post_removal (h : Homed s) (id : ConnId) :
    Homed (s.queueInLoop 0 [.removeConnectionInLoop id]) := by
  constructor
  · intro l i g hm
    rcases Mailbox.mem_post.mp hm with hold | ⟨_, hnew⟩
    · exact h.functor l i g hold
    · cases List.mem_singleton.mp hnew
  · intro l i hm
    rcases Mailbox.mem_post.mp hm with hold | ⟨rfl, _⟩
    · exact h.removal l i hold
    · rfl
  · exact h.closing

theorem Homed.congr (h : Homed s) (hl : t.loopOf = s.loopOf) (hp : t.pending = s.pending)
    (hc : t.closing = s.closing) : Homed t where
  functor l i f hm := by
    rw [hl]
    rw [hp] at hm
    exact h.functor l i f hm
  removal l i hm := by
    rw [hp] at hm
    exact h.removal l i hm
  closing l i hi := by
    rw [hl]
    rw [hc] at hi
    exact h.closing l i hi

/-- A step that accepts nobody. -/
structure Stays (s t : TcpServer) : Prop where
  homed : Homed t
  same : SameLoops s t

theorem call_stays {f : TcpConnection → Except Fault TcpConnection} (h : Homed s)
    (hok : s.call id calls f = .ok t) : Stays s t := by
  obtain ⟨o, c, ho, _, rfl⟩ := store_of_call hok
  exact ⟨h.store ho, store_sameLoops ho⟩

theorem removeConnectionInLoop_stays (h : Homed s) (hok : s.removeConnectionInLoop id = .ok t) :
    Stays s t := by
  obtain ⟨o, hd, hok⟩ := bind_ok.mp hok
  obtain ⟨_, hok⟩ := assert_bind_ok.mp hok
  cases hok
  have ho := deref_ok hd
  have hloops := loopOf_update ho (p := { o with ran := o.ran ++ [.removeConnectionInLoop] }) rfl
  have hid : s.loopOf id = some o.loop := by rw [loopOf, ho, Option.map_some]
  have hnoted : Homed { s with
      connections := s.connections.erase o.name
      objects := Function.update s.objects id
        (some { o with ran := o.ran ++ [LifeCall.removeConnectionInLoop] }) } :=
    h.congr hloops rfl rfl
  exact ⟨hnoted.post_functor ((congrFun hloops id).trans hid) _, hloops, rfl, rfl⟩

theorem removeConnection_stays (h : Homed s) (hok : s.removeConnection loop id = .ok t) :
    Stays s t := by
  rw [removeConnection] at hok
  split at hok
  · exact removeConnectionInLoop_stays h hok
  · cases hok
    exact ⟨h.post_removal id, rfl, rfl, rfl⟩

theorem closeCallback_stays (h : Homed s) (hok : s.closeCallback loop = .ok t) : Stays s t := by
  rw [closeCallback] at hok
  split at hok
  · cases hok
    exact ⟨h, .refl s⟩
  · obtain ⟨hh, hl, hp, hi⟩ := removeConnection_stays (h.closed loop) hok
    exact ⟨hh, hl, hp, hi⟩

theorem runFunctor_stays {w : WriteResult} (h : Homed s) (hok : s.runFunctor loop w = .ok t) :
    Stays s t := by
  rw [runFunctor] at hok
  split at hok
  · cases hok
    exact ⟨h, .refl s⟩
  · next u us _ =>
    have htaken : Stays { s with pending := s.pending.take loop } t := by
      cases u with
      | functor i f =>
        exact call_stays (f := fun c => c.runFunctor w f) (h.take loop) hok
      | removeConnectionInLoop i => exact removeConnectionInLoop_stays (h.take loop) hok
    exact ⟨htaken.homed, htaken.same.loopOf, htaken.same.threadPool, htaken.same.nextConnId⟩

theorem step_stays {a : Step} (h : Homed s) (ha : a ≠ .newConnection)
    (hok : machine.step s a = .ok t) : Stays s t := by
  cases a with
  | newConnection => exact absurd rfl ha
  | runFunctor loop w => exact runFunctor_stays h hok
  | closeCallback loop => exact closeCallback_stays h hok
  | handleRead id r => exact call_stays (f := fun c => c.handleRead r) h hok
  | handleWrite id w => exact call_stays (f := fun c => c.handleWrite w) h hok
  | handleClose id => exact call_stays (f := fun c => c.handleClose) h hok
  | send id inLoopThread m data len w =>
    exact call_stays (f := fun c => c.send inLoopThread m data len w) h hok
  | shutdown id inLoopThread =>
    exact call_stays (f := fun c => return c.shutdown inLoopThread) h hok
  | forceClose id => exact call_stays (f := fun c => return c.forceClose) h hok
  | forceCloseWithDelay id => exact call_stays (f := fun c => return c.forceCloseWithDelay) h hok
  | startRead id inLoopThread =>
    exact call_stays (f := fun c => return c.startRead inLoopThread) h hok
  | stopRead id inLoopThread =>
    exact call_stays (f := fun c => return c.stopRead inLoopThread) h hok

theorem InTurn.same (h : InTurn n s) (hs : SameLoops s t) : InTurn n t where
  positive := by
    rw [hs.nextConnId]
    exact h.positive
  assigned id := by
    rw [hs.loopOf, hs.nextConnId]
    exact h.assigned id
  loops := by
    rw [hs.threadPool]
    exact h.loops
  next := by
    rw [hs.threadPool, hs.nextConnId]
    exact h.next

/-- The pool of a server in turn is one that has handed out a loop for each connection. -/
theorem InTurn.pool (h : InTurn n s) : ∃ next,
    s.threadPool.getNextLoop = .ok (turn (allLoops n) (allLoops_ne_nil n) (s.nextConnId - 1),
      ⟨threadLoops n, next⟩) ∧ next = s.nextConnId % (allLoops n).length := by
  have hpos := h.positive
  have hpool : ThreadPool.InTurn n (allLoops_ne_nil n)
      ⟨⟨s.threadPool, true, n⟩, turns (allLoops n) (allLoops_ne_nil n) (s.nextConnId - 1)⟩ := by
    have hlength : (turns (allLoops n) (allLoops_ne_nil n) (s.nextConnId - 1)).length =
        s.nextConnId - 1 := by
      rw [turns, List.length_map, List.length_range]
    refine ⟨rfl, h.loops, ?_, ?_⟩
    · rw [hlength]
      exact h.next
    · rw [hlength]
  obtain ⟨next, hget, hnext⟩ := getNextLoop_turn hpool
  dsimp only at hget hnext
  rw [turns, List.length_map, List.length_range] at hget hnext
  rw [Nat.sub_add_cancel hpos] at hnext
  exact ⟨next, hget, hnext⟩

/-- The connection that `newConnection` makes, before it is established. -/
theorem InTurn.accept (h : InTurn n s) {next : Nat} (hnext : next = s.nextConnId % (allLoops n).length)
    (connections : OrderedMap Bytes ConnId) (p : Connection)
    (hp : p.loop = turn (allLoops n) (allLoops_ne_nil n) (s.nextConnId - 1)) :
    InTurn n { s with
      threadPool := ⟨threadLoops n, next⟩
      nextConnId := s.nextConnId + 1
      objects := Function.update s.objects s.nextConnId (some p)
      connections } where
  positive := Nat.le_add_left 1 s.nextConnId
  assigned id := by
    have hold : s.loopOf id = _ := h.assigned id
    have hpos := h.positive
    dsimp only [loopOf] at hold ⊢
    by_cases hid : id = s.nextConnId
    · subst hid
      rw [Function.update_self, Option.map_some, hp, if_pos ⟨hpos, Nat.lt_succ_self _⟩]
    · rw [Function.update_of_ne hid, hold]
      apply if_congr _ rfl rfl
      omega
  loops := rfl
  next := hnext

theorem Homed.accept (h : Homed s) (hfresh : s.loopOf s.nextConnId = none)
    (threadPool : EventLoopThreadPool) (connections : OrderedMap Bytes ConnId) (p : Connection) :
    Homed { s with
      threadPool
      nextConnId := s.nextConnId + 1
      objects := Function.update s.objects s.nextConnId (some p)
      connections } := by
  have hkept : ∀ i l, s.loopOf i = some l →
      (Function.update s.objects s.nextConnId (some p) i).map Connection.loop = some l := by
    intro i l hi
    rw [Function.update_of_ne, ← hi, loopOf]
    rintro rfl
    cases hfresh.symm.trans hi
  exact ⟨fun l i f hm => hkept i l (h.functor l i f hm), h.removal,
    fun l i hc => hkept i l (h.closing l i hc)⟩

theorem newConnection_inTurn (h : InTurn n s) (hh : Homed s) (hok : s.newConnection = .ok t) :
    InTurn n t ∧ Homed t := by
  obtain ⟨next, hpool, hnext⟩ := h.pool
  rw [newConnection, hpool, ok_bind] at hok
  have hfresh : s.loopOf s.nextConnId = none := by
    rw [h.assigned, if_neg fun hi => Nat.lt_irrefl _ hi.2]
  have hturn := h.accept hnext (s.connections.insert (s.connName s.nextConnId) s.nextConnId)
    ⟨s.connName s.nextConnId, turn (allLoops n) (allLoops_ne_nil n) (s.nextConnId - 1),
      .new s.writeCompleteCallback, []⟩ rfl
  have hhomed := hh.accept hfresh ⟨threadLoops n, next⟩
    (s.connections.insert (s.connName s.nextConnId) s.nextConnId)
    ⟨s.connName s.nextConnId, turn (allLoops n) (allLoops_ne_nil n) (s.nextConnId - 1),
      .new s.writeCompleteCallback, []⟩
  dsimp only at hok
  split at hok
  · obtain ⟨hh', hs⟩ := call_stays hhomed hok
    exact ⟨hturn.same hs, hh'⟩
  · cases hok
    refine ⟨hturn.same ⟨rfl, rfl, rfl⟩, hhomed.post_functor ?_ _⟩
    exact congrArg (Option.map Connection.loop)
      (Function.update_self s.nextConnId _ s.objects)

theorem step_inTurn {a : Step} (h : InTurn n s) (hh : Homed s) (hok : machine.step s a = .ok t) :
    InTurn n t ∧ Homed t := by
  by_cases ha : a = .newConnection
  · subst ha
    exact newConnection_inTurn h hh hok
  · obtain ⟨hh', hs⟩ := step_stays hh ha hok
    exact ⟨h.same hs, hh'⟩

theorem new_inTurn (name : Bytes) (ipPort : IpPort) (writeComplete : Bool) (n : Nat) :
    InTurn n (new name ipPort (threadLoops n) writeComplete) ∧
      Homed (new name ipPort (threadLoops n) writeComplete) := by
  refine ⟨⟨Nat.le_refl 1, fun id => ?_, rfl, (Nat.zero_mod _).symm⟩, ?_⟩
  · rw [if_neg fun hi => Nat.not_lt.mpr hi.1 hi.2]
    rfl
  · constructor <;> simp [new]

/-- The loops of the connections are the turns of the loops that serve them. -/
theorem InTurn.servedIn (h : InTurn n s) :
    s.servedIn = turns (allLoops n) (allLoops_ne_nil n) (s.nextConnId - 1) := by
  obtain ⟨k, hk⟩ := Nat.exists_eq_add_of_le' h.positive
  rw [TcpServer.servedIn, turns, hk, Nat.add_sub_cancel, List.range_succ_eq_map,
    List.filterMap_cons, List.filterMap_map]
  have hzero : s.loopOf 0 = none := by
    rw [h.assigned, if_neg fun hi => Nat.not_succ_le_zero 0 hi.1]
  rw [hzero, ← List.filterMap_eq_map]
  apply List.filterMap_congr
  intro i hi
  have hlt := List.mem_range.mp hi
  have hmade : 1 ≤ i.succ ∧ i.succ < s.nextConnId := by
    rw [hk]
    exact ⟨Nat.succ_le_succ (Nat.zero_le i), Nat.succ_lt_succ hlt⟩
  rw [Function.comp_apply, h.assigned, if_pos hmade]
  rfl

theorem reachable_inTurn {name : Bytes} {ipPort : IpPort} {writeComplete : Bool}
    {as : List Step} (hr : machine.Run (new name ipPort (threadLoops n) writeComplete) as s) :
    InTurn n s ∧ Homed s :=
  hr.invariant (I := fun s => InTurn n s ∧ Homed s)
    (fun _ _ _ hi _ hok => step_inTurn hi.1 hi.2 hok) (new_inTurn name ipPort writeComplete n)

/-- In every run of a server on a started pool of `n` threads, connection `id` lives in the
`(id - 1)`-th turn of the loops that serve connections, no two of these loops ever differ by
more than one connection, and a connection's functors and its close callback are only ever
in its own loop: the base loop of a server with threads has nothing but removals to run. -/
theorem connections_in_turn {p : ThreadPool} (hp : (ThreadPool.new n).start = .ok p)
    {name : Bytes} {ipPort : IpPort} {writeComplete : Bool} {as : List Step}
    (hr : machine.Run (new name ipPort p.loops writeComplete) as s) :
    s.servedIn = turns (allLoops n) (allLoops_ne_nil n) (s.nextConnId - 1) ∧
      (∀ a ∈ allLoops n, ∀ b ∈ allLoops n, s.servedIn.count a ≤ s.servedIn.count b + 1) ∧
      (∀ l id f, .functor id f ∈ s.pending l → s.loopOf id = some l) ∧
      (∀ l id, s.closing l = some id → s.loopOf id = some l) ∧
      ∀ u ∈ s.pending 0, n ≠ 0 → ∃ id, u = .removeConnectionInLoop id := by
  rw [start_new] at hp
  cases hp
  obtain ⟨hturn, hh⟩ := reachable_inTurn hr
  have hserved := hturn.servedIn
  refine ⟨hserved, fun a ha b hb => ?_, hh.functor, hh.closing, fun u hu hn => ?_⟩
  · rw [hserved]
    exact turns_balanced (allLoops_nodup n) (allLoops_ne_nil n) _ ha hb
  · cases u with
    | removeConnectionInLoop id => exact ⟨id, rfl⟩
    | functor id f =>
      have hloop := hh.functor 0 id f hu
      rw [hturn.assigned] at hloop
      split at hloop
      · have hmem := turn_mem (allLoops_ne_nil n) (id - 1)
        rw [Option.some.inj hloop, allLoops_of_threads (mt threadLoops_eq_nil.mp hn)] at hmem
        obtain ⟨i, _, hi⟩ := List.mem_map.mp hmem
        exact absurd hi (Nat.succ_ne_zero i)
      · cases hloop

/-- Three connections on two threads, the first of which closes. -/
theorem connections_in_turn_sample : ∃ s, machine.Run
    (new (ascii ['s']) ⟨ascii ['0', ':', '8', '0'], by decide⟩ (threadLoops 2) false)
    [.newConnection, .newConnection, .newConnection, .runFunctor 1 (.accepted 0), .handleClose 1,
      .closeCallback 1] s ∧
    s.nextConnId = 4 ∧ s.servedIn = turns (allLoops 2) (allLoops_ne_nil 2) (s.nextConnId - 1) := by
  obtain ⟨s, hr, hid⟩ := machine.exists_run
    (new (ascii ['s']) ⟨ascii ['0', ':', '8', '0'], by decide⟩ (threadLoops 2) false)
    [.newConnection, .newConnection, .newConnection, .runFunctor 1 (.accepted 0), .handleClose 1,
      .closeCallback 1] nextConnId 4 (by decide +kernel)
  exact ⟨s, hr, hid, (connections_in_turn (start_new 2) hr).1⟩

end TcpServer
end Muduo.Net
