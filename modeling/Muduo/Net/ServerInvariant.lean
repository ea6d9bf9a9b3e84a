import Muduo.Net.ConnectionEffect
import Muduo.Net.TcpServer
import Muduo.Support.Update

/-! What holds of a server between two steps. The next call in the life of a connection
is in one place: in the queue of the loop that will run it, in a `handleClose` ahead of
its close callback, or in the hand of the loop that has just taken it. -/
namespace Muduo.Net
open Muduo.Support

/-- The calls of a life in their order. -/
def life : List LifeCall :=
  [.connectEstablished, .handleClose, .removeConnectionInLoop, .connectDestroyed]

/-- How far a connection has come: the calls that have run, its state, and what the
connection callback has seen. -/
inductive Stage : List LifeCall → StateE → List Bool → Prop where
  | connecting : Stage [] .kConnecting []
  | established {state : StateE} (h : state.up) : Stage [.connectEstablished] state [true]
  | closed : Stage [.connectEstablished, .handleClose] .kDisconnected [true, false]
  | removed : Stage [.connectEstablished, .handleClose, .removeConnectionInLoop] .kDisconnected
      [true, false]
  | destroyed : Stage life .kDisconnected [true, false]

/-- The call that a queued task is going to make. -/
def Task.lifeCall : Task → Option (ConnId × LifeCall)
  | .functor id f => f.lifeCall.map (Prod.mk id)
  | .removeConnectionInLoop id => some (id, .removeConnectionInLoop)

/-- The loop that runs a call for a connection of `loop`. -/
def LifeCall.home (loop : LoopId) : LifeCall → LoopId
  | .removeConnectionInLoop => 0
  | .connectEstablished | .handleClose | .connectDestroyed => loop

/-- A connection of `loop` that `ran` these calls has its next call in one place. -/
structure Tokens (loop : LoopId) (ran : List LifeCall) (queue : LoopId → LifeCall → Nat)
    (closing : LoopId → Nat) (hand : LifeCall → Nat) : Prop where
  away : ∀ l x, l ≠ x.home loop → queue l x = 0
  closer : ∀ l, l ≠ loop → closing l = 0
  next : ∀ x, x ≠ .handleClose → queue (x.home loop) x +
    (if x = .removeConnectionInLoop then closing loop else 0) + hand x =
      if ran ++ [x] <+: life then 1 else 0

/-- Calls run, and tokens move between the close callback and the hand of the loop. -/
theorem Tokens.move {loop : LoopId} {ran ran' : List LifeCall} {queue : LoopId → LifeCall → Nat}
    {closing closing' : LoopId → Nat} {hand hand' : LifeCall → Nat}
    (h : Tokens loop ran queue closing hand) (hc : ∀ l, l ≠ loop → closing' l = 0)
    (hx : ∀ x, x ≠ .handleClose →
      (if x = .removeConnectionInLoop then closing' loop else 0) + hand' x +
        (if ran ++ [x] <+: life then 1 else 0) =
      (if x = .removeConnectionInLoop then closing loop else 0) + hand x +
        if ran' ++ [x] <+: life then 1 else 0) : Tokens loop ran' queue closing' hand' := by
  refine ⟨h.away, hc, fun x hne => ?_⟩
  have h₀ := h.next x hne
  have h₁ := hx x hne
  omega

namespace TcpServer

def inFlight (s : TcpServer) (id : ConnId) (loop : LoopId) (x : LifeCall) : Nat :=
  Mailbox.carried Task.lifeCall s.pending loop (id, x)

def isClosing (s : TcpServer) (id : ConnId) (loop : LoopId) : Nat :=
  if s.closing loop = some id then 1 else 0

def handed (hand : Option (ConnId × LifeCall)) (id : ConnId) (x : LifeCall) : Nat :=
  if hand = some (id, x) then 1 else 0

@[simp] theorem handed_none (id : ConnId) (x : LifeCall) : handed none id x = 0 := rfl

@[simp] theorem handed_some (id : ConnId) (x y : LifeCall) :
    handed (some (id, x)) id y = if x = y then 1 else 0 := by
  simp [handed]

structure Alive (s : TcpServer) (id : ConnId) (o : Connection) : Prop where
  name : o.name = s.connName id
  stage : Stage o.ran o.conn.state o.conn.upDowns
  resting : o.conn.Resting
  queued : o.conn.queued = []

/-- A queued task is for a connection of the loop, and only `connectEstablished` comes
to one that is connecting. -/
def Sound (s : TcpServer) (loop : LoopId) : Task → Prop
  | .functor id f => ∃ o, s.objects id = some o ∧ o.loop = loop ∧
      (f.lifeCall = none → o.conn.state ≠ .kConnecting)
  | .removeConnectionInLoop id => ∃ o, s.objects id = some o

structure Inv (s : TcpServer) (hand : Option (ConnId × LifeCall)) : Prop where
  alive : ∀ id o, s.objects id = some o → Alive s id o
  tokens : ∀ id o, s.objects id = some o →
    Tokens o.loop o.ran (s.inFlight id) (s.isClosing id) (handed hand id)
  tasks : ∀ l t, t ∈ s.pending l → s.Sound l t
  closers : ∀ l id, s.closing l = some id → ∃ o, s.objects id = some o
  known : ∀ id o, s.objects id = some o → id < s.nextConnId
  range : s.nextConnId ≤ INT_MAX + 1
  registry : ∀ n id, s.connections.find n = some id ↔
    ∃ o, s.objects id = some o ∧ o.name = n ∧ .removeConnectionInLoop ∉ o.ran
  pool : s.threadPool.loops = [] ∨ s.threadPool.next < s.threadPool.loops.length

variable {s s' : TcpServer} {hand hand' : Option (ConnId × LifeCall)} {id j : ConnId}
  {o o' : Connection} {loop : LoopId} {t : Task} {ts : List Task} {c : TcpConnection}

/-- The buffer of `newConnection` holds any name suffix of an `int`. -/
theorem connName_injective (hi : id ≤ INT_MAX) (hj : j ≤ INT_MAX)
    (h : s.connName id = s.connName j) : id = j := by
  have fits : ∀ k, k ≤ INT_MAX → snprintf s.ipPort k =
      ascii ['-'] ++ s.ipPort.bytes ++ ascii ['#'] ++ decimal k := by
    intro k hk
    have hd : (decimal k).length ≤ 10 := decimal_length_le (by decide) (by
      have : INT_MAX < 10 ^ 10 := by decide
      omega)
    have hp := s.ipPort.short
    apply List.take_of_length_le
    simp only [List.length_append, ascii, List.length_map, List.length_cons, List.length_nil]
    omega
  have hs := List.append_cancel_left h
  rw [fits id hi, fits j hj] at hs
  exact decimal_injective (List.append_cancel_left hs)

theorem Inv.name_injective (h : Inv s hand) (ho : s.objects id = some o)
    (hp : s.objects j = some o') (hn : o.name = o'.name) : id = j := by
  have hid : ∀ i p, s.objects i = some p → i ≤ INT_MAX := by
    intro i p hi
    exact Nat.le_of_lt_succ (Nat.lt_of_lt_of_le (h.known i p hi) h.range)
  rw [(h.alive id o ho).name, (h.alive j o' hp).name] at hn
  exact connName_injective (hid id o ho) (hid j o' hp) hn

theorem new_inv (name : Bytes) (ipPort : IpPort) (loops : List LoopId) (writeComplete : Bool) :
    Inv (new name ipPort loops writeComplete) none where
  alive := by simp [new]
  tokens := by simp [new]
  tasks := by simp [new]
  closers := by simp [new]
  known := by simp [new]
  range := by simp [new, INT_MAX]
  registry := by simp [new]
  pool := by
    cases loops
    · exact .inl rfl
    · exact .inr (Nat.zero_lt_succ _)

/-- A connection with nothing queued has no task. -/
theorem Inv.inFlight_absent (h : Inv s hand) (hn : s.objects id = none) (l : LoopId) (x : LifeCall) :
    s.inFlight id l x = 0 := by
  apply Mailbox.carried_eq_zero
  intro t ht hx
  have hs := h.tasks l t ht
  cases t with
  | functor i f =>
    obtain ⟨y, _, hy⟩ := Option.map_eq_some_iff.mp hx
    cases hy
    obtain ⟨o, ho, _⟩ := hs
    cases ho.symm.trans hn
  | removeConnectionInLoop i =>
    cases hx
    obtain ⟨o, ho⟩ := hs
    cases ho.symm.trans hn

/-- The loop takes the front of its queue. -/
theorem Inv.take (h : Inv s none) (hp : s.pending loop = t :: ts) :
    Inv { s with pending := s.pending.take loop } t.lifeCall := by
  have hflow : ∀ id l x, s.inFlight id l x =
      inFlight { s with pending := s.pending.take loop } id l x +
        if l = loop ∧ t.lifeCall = some (id, x) then 1 else 0 :=
    fun id l x => Mailbox.carried_take hp
  refine ⟨fun id o ho => ?_, fun id o ho => ?_, fun l t ht => ?_, h.closers, h.known, h.range,
    h.registry, h.pool⟩
  · obtain ⟨hn, hs, hr, hq⟩ := h.alive id o ho
    exact ⟨hn, hs, hr, hq⟩
  · have htok := h.tokens id o ho
    have haway : ∀ l x, l ≠ x.home o.loop →
        inFlight { s with pending := s.pending.take loop } id l x = 0 := by
      intro l x hl
      have h₀ := htok.away l x hl
      have h₁ := hflow id l x
      omega
    refine ⟨haway, htok.closer, fun x hx => ?_⟩
    have h₀ := htok.next x hx
    have h₁ := hflow id (x.home o.loop) x
    simp only [handed, reduceCtorEq, if_false, Nat.add_zero] at h₀ ⊢
    by_cases hc : t.lifeCall = some (id, x)
    · have hl : x.home o.loop = loop := by
        by_contra hne
        have h₂ := htok.away loop x (Ne.symm hne)
        have h₃ := hflow id loop x
        rw [if_pos ⟨rfl, hc⟩] at h₃
        omega
      rw [if_pos ⟨hl, hc⟩] at h₁
      rw [if_pos hc]
      change _ + (if x = .removeConnectionInLoop then s.isClosing id o.loop else 0) + 1 = _
      omega
    · rw [if_neg (fun hx => hc hx.2)] at h₁
      rw [if_neg hc]
      change _ + (if x = .removeConnectionInLoop then s.isClosing id o.loop else 0) + 0 = _
      omega
  · exact h.tasks l t (Mailbox.mem_of_take ht)

/-- The call in hand goes into the queue of the loop that runs it. -/
theorem Inv.post {x : LifeCall} (h : Inv s (some (id, x))) (ho : s.objects id = some o)
    (ht : t.lifeCall = some (id, x)) : Inv (s.queueInLoop (x.home o.loop) [t]) none := by
  have hflow : ∀ j l y, (s.queueInLoop (x.home o.loop) [t]).inFlight j l y =
      s.inFlight j l y + if l = x.home o.loop ∧ (id, x) = (j, y) then 1 else 0 := by
    intro j l y
    refine Mailbox.carried_post.trans ?_
    simp only [ht, Option.some.injEq]
    rfl
  refine ⟨fun j p hp => ?_, fun j p hp => ?_, fun l u hu => ?_, h.closers, h.known, h.range,
    h.registry, h.pool⟩
  · obtain ⟨hn, hs, hr, hq⟩ := h.alive j p hp
    exact ⟨hn, hs, hr, hq⟩
  · have htok := h.tokens j p hp
    refine ⟨fun l y hl => ?_, htok.closer, fun y hy => ?_⟩
    · rw [hflow, htok.away l y hl, if_neg]
      rintro ⟨rfl, he⟩
      cases he
      cases ho.symm.trans hp
      exact hl rfl
    · have h₀ := htok.next y hy
      rw [hflow]
      simp only [handed, Option.some.injEq] at h₀ ⊢
      change _ + (if y = .removeConnectionInLoop then s.isClosing j p.loop else 0) + _ = _
      by_cases he : (id, x) = (j, y)
      · cases he
        cases ho.symm.trans hp
        rw [if_pos ⟨rfl, rfl⟩]
        simp only [if_true, reduceCtorEq, if_false] at h₀ ⊢
        omega
      · rw [if_neg (fun hx => he hx.2)]
        simp only [he, if_false, reduceCtorEq] at h₀ ⊢
        omega
  · rcases Mailbox.mem_post.mp hu with hold | ⟨rfl, hnew⟩
    · exact h.tasks l u hold
    · cases List.mem_singleton.mp hnew
      cases t with
      | functor i f =>
        obtain ⟨y, hf, hy⟩ := Option.map_eq_some_iff.mp ht
        cases hy
        refine ⟨o, ho, ?_, fun hn => by rw [hf] at hn; cases hn⟩
        cases f <;> cases hf <;> rfl
      | removeConnectionInLoop i =>
        cases ht
        exact ⟨o, ho⟩

/-- The map after a change of one connection that does not remove it. -/
theorem Inv.registry_kept (h : Inv s hand) (ho : s.objects id = some o) (hname : o'.name = o.name)
    (hreg : .removeConnectionInLoop ∈ o'.ran ↔ .removeConnectionInLoop ∈ o.ran) (n : Bytes)
    (j : ConnId) : s.connections.find n = some j ↔
      ∃ p, Function.update s.objects id (some o') j = some p ∧ p.name = n ∧
        .removeConnectionInLoop ∉ p.ran := by
  rw [h.registry]
  by_cases hj : j = id
  · subst hj
    simp only [Function.update_self, ho, Option.some.injEq, exists_eq_left', hname, hreg]
  · simp only [Function.update_of_ne hj]

/-- Tasks stay sound while the connections stay, in their loops, and none starts to connect. -/
theorem Sound.kept {l : LoopId} {t : Task} (h : s.Sound l t)
    (hkept : ∀ j p, s.objects j = some p → ∃ p', s'.objects j = some p' ∧ p'.loop = p.loop ∧
      (p'.conn.state = .kConnecting → p.conn.state = .kConnecting)) : s'.Sound l t := by
  cases t with
  | functor j f =>
    obtain ⟨p, hp, hl, hs⟩ := h
    obtain ⟨p', hp', hl', hlate⟩ := hkept j p hp
    exact ⟨p', hp', hl'.trans hl, fun hf hx => hs hf (hlate hx)⟩
  | removeConnectionInLoop j =>
    obtain ⟨p, hp⟩ := h
    obtain ⟨p', hp', _⟩ := hkept j p hp
    exact ⟨p', hp'⟩

/-- One connection changes, and its functors go to its loop. -/
theorem Inv.replace (h : Inv s hand) (ho : s.objects id = some o) (o' : Connection)
    (fs : List Functor) (closing : LoopId → Option ConnId) (connections : OrderedMap Bytes ConnId)
    (hand' : Option (ConnId × LifeCall)) (hname : o'.name = o.name)
    (hloop : o'.loop = o.loop) (hstage : Stage o'.ran o'.conn.state o'.conn.upDowns)
    (hrest : o'.conn.Resting) (hqueued : o'.conn.queued = [])
    (hlate : o'.conn.state = .kConnecting → o.conn.state = .kConnecting)
    (hnew : fs ≠ [] → o'.conn.state ≠ .kConnecting) (hfs : ∀ f ∈ fs, f.lifeCall = none)
    (hreg : ∀ n j, connections.find n = some j ↔
      ∃ p, Function.update s.objects id (some o') j = some p ∧ p.name = n ∧
        .removeConnectionInLoop ∉ p.ran)
    (hclosing : ∀ l j, j ≠ id → (closing l = some j ↔ s.closing l = some j))
    (hhand : ∀ j x, j ≠ id → (hand' = some (j, x) ↔ hand = some (j, x)))
    (htok : Tokens o.loop o'.ran (s.inFlight id) (fun l => if closing l = some id then 1 else 0)
      (handed hand' id)) :
    Inv { s with
      connections
      objects := Function.update s.objects id (some o')
      pending := s.pending.post o.loop (fs.map (.functor id))
      closing } hand' := by
  have hflow : ∀ j l x, Mailbox.carried Task.lifeCall
      (s.pending.post o.loop (fs.map (.functor id))) l (j, x) = s.inFlight j l x := by
    intro j l x
    apply Mailbox.carried_post_none
    intro t ht
    obtain ⟨f, hf, rfl⟩ := List.mem_map.mp ht
    rw [Task.lifeCall, hfs f hf]
    rfl
  have hkept : ∀ j p, s.objects j = some p →
      ∃ p', Function.update s.objects id (some o') j = some p' ∧ p'.loop = p.loop ∧
        (p'.conn.state = .kConnecting → p.conn.state = .kConnecting) := by
    intro j p hp
    by_cases hj : j = id
    · subst hj
      cases ho.symm.trans hp
      exact ⟨o', Function.update_self .., hloop, hlate⟩
    · exact ⟨p, (Function.update_of_ne hj _ _).trans hp, rfl, fun hx => hx⟩
  constructor
  · intro j p hp
    rcases update_some hp with ⟨rfl, rfl⟩ | ⟨_, hp⟩
    · exact ⟨hname.trans (h.alive j o ho).name, hstage, hrest, hqueued⟩
    · obtain ⟨hn, hs, hr, hq⟩ := h.alive j p hp
      exact ⟨hn, hs, hr, hq⟩
  · intro j p hp
    rcases update_some hp with ⟨rfl, rfl⟩ | ⟨hj, hp⟩
    · rw [hloop]
      exact ⟨fun l x hl => (hflow j l x).trans (htok.away l x hl), htok.closer, fun x hx => by
        have hf := hflow j (x.home o.loop) x
        rw [← htok.next x hx, ← hf]
        rfl⟩
    · have ht := h.tokens j p hp
      have hc : ∀ l, (if closing l = some j then 1 else 0) = s.isClosing j l := by
        intro l
        simp only [isClosing, hclosing l j hj]
      have hh : ∀ x, handed hand' j x = handed hand j x := by
        intro x
        simp only [handed, hhand j x hj]
      refine ⟨fun l x hl => (hflow j l x).trans (ht.away l x hl),
        fun l hl => (hc l).trans (ht.closer l hl), fun x hx => ?_⟩
      have hf := hflow j (x.home p.loop) x
      rw [hh, ← ht.next x hx, ← hf, ← hc]
      rfl
  · intro l t ht
    rcases Mailbox.mem_post.mp ht with hold | ⟨rfl, hmem⟩
    · exact (h.tasks l t hold).kept hkept
    · obtain ⟨f, hf, rfl⟩ := List.mem_map.mp hmem
      exact ⟨o', Function.update_self .., hloop, fun _ => hnew (List.ne_nil_of_mem hf)⟩
  · intro l j hj
    by_cases hji : j = id
    · subst hji
      exact ⟨o', Function.update_self ..⟩
    · obtain ⟨p, hp⟩ := h.closers l j ((hclosing l j hji).mp hj)
      exact ⟨p, (Function.update_of_ne hji _ _).trans hp⟩
  · intro j p hp
    rcases update_some hp with ⟨rfl, rfl⟩ | ⟨_, hp⟩
    · exact h.known j o ho
    · exact h.known j p hp
  · exact h.range
  · exact hreg
  · exact h.pool

end TcpServer
end Muduo.Net
