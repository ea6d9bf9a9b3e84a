import Muduo.Net.ConnectionYields
import Muduo.Net.OwnedServer
import Muduo.Net.ServerInvariant

/-! How often the connections of a server are going to be destroyed, counted over every
step that returns, whatever the users of the connections do. -/
namespace Muduo.Net
open Muduo.Support

namespace TcpServer

/-- The `connectDestroyed` calls of a connection that have run or are queued in its loop. -/
def destroys (s : TcpServer) (id : ConnId) (o : Connection) : Nat :=
  o.ran.count .connectDestroyed + s.inFlight id o.loop .connectDestroyed

structure Ledger (s : TcpServer) (hand : Option (ConnId × LifeCall)) (due : ConnId → Nat) :
    Prop where
  buffered : ∀ id o, s.objects id = some o → o.conn.Buffered
  queued : ∀ id o, s.objects id = some o → o.conn.queued = []
  tasks : ∀ l id f, .functor id f ∈ s.pending l → ∃ o, s.objects id = some o ∧ o.loop = l
  destroys : ∀ id o, s.objects id = some o →
    s.destroys id o + handed hand id .connectDestroyed = due id

/-- A `removeConnectionInLoop` is queued, or a loop is on its way to `removeConnection`. -/
def Removing (s : TcpServer) : Prop :=
  (∃ l, s.closing l ≠ none) ∨ ∃ l id, .removeConnectionInLoop id ∈ s.pending l

/-- The step goes into a `handleClose`. -/
def handlesClose (s : TcpServer) : Step → Prop
  | .handleClose _ => True
  | .handleRead _ r => r = .data []
  | .runFunctor loop _ => ∃ id o f, (s.pending loop).head? = some (.functor id f) ∧
      s.objects id = some o ∧ o.conn.closesBy f
  | .newConnection | .closeCallback _ | .handleWrite .. | .send .. | .shutdown .. | .forceClose _
  | .forceCloseWithDelay _ | .startRead .. | .stopRead .. => False

/-- The connections of `t` are those of `s`, under their names. -/
structure SameNames (s t : TcpServer) : Prop where
  objects : ∀ id, (t.objects id).map Connection.name = (s.objects id).map Connection.name
  connName : t.connName = s.connName
  nextConnId : t.nextConnId = s.nextConnId

/-- What an operation of a connection, `closing` or not, leaves of the server. -/
structure Operated (s t : TcpServer) (due : ConnId → Nat) (closing : Prop) : Prop where
  ledger : Ledger t none due
  names : SameNames s t
  connections : t.connections = s.connections
  removing : t.Removing ↔ s.Removing ∨ closing

variable {s t : TcpServer} {hand hand' : Option (ConnId × LifeCall)} {due due' : ConnId → Nat}
  {id j : ConnId} {o p : Connection} {loop : LoopId} {u : Task} {us : List Task}
  {c : TcpConnection} {calls : List LifeCall} {closing : Prop}

theorem SameNames.update (ho : s.objects id = some o)
    (ht : t.objects = Function.update s.objects id (some p)) (hn : p.name = o.name)
    (hc : t.connName = s.connName) (hi : t.nextConnId = s.nextConnId) : SameNames s t := by
  refine ⟨fun j => ?_, hc, hi⟩
  rw [ht]
  by_cases hj : j = id
  · subst hj
    rw [Function.update_self, ho, Option.map_some, Option.map_some, hn]
  · rw [Function.update_of_ne hj]

theorem Ledger.take (h : Ledger s none due) (hp : s.pending loop = u :: us) :
    Ledger { s with pending := s.pending.take loop } u.lifeCall due where
  buffered := h.buffered
  queued := h.queued
  tasks l id f hm := h.tasks l id f (Mailbox.mem_of_take hm)
  destroys id o ho := by
    have hd := h.destroys id o ho
    have hflow : s.inFlight id o.loop .connectDestroyed =
        inFlight { s with pending := s.pending.take loop } id o.loop .connectDestroyed +
          if o.loop = loop ∧ u.lifeCall = some (id, .connectDestroyed) then 1 else 0 :=
      Mailbox.carried_take hp
    have hl : u.lifeCall = some (id, .connectDestroyed) → o.loop = loop := by
      intro hu
      cases u with
      | functor i f =>
        obtain ⟨x, _, hx⟩ := Option.map_eq_some_iff.mp hu
        cases hx
        obtain ⟨q, hq, hl⟩ := h.tasks loop id f (by rw [hp]; exact List.mem_cons_self)
        cases ho.symm.trans hq
        exact hl
      | removeConnectionInLoop i => cases hu
    simp only [TcpServer.destroys, handed, reduceCtorEq, if_false] at hd ⊢
    by_cases hu : u.lifeCall = some (id, .connectDestroyed)
    · rw [if_pos ⟨hl hu, hu⟩] at hflow
      rw [if_pos hu]
      omega
    · rw [if_neg fun hx => hu hx.2] at hflow
      rw [if_neg hu]
      omega

theorem Ledger.post (h : Ledger s hand due)
    (hu : ∀ i f, u = .functor i f → ∃ o, s.objects i = some o ∧ o.loop = loop)
    (hdue : ∀ j, handed hand' j .connectDestroyed + due j +
      (if u.lifeCall = some (j, .connectDestroyed) then 1 else 0) =
        handed hand j .connectDestroyed + due' j) :
    Ledger (s.queueInLoop loop [u]) hand' due' where
  buffered := h.buffered
  queued := h.queued
  tasks l i f hm := by
    rcases Mailbox.mem_post.mp hm with hold | ⟨rfl, hnew⟩
    · exact h.tasks l i f hold
    · exact hu i f (List.mem_singleton.mp hnew).symm
  destroys i o ho := by
    have hd := h.destroys i o ho
    have hdue := hdue i
    have hflow : (s.queueInLoop loop [u]).inFlight i o.loop .connectDestroyed =
        s.inFlight i o.loop .connectDestroyed +
          if o.loop = loop ∧ u.lifeCall = some (i, .connectDestroyed) then 1 else 0 :=
      Mailbox.carried_post
    have hl : u.lifeCall = some (i, .connectDestroyed) → o.loop = loop := by
      intro hx
      cases u with
      | functor k f =>
        obtain ⟨x, _, he⟩ := Option.map_eq_some_iff.mp hx
        cases he
        obtain ⟨q, hq, hl⟩ := hu i f rfl
        cases ho.symm.trans hq
        exact hl
      | removeConnectionInLoop k => cases hx
    simp only [TcpServer.destroys] at hd ⊢
    by_cases hx : u.lifeCall = some (i, .connectDestroyed)
    · rw [if_pos ⟨hl hx, hx⟩] at hflow
      rw [if_pos hx] at hdue
      omega
    · rw [if_neg fun hy => hx hy.2] at hflow
      rw [if_neg hx] at hdue
      omega

theorem Ledger.store (h : Ledger s hand due) (ho : s.objects id = some o)
    (hy : o.conn.Yields c closing)
    (hdue : ∀ j, handed hand' j .connectDestroyed + due j +
      (if j = id then calls.count .connectDestroyed else 0) =
        handed hand j .connectDestroyed + due' j) :
    Ledger (s.store id o calls c) hand' due' := by
  obtain ⟨fs, hq, hfs⟩ := hy.queued
  rw [h.queued id o ho, List.nil_append] at hq
  have hflow : ∀ i l, (s.store id o calls c).inFlight i l .connectDestroyed =
      s.inFlight i l .connectDestroyed := by
    intro i l
    apply Mailbox.carried_post_none
    intro v hv
    obtain ⟨f, hf, rfl⟩ := List.mem_map.mp hv
    rw [hq] at hf
    rw [Task.lifeCall, hfs f hf]
    rfl
  refine ⟨fun i q hi => ?_, fun i q hi => ?_, fun l i f hm => ?_, fun i q hi => ?_⟩
  · rcases update_some hi with ⟨rfl, rfl⟩ | ⟨_, hi⟩
    · exact ⟨hy.buffered.input, hy.buffered.output⟩
    · exact h.buffered i q hi
  · rcases update_some hi with ⟨rfl, rfl⟩ | ⟨_, hi⟩
    · rfl
    · exact h.queued i q hi
  · have hold : ∃ q, s.objects i = some q ∧ q.loop = l := by
      rcases Mailbox.mem_post.mp hm with hold | ⟨rfl, hnew⟩
      · exact h.tasks l i f hold
      · obtain ⟨g, _, he⟩ := List.mem_map.mp hnew
        cases he
        exact ⟨o, ho, rfl⟩
    obtain ⟨q, hq, hl⟩ := hold
    by_cases hi : i = id
    · subst hi
      cases ho.symm.trans hq
      exact ⟨_, Function.update_self .., hl⟩
    · exact ⟨q, (Function.update_of_ne hi _ _).trans hq, hl⟩
  · have hdue := hdue i
    rcases update_some hi with ⟨rfl, rfl⟩ | ⟨hne, hi⟩
    · have hd := h.destroys i o ho
      have hclose : (if c.callbacks.count .close > o.conn.callbacks.count .close
          then [LifeCall.handleClose] else []).count .connectDestroyed = 0 := by
        split <;> rfl
      simp only [TcpServer.destroys, hflow, List.count_append, hclose] at hd ⊢
      rw [if_pos rfl] at hdue
      omega
    · have hd := h.destroys i q hi
      simp only [TcpServer.destroys, hflow] at hd ⊢
      rw [if_neg hne] at hdue
      omega

theorem removing_store (hy : o.conn.Yields c closing) :
    (s.store id o calls c).Removing ↔ s.Removing ∨ closing := by
  have hmem : ∀ l i, .removeConnectionInLoop i ∈ (s.store id o calls c).pending l ↔
      .removeConnectionInLoop i ∈ s.pending l := by
    intro l i
    refine Mailbox.mem_post.trans (or_iff_left ?_)
    rintro ⟨_, hm⟩
    obtain ⟨f, _, hf⟩ := List.mem_map.mp hm
    cases hf
  by_cases hc : closing
  · have hn : c.callbacks.count .close > o.conn.callbacks.count .close := by
      have h₁ : c.callbacks.count .close = o.conn.callbacks.count .close + 1 := hy.closes hc
      omega
    refine iff_of_true (.inl ⟨o.loop, ?_⟩) (.inr hc)
    simp only [store, if_pos hn, Function.update_self]
    exact Option.some_ne_none _
  · have hn : ¬ c.callbacks.count .close > o.conn.callbacks.count .close := by
      have h₁ : c.callbacks.count .close = o.conn.callbacks.count .close := hy.stays hc
      omega
    have hsame : (s.store id o calls c).closing = s.closing := by
      simp only [store, if_neg hn]
    simp only [Removing, hmem, hsame, hc, or_false]

theorem deref_ok (h : s.deref id = .ok o) : s.objects id = some o := by
  unfold deref at h
  split at h
  · next ho =>
    cases h
    exact ho
  · cases h

theorem store_of_call {f : TcpConnection → Except Fault TcpConnection}
    (h : s.call id calls f = .ok t) :
    ∃ o c, s.objects id = some o ∧ f o.conn = .ok c ∧ t = s.store id o calls c := by
  obtain ⟨o, ho, h⟩ := bind_ok.mp h
  obtain ⟨c, hc, h⟩ := bind_ok.mp h
  cases h
  exact ⟨o, c, deref_ok ho, hc, rfl⟩

theorem call_operated {f : TcpConnection → Except Fault TcpConnection} (h : Ledger s hand due)
    (hf : ∀ o c, s.objects id = some o → o.conn.Buffered → f o.conn = .ok c →
      o.conn.Yields c closing)
    (hdue : ∀ j, due j + (if j = id then calls.count .connectDestroyed else 0) =
      handed hand j .connectDestroyed + due' j)
    (hok : s.call id calls f = .ok t) : Operated s t due' closing := by
  obtain ⟨o, c, ho, hc, rfl⟩ := store_of_call hok
  have hy := hf o c ho (h.buffered id o ho) hc
  refine ⟨h.store ho hy fun j => ?_, .update ho rfl rfl rfl rfl, rfl, removing_store hy⟩
  rw [handed_none, Nat.zero_add]
  exact hdue j

/-- A call of a user or of the poller. -/
theorem call_operates {f : TcpConnection → Except Fault TcpConnection} (h : Ledger s none due)
    (hf : ∀ o c, s.objects id = some o → o.conn.Buffered → f o.conn = .ok c →
      o.conn.Yields c closing)
    (hok : s.call id [] f = .ok t) : Operated s t due closing := by
  apply call_operated h hf _ hok
  intro j
  simp

/-- `runFunctor`, when the front of the queue is a functor of a connection. -/
theorem runFunctor_operated {w : WriteResult} {f : Functor} (h : Ledger s none due)
    (hp : s.pending loop = .functor id f :: us) (hw : answers w (.functor id f))
    (hok : s.runFunctor loop w = .ok t) :
    Operated s t due (s.handlesClose (.runFunctor loop w)) := by
  have htake := h.take hp
  obtain ⟨o, ho, _⟩ := h.tasks loop id f (by rw [hp]; exact List.mem_cons_self)
  have hcloses : s.handlesClose (.runFunctor loop w) ↔ o.conn.closesBy f := by
    rw [handlesClose, hp]
    constructor
    · rintro ⟨i, q, g, hg, hq, hc⟩
      cases hg
      cases ho.symm.trans hq
      exact hc
    · exact fun hc => ⟨id, o, f, rfl, ho, hc⟩
  have hremoving : Removing { s with pending := s.pending.take loop } ↔ s.Removing := by
    apply or_congr_right
    constructor
    · rintro ⟨l, i, hm⟩
      exact ⟨l, i, Mailbox.mem_of_take hm⟩
    · rintro ⟨l, i, hm⟩
      refine ⟨l, i, ?_⟩
      by_cases hl : l = loop
      · subst hl
        rw [hp] at hm
        simpa [Mailbox.take, hp] using hm
      · simpa only [Mailbox.take, Function.update_of_ne hl] using hm
  rw [runFunctor, hp] at hok
  dsimp only [runTask] at hok
  have hop : Operated { s with pending := s.pending.take loop } t due (o.conn.closesBy f) := by
    apply call_operated htake _ _ hok
    · intro q c hq hb hc
      cases ho.symm.trans hq
      apply TcpConnection.runFunctor_yields hb _ hc
      rintro m data len rfl
      exact hw
    · intro j
      cases f <;> simp [Task.lifeCall, Functor.lifeCall, handed, eq_comm, Nat.add_comm]
  have hnames := hop.names
  refine ⟨hop.ledger, ⟨hnames.objects, hnames.connName, hnames.nextConnId⟩, hop.connections, ?_⟩
  rw [hop.removing, hremoving, hcloses]

/-- Every step but those that accept and remove connections. -/
theorem step_operated {a : Step} (h : Ledger s none due) (he : machine.enabled s a)
    (hnew : a ≠ .newConnection) (hclose : ∀ loop, a ≠ .closeCallback loop)
    (hremove : ∀ loop w id, a = .runFunctor loop w →
      (s.pending loop).head? ≠ some (.removeConnectionInLoop id))
    (hok : machine.step s a = .ok t) : Operated s t due (s.handlesClose a) := by
  cases a with
  | newConnection => exact absurd rfl hnew
  | closeCallback loop => exact absurd rfl (hclose loop)
  | runFunctor loop w =>
    obtain ⟨_, u, hu, hw⟩ := he
    cases hp : s.pending loop with
    | nil =>
      rw [hp] at hu
      cases hu
    | cons v vs =>
      rw [hp] at hu
      cases hu
      cases u with
      | functor i f => exact runFunctor_operated h hp hw hok
      | removeConnectionInLoop i => exact absurd (by rw [hp]; rfl) (hremove loop w i rfl)
  | handleRead id r =>
    apply call_operates (f := fun c => c.handleRead r) h _ hok
    intro o c _ hb hc
    exact TcpConnection.handleRead_yields hb hc
  | handleWrite id w =>
    apply call_operates (f := fun c => c.handleWrite w) h _ hok
    intro o c ho hb hc
    exact TcpConnection.handleWrite_yields hb (he.2 o ho) hc
  | handleClose id =>
    apply call_operates (f := fun c => c.handleClose) h _ hok
    intro o c _ hb hc
    exact TcpConnection.handleClose_yields hb hc
  | send id inLoopThread m data len w =>
    apply call_operates (f := fun c => c.send inLoopThread m data len w) h _ hok
    intro o c _ hb hc
    exact TcpConnection.send_yields hb he.2 hc
  | shutdown id inLoopThread =>
    apply call_operates (f := fun c => return c.shutdown inLoopThread) h _ hok
    rintro o c _ hb ⟨⟩
    exact TcpConnection.shutdown_yields hb inLoopThread
  | forceClose id =>
    apply call_operates (f := fun c => return c.forceClose) h _ hok
    rintro o c _ hb ⟨⟩
    exact TcpConnection.forceClose_yields hb
  | forceCloseWithDelay id =>
    apply call_operates (f := fun c => return c.forceCloseWithDelay) h _ hok
    rintro o c _ hb ⟨⟩
    exact TcpConnection.forceCloseWithDelay_yields hb
  | startRead id inLoopThread =>
    apply call_operates (f := fun c => return c.startRead inLoopThread) h _ hok
    rintro o c _ hb ⟨⟩
    exact TcpConnection.startRead_yields hb inLoopThread
  | stopRead id inLoopThread =>
    apply call_operates (f := fun c => return c.stopRead inLoopThread) h _ hok
    rintro o c _ hb ⟨⟩
    exact TcpConnection.stopRead_yields hb inLoopThread

end TcpServer
end Muduo.Net
