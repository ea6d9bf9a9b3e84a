import Muduo.Net.ConnectionLife
import Muduo.Net.ServerDestruction

/-! `~TcpServer` and the connections it still holds. It destroys those of its own loop at
once; for the others it queues `connectDestroyed`, and until their loops come to it they may
be established, shut down or closed. -/
namespace Muduo.Net
open Muduo.Support

namespace ServerTeardown
open TcpConnection ConnectionLife

/-- The connections a server can hold, with any of their operations behind them. -/
def Reachable (c : TcpConnection) : Prop :=
  ∃ writeComplete highWater mark steps, machine.Run (.new writeComplete highWater mark) steps c

variable {c : TcpConnection}

theorem Reachable.life (h : Reachable c) : Life c := by
  obtain ⟨writeComplete, highWater, mark, steps, hr⟩ := h
  apply hr.invariant _ (new_life writeComplete highWater mark)
  intro s a t
  exact step_life

/-- What `~TcpServer` owes a connection: it ends closed, with one DOWN over its whole
life. `Channel::remove` has asserted that its channel had no interest. -/
structure Destroyed (d : TcpConnection) : Prop where
  state : d.state = .kDisconnected
  downs : d.upDowns.count false = 1

/-- The states `connectDestroyed` is right for. -/
def Destroyable (c : TcpConnection) : Prop :=
  c.state = .kConnected ∨ c.state = .kDisconnected ∧ c.channel.isNoneEvent = true

instance : Decidable (Destroyable c) := inferInstanceAs (Decidable (_ ∨ _ ∧ _))

theorem destroyed_of_closed (h : Life c) (hs : c.state = .kDisconnected) : Destroyed c :=
  ⟨hs, by rw [h.downs, if_pos hs]⟩

/-- `connectDestroyed` closes only a connection it finds connected. -/
theorem connectDestroyed_iff (h : Life c) :
    (∃ d, c.connectDestroyed = .ok d ∧ Destroyed d) ↔ Destroyable c := by
  constructor
  · rintro ⟨d, hok, hd⟩
    by_cases hs : c.state = .kConnected
    · exact .inl hs
    obtain ⟨ch, hch, hok⟩ := bind_ok.mp hok
    rw [if_neg hs] at hch hok
    obtain ⟨hidle, hch⟩ := assert_bind_ok.mp hch
    cases hch
    cases hok
    exact .inr ⟨hd.state, hidle⟩
  · rintro (hs | ⟨hs, hidle⟩)
    · have hopen : c.state ≠ .kDisconnected := by
        rw [hs]
        decide
      obtain ⟨d, hok, hstate⟩ : ∃ d, c.connectDestroyed = .ok d ∧ d.state = .kDisconnected := by
        unfold connectDestroyed
        rw [if_pos hs]
        exact ⟨_, rfl, rfl⟩
      exact ⟨d, hok, destroyed_of_closed (h.next hopen (connectDestroyed_open h hopen hok)) hstate⟩
    · obtain ⟨d, hok⟩ := connectDestroyed_closed hs hidle
      have ht := connectDestroyed_inert h hs hok
      exact ⟨d, hok, destroyed_of_closed (h.inert_next ht) (ht.state.trans hs)⟩

end ServerTeardown

namespace TcpServer
open ConnectionLife

/-- What a step makes of a connection that it does not destroy. -/
structure Follows (o o' : Connection) : Prop where
  life : Life o'.conn
  closed : o.conn.state = .kDisconnected → o'.conn.state = .kDisconnected
  ran : .connectDestroyed ∈ o'.ran → .connectDestroyed ∈ o.ran

def Lived (s : TcpServer) : Prop := ∀ id o, s.objects id = some o → Life o.conn

variable {s t : TcpServer} {id j : ConnId} {o o' : Connection} {calls : List LifeCall}
  {f : TcpConnection → Except Fault TcpConnection}

theorem Follows.refl (h : Life o.conn) : Follows o o := ⟨h, id, id⟩

/-- A call of one connection leaves the others alone. -/
theorem call_other (hok : s.call id calls f = .ok t) (hne : j ≠ id) :
    t.objects j = s.objects j := by
  obtain ⟨o, c, _, _, rfl⟩ := store_of_call hok
  exact Function.update_of_ne hne _ _

theorem call_follows (h : s.Lived) (hcalls : .connectDestroyed ∉ calls)
    (hf : ∀ o c, s.objects id = some o → Life o.conn → f o.conn = .ok c →
      Life c ∧ (o.conn.state = .kDisconnected → c.state = .kDisconnected))
    (hok : s.call id calls f = .ok t) (hj : t.objects j = some o') :
    ∃ o, s.objects j = some o ∧ Follows o o' := by
  obtain ⟨o, c, ho, hc, rfl⟩ := store_of_call hok
  rcases update_some hj with ⟨rfl, rfl⟩ | ⟨_, hj⟩
  · obtain ⟨hl, hclosed⟩ := hf o c ho (h j o ho) hc
    refine ⟨o, ho, ⟨hl.buffer, hl.writing, hl.downs⟩, hclosed, fun hm => ?_⟩
    rcases List.mem_append.mp hm with hm | hm
    · exact (List.mem_append.mp hm).resolve_right hcalls
    · split at hm
      · cases List.mem_singleton.mp hm
      · cases hm
  · exact ⟨o', hj, .refl (h j o' hj)⟩

theorem removeConnectionInLoop_follows (h : s.Lived) (hok : s.removeConnectionInLoop id = .ok t)
    (hj : t.objects j = some o') : ∃ o, s.objects j = some o ∧ Follows o o' := by
  obtain ⟨o, hd, hok⟩ := bind_ok.mp hok
  obtain ⟨_, hok⟩ := assert_bind_ok.mp hok
  cases hok
  rcases update_some hj with ⟨rfl, rfl⟩ | ⟨_, hj⟩
  · refine ⟨o, deref_ok hd, h j o (deref_ok hd), id, fun hm => ?_⟩
    refine (List.mem_append.mp hm).resolve_right fun hx => ?_
    cases List.mem_singleton.mp hx
  · exact ⟨o', hj, .refl (h j o' hj)⟩

/-- A connection after a step comes from one before it, or is new. -/
def Comes (s : TcpServer) (j : ConnId) (o' : Connection) : Prop :=
  (∃ o, s.objects j = some o ∧ Follows o o') ∨ Life o'.conn ∧ .connectDestroyed ∉ o'.ran

theorem newConnection_comes (h : s.Lived) (hok : s.newConnection = .ok t)
    (hj : t.objects j = some o') : s.Comes j o' := by
  obtain ⟨⟨ioLoop, threadPool⟩, _, hok⟩ := bind_ok.mp hok
  have hnew : Life (.new s.writeCompleteCallback) := new_life _ _ _
  have hmade : ∀ i q, Function.update s.objects s.nextConnId (some ⟨s.connName s.nextConnId,
      ioLoop, .new s.writeCompleteCallback, []⟩) i = some q →
      Life q.conn ∧ (s.objects i = some q ∨ q.ran = []) := by
    intro i q hi
    rcases update_some hi with ⟨rfl, rfl⟩ | ⟨_, hi⟩
    · exact ⟨hnew, .inr rfl⟩
    · exact ⟨h i q hi, .inl hi⟩
  dsimp only at hok
  split at hok
  · obtain ⟨o, ho, hf⟩ := call_follows (fun i q hi => (hmade i q hi).1) (by decide)
      (fun o c _ hl hc => step_life_closed hl (a := .connectEstablished) trivial hc) hok hj
    rcases (hmade j o ho).2 with hold | hran
    · exact .inl ⟨o, hold, hf⟩
    · refine .inr ⟨hf.life, fun hm => ?_⟩
      have hx := hf.ran hm
      rw [hran] at hx
      cases hx
  · cases hok
    obtain ⟨hl, hold | hran⟩ := hmade j o' hj
    · exact .inl ⟨o', hold, .refl hl⟩
    · refine .inr ⟨hl, fun hm => ?_⟩
      rw [hran] at hm
      cases hm

/-- An operation that users or the poller call. -/
theorem op_comes {a : ConnectionLife.Step} (h : s.Lived)
    (he : ∀ o, s.objects id = some o → ConnectionLife.enabled o.conn a)
    (hok : s.call id [] (fun c => ConnectionLife.step c a) = .ok t)
    (hj : t.objects j = some o') : s.Comes j o' :=
  .inl (call_follows h (List.not_mem_nil) (fun o _ ho hl hc => step_life_closed hl (he o ho) hc)
    hok hj)

/-- A step makes nothing else of a connection than its operations do, as long as it does not
run `connectDestroyed` on it. -/
theorem step_comes {a : Step} (h : s.Lived) (he : machine.enabled s a)
    (hok : machine.step s a = .ok t) (hn : ∀ loop w, a = .runFunctor loop w →
      (s.pending loop).head? ≠ some (.functor j .connectDestroyed))
    (hj : t.objects j = some o') : s.Comes j o' := by
  cases a with
  | newConnection => exact newConnection_comes h hok hj
  | closeCallback loop =>
    have hok : s.closeCallback loop = .ok t := hok
    unfold closeCallback removeConnection at hok
    left
    split at hok
    · cases hok
      exact ⟨o', hj, .refl (h j o' hj)⟩
    · split at hok
      · exact removeConnectionInLoop_follows
          (s := { s with closing := Function.update s.closing loop none }) h hok hj
      · cases hok
        exact ⟨o', hj, .refl (h j o' hj)⟩
  | runFunctor loop w =>
    obtain ⟨_, u, hu, hw⟩ := he
    obtain ⟨us, hp⟩ := List.head?_eq_some_iff.mp hu
    have hok : s.runFunctor loop w = .ok t := hok
    rw [runFunctor, hp] at hok
    left
    cases u with
    | removeConnectionInLoop i =>
      exact removeConnectionInLoop_follows
        (s := { s with pending := s.pending.take loop }) h hok hj
    | functor i f =>
      have hok : call { s with pending := s.pending.take loop } i f.lifeCall.toList
        (·.runFunctor w f) = .ok t := hok
      by_cases hi : j = i
      · subst hi
        have hf : f ≠ .connectDestroyed := by
          rintro rfl
          exact hn loop w rfl hu
        refine call_follows (s := { s with pending := s.pending.take loop }) h ?_ ?_ hok hj
        · cases f <;> first | exact absurd rfl hf | simp [Functor.lifeCall]
        · intro o c _ hl hc
          refine runFunctor_life hl ?_ hc
          rintro m data len rfl
          exact hw
      · have hsame : t.objects j = s.objects j :=
          call_other (s := { s with pending := s.pending.take loop }) hok hi
        exact ⟨o', hsame ▸ hj, .refl (h j o' (hsame ▸ hj))⟩
  | handleRead id r => exact op_comes (a := .handleRead r) h (fun _ _ => trivial) hok hj
  | handleWrite id w => exact op_comes (a := .handleWrite w) h he.2 hok hj
  | handleClose id => exact op_comes (a := .handleClose) h (fun _ _ => trivial) hok hj
  | send id inLoopThread m data len w =>
    exact op_comes (a := .send inLoopThread m data len w) h (fun _ _ => he.2) hok hj
  | shutdown id inLoopThread =>
    exact op_comes (a := .shutdown inLoopThread) h (fun _ _ => trivial) hok hj
  | forceClose id => exact op_comes (a := .forceClose) h (fun _ _ => trivial) hok hj
  | forceCloseWithDelay id =>
    exact op_comes (a := .forceCloseWithDelay) h (fun _ _ => trivial) hok hj
  | startRead id inLoopThread =>
    exact op_comes (a := .startRead inLoopThread) h (fun _ _ => trivial) hok hj
  | stopRead id inLoopThread =>
    exact op_comes (a := .stopRead inLoopThread) h (fun _ _ => trivial) hok hj

/-- What `connectDestroyed` makes of a connection. -/
structure DestroyedAs (o o' : Connection) : Prop where
  returned : ∃ c, o.conn.connectDestroyed = .ok c ∧ o'.conn = { c with queued := [] }
  ran : .connectDestroyed ∈ o'.ran

theorem DestroyedAs.life (h : DestroyedAs o o') (hl : Life o.conn) : Life o'.conn := by
  obtain ⟨c, hc, hconn⟩ := h.returned
  have hlife : Life c := (runFunctor_life hl (f := .connectDestroyed) (w := .accepted 0)
    (fun _ _ _ hx => by cases hx) hc).1
  rw [hconn]
  exact ⟨hlife.buffer, hlife.writing, hlife.downs⟩

/-- `connectDestroyed` does right by a connection exactly where it should. -/
theorem DestroyedAs.destroyed_iff (h : DestroyedAs o o') (hl : Life o.conn) :
    ServerTeardown.Destroyed o'.conn ↔ ServerTeardown.Destroyable o.conn := by
  obtain ⟨c, hc, hconn⟩ := h.returned
  rw [← ServerTeardown.connectDestroyed_iff hl, hconn]
  constructor
  · exact fun hd => ⟨c, hc, hd.state, hd.downs⟩
  · rintro ⟨d, hok, hd⟩
    cases hc.symm.trans hok
    exact ⟨hd.state, hd.downs⟩

theorem call_destroyed (hok : s.call id [.connectDestroyed] (·.connectDestroyed) = .ok t) :
    ∃ o o', s.objects id = some o ∧ t.objects id = some o' ∧ DestroyedAs o o' := by
  obtain ⟨o, c, ho, hc, rfl⟩ := store_of_call hok
  refine ⟨o, _, ho, Function.update_self .., ⟨c, hc, rfl⟩, ?_⟩
  exact List.mem_append_left _ (List.mem_append_right _ List.mem_cons_self)

theorem destroyConnection_other (hok : s.destroyConnection id = .ok t) (hne : j ≠ id) :
    t.objects j = s.objects j := by
  obtain ⟨o, _, hok⟩ := bind_ok.mp hok
  split at hok
  · exact call_other hok hne
  · cases hok
    rfl

theorem destroyConnection_self (ho : s.objects id = some o) (hok : s.destroyConnection id = .ok t) :
    ∃ o', t.objects id = some o' ∧ (o.loop = 0 → DestroyedAs o o') ∧ (o.loop ≠ 0 → o' = o) := by
  obtain ⟨p, hd, hok⟩ := bind_ok.mp hok
  cases ho.symm.trans (deref_ok hd)
  split at hok
  · next hloop =>
    obtain ⟨p, o', hp, ho', hd⟩ := call_destroyed hok
    cases ho.symm.trans hp
    exact ⟨o', ho', fun _ => hd, fun hx => absurd hloop hx⟩
  · next hloop =>
    cases hok
    exact ⟨o, ho, fun hx => absurd hx hloop, fun _ => rfl⟩

theorem destroyConnections_other {ids : List ConnId}
    (hok : ids.foldlM destroyConnection s = .ok t) (hj : j ∉ ids) :
    t.objects j = s.objects j := by
  induction ids generalizing s with
  | nil =>
    cases hok
    rfl
  | cons id rest ih =>
    rw [List.foldlM_cons] at hok
    obtain ⟨u, hu, hok⟩ := bind_ok.mp hok
    obtain ⟨hne, hrest⟩ := not_or.mp (mt List.mem_cons.mpr hj)
    exact (ih hok hrest).trans (destroyConnection_other hu hne)

/-- The loop of `~TcpServer` comes to each connection once. -/
theorem destroyConnections_self {ids : List ConnId} (hn : ids.Nodup)
    (hok : ids.foldlM destroyConnection s = .ok t) (hj : j ∈ ids) (ho : s.objects j = some o) :
    ∃ o', t.objects j = some o' ∧ (o.loop = 0 → DestroyedAs o o') ∧ (o.loop ≠ 0 → o' = o) := by
  induction ids generalizing s with
  | nil => cases hj
  | cons id rest ih =>
    obtain ⟨hid, hrest⟩ := List.nodup_cons.mp hn
    rw [List.foldlM_cons] at hok
    obtain ⟨u, hu, hrun⟩ := bind_ok.mp hok
    by_cases hne : j = id
    · subst hne
      obtain ⟨o', ho', hspec⟩ := destroyConnection_self ho hu
      exact ⟨o', (destroyConnections_other hrun hid).trans ho', hspec⟩
    · exact ih hrest hrun (List.mem_of_ne_of_mem hne hj) ((destroyConnection_other hu hne).trans ho)

theorem call_returns (ho : s.objects id = some o) (hl : Life o.conn)
    (hd : ServerTeardown.Destroyable o.conn) :
    ∃ t, s.call id [.connectDestroyed] (·.connectDestroyed) = .ok t := by
  obtain ⟨c, hc, _⟩ := (ServerTeardown.connectDestroyed_iff hl).mpr hd
  exact ⟨_, call_ok ho hc⟩

theorem destroyConnections_returns {ids : List ConnId} (hn : ids.Nodup)
    (h : ∀ j ∈ ids, ∃ o, s.objects j = some o ∧ Life o.conn ∧
      (o.loop = 0 → ServerTeardown.Destroyable o.conn)) :
    ∃ t, ids.foldlM destroyConnection s = .ok t := by
  induction ids generalizing s with
  | nil => exact ⟨s, rfl⟩
  | cons id rest ih =>
    obtain ⟨hid, hrest⟩ := List.nodup_cons.mp hn
    obtain ⟨o, ho, hl, hd⟩ := h id List.mem_cons_self
    obtain ⟨u, hu⟩ : ∃ u, s.destroyConnection id = .ok u := by
      rw [destroyConnection, deref_object ho, ok_bind]
      by_cases hloop : o.loop = 0
      · rw [if_pos hloop]
        exact call_returns ho hl (hd hloop)
      · rw [if_neg hloop]
        exact ⟨_, rfl⟩
    obtain ⟨t, ht⟩ := ih hrest fun j hj => by
      have hne : j ≠ id := by
        rintro rfl
        exact hid hj
      rw [destroyConnection_other hu hne]
      exact h j (List.mem_cons_of_mem _ hj)
    exact ⟨t, by rw [List.foldlM_cons, hu, ok_bind, ht]⟩

theorem Registered.held_object (h : Registered s) (hid : id ∈ s.held) :
    ∃ o, s.objects id = some o := by
  obtain ⟨n, hn⟩ := OrderedMap.mem_values.mp hid
  obtain ⟨o, ho, _⟩ := Option.map_eq_some_iff.mp (h.registry n id hn)
  exact ⟨o, ho⟩

theorem enterRemoval_objects {a : Step} (h : s.enterRemoval a = some t) :
    t.objects = s.objects := by
  cases a with
  | runFunctor loop w =>
    rw [enterRemoval] at h
    split at h <;> cases h
    rfl
  | closeCallback loop =>
    rw [enterRemoval] at h
    split at h <;> cases h
    rfl
  | _ => cases h

end TcpServer
namespace OwnedServer
open ConnectionLife ServerTeardown

/-- The step runs `connectDestroyed` on the connection; `~TcpServer` itself does so for the
connections of its own loop. -/
def DestroysNow (s : OwnedServer) (id : ConnId) : Step → Prop
  | .destroy => id ∈ s.server.held ∧ ∃ o, s.server.objects id = some o ∧ o.loop = 0
  | .serve (.runFunctor loop _) =>
    (s.server.pending loop).head? = some (.functor id .connectDestroyed)
  | .serve _ => False

/-- From a server that `~TcpServer` is about to destroy: each `connectDestroyed` of a connection
it holds returns, and has left the connection as it should be, there and ever after. -/
structure TearsDown (s : OwnedServer) (as : List Step) : Prop where
  returns : machine.EveryStep s as fun t a => machine.enabled t a →
    ∀ id ∈ s.server.held, t.DestroysNow id a → ∃ t', machine.step t a = .ok t'
  destroyed : machine.Throughout s as fun t => ∀ id ∈ s.server.held, ∀ o,
    t.server.objects id = some o → .connectDestroyed ∈ o.ran → Destroyed o.conn

/-- A connection of `held` on which the step runs `connectDestroyed` is connected, or closed
without interest. -/
def FindsDestroyable (held : List ConnId) (s : OwnedServer) (a : Step) : Prop :=
  machine.enabled s a → ∀ id ∈ held, s.DestroysNow id a →
    ∃ o, s.server.objects id = some o ∧ Destroyable o.conn

theorem lifeCall_connectDestroyed {u : Option Task} {id : ConnId} :
    u.bind Task.lifeCall = some (id, .connectDestroyed) ↔
      u = some (.functor id .connectDestroyed) := by
  rcases u with _ | ⟨j, f⟩ | j
  · simp
  · cases f <;> simp [Task.lifeCall, Functor.lifeCall]
  · simp [Task.lifeCall]

instance (s : OwnedServer) (id : ConnId) : (a : Step) → Decidable (s.DestroysNow id a)
  | .destroy => inferInstanceAs
      (Decidable (id ∈ s.server.held ∧ ∃ o ∈ s.server.objects id, o.loop = 0))
  | .serve (.runFunctor _ _) => decidable_of_iff _ lifeCall_connectDestroyed
  | .serve .newConnection | .serve (.closeCallback _) | .serve (.handleRead ..)
  | .serve (.handleWrite ..) | .serve (.handleClose _) | .serve (.send ..) | .serve (.shutdown ..)
  | .serve (.forceClose _) | .serve (.forceCloseWithDelay _) | .serve (.startRead ..)
  | .serve (.stopRead ..) => inferInstanceAs (Decidable False)

instance (held : List ConnId) (s : OwnedServer) (a : Step) :
    Decidable (FindsDestroyable held s a) :=
  inferInstanceAs (Decidable (machine.enabled s a → ∀ id ∈ held, s.DestroysNow id a →
    ∃ o ∈ s.server.objects id, Destroyable o.conn))

/-- What every run keeps of the connections. -/
structure Aged (s : OwnedServer) : Prop where
  accounted : Accounted s
  lived : s.server.Lived

variable {s t : OwnedServer} {a : Step} {id : ConnId} {o' : Connection}

theorem Accounted.tasks (h : Accounted s) {loop : LoopId} {f : Functor}
    (hm : .functor id f ∈ s.server.pending loop) :
    ∃ o, s.server.objects id = some o ∧ o.loop = loop := by
  cases hd : s.destroyed with
  | false => exact (h.before hd).1.ledger.tasks loop id f hm
  | true => exact (h.after hd).tasks loop id f hm

theorem step_connectDestroyed {loop : LoopId} {w : WriteResult}
    (hp : (s.server.pending loop).head? = some (.functor id .connectDestroyed)) :
    machine.step s (.serve (.runFunctor loop w)) = (do
      let server ← TcpServer.call { s.server with pending := s.server.pending.take loop } id
        [.connectDestroyed] (·.connectDestroyed)
      return { s with server }) := by
  obtain ⟨us, hp⟩ := List.head?_eq_some_iff.mp hp
  have hstep : TcpServer.machine.step s.server (.runFunctor loop w) =
      TcpServer.call { s.server with pending := s.server.pending.take loop } id
        [.connectDestroyed] (·.connectDestroyed) := by
    change s.server.runFunctor loop w = _
    rw [TcpServer.runFunctor, hp]
    rfl
  change (if s.destroyed then s.serveDestroyed (.runFunctor loop w) else _) = _
  rw [hstep]
  split
  · rw [serveDestroyed, TcpServer.enterRemoval, hp]
    dsimp only
    rw [hstep]
  · rfl

theorem step_destroys (h : Aged s) (he : machine.enabled s a) (hok : machine.step s a = .ok t)
    (hd : s.DestroysNow id a) : ∃ o o', s.server.objects id = some o ∧
      t.server.objects id = some o' ∧ TcpServer.DestroyedAs o o' := by
  cases a with
  | destroy =>
    obtain ⟨hheld, o, ho, hloop⟩ := hd
    obtain ⟨u, hu, hok⟩ := bind_ok.mp hok
    cases hok
    obtain ⟨v, hv, hu⟩ := bind_ok.mp hu
    cases hu
    obtain ⟨o', ho', hspec, _⟩ := TcpServer.destroyConnections_self
      (h.accounted.before he).1.registered.held_nodup hv hheld ho
    exact ⟨o, o', ho, ho', hspec hloop⟩
  | serve a =>
    cases a with
    | runFunctor loop w =>
      rw [step_connectDestroyed hd] at hok
      obtain ⟨u, hu, hok⟩ := bind_ok.mp hok
      cases hok
      exact TcpServer.call_destroyed
        (s := { s.server with pending := s.server.pending.take loop }) hu
    | _ => exact hd.elim

theorem step_comes (h : Aged s) (he : machine.enabled s a) (hok : machine.step s a = .ok t)
    (hn : ¬ s.DestroysNow id a) (ho' : t.server.objects id = some o') :
    s.server.Comes id o' := by
  cases a with
  | destroy =>
    obtain ⟨u, hu, hok⟩ := bind_ok.mp hok
    cases hok
    obtain ⟨v, hv, hu⟩ := bind_ok.mp hu
    cases hu
    by_cases hheld : id ∈ s.server.held
    · have hreg := (h.accounted.before he).1.registered
      obtain ⟨o, ho⟩ := hreg.held_object hheld
      obtain ⟨p, hp, _, hother⟩ := TcpServer.destroyConnections_self hreg.held_nodup hv hheld ho
      cases ho'.symm.trans hp
      obtain rfl := hother fun hloop => hn ⟨hheld, o, ho, hloop⟩
      exact .inl ⟨o', ho, .refl (h.lived id o' ho)⟩
    · have hsame : v.objects id = s.server.objects id :=
        TcpServer.destroyConnections_other hv hheld
      exact .inl ⟨o', hsame ▸ ho', .refl (h.lived id o' (hsame ▸ ho'))⟩
  | serve a =>
    have hserve : ∀ u, TcpServer.machine.step s.server a = .ok u → u.objects id = some o' →
        s.server.Comes id o' := by
      intro u hu hi
      apply TcpServer.step_comes h.lived he.1 hu _ hi
      rintro loop w rfl hp
      exact hn hp
    change (if s.destroyed then s.serveDestroyed a else _) = _ at hok
    split at hok
    · unfold serveDestroyed at hok
      split at hok
      · next u hu =>
        cases hok
        have hsame := congrFun (TcpServer.enterRemoval_objects hu) id
        exact .inl ⟨o', hsame ▸ ho', .refl (h.lived id o' (hsame ▸ ho'))⟩
      · obtain ⟨u, hu, hok⟩ := bind_ok.mp hok
        cases hok
        exact hserve u hu ho'
    · obtain ⟨u, hu, hok⟩ := bind_ok.mp hok
      cases hok
      exact hserve u hu ho'

theorem step_aged (h : Aged s) (he : machine.enabled s a) (hok : machine.step s a = .ok t) :
    Aged t := by
  refine ⟨(step_spec h.accounted he hok).1, fun id o' ho' => ?_⟩
  by_cases hd : s.DestroysNow id a
  · obtain ⟨o, p, ho, hp, hdes⟩ := step_destroys h he hok hd
    cases ho'.symm.trans hp
    exact hdes.life (h.lived id o ho)
  · rcases step_comes h he hok hd ho' with ⟨o, _, hf⟩ | ⟨hl, _⟩
    · exact hf.life
    · exact hl

theorem connectDestroyed_returns (h : Aged s) {loop : LoopId} {w : WriteResult} {o : Connection}
    (hp : (s.server.pending loop).head? = some (.functor id .connectDestroyed))
    (ho : s.server.objects id = some o) (hd : Destroyable o.conn) :
    ∃ t, machine.step s (.serve (.runFunctor loop w)) = .ok t := by
  obtain ⟨u, hu⟩ := TcpServer.call_returns
    (s := { s.server with pending := s.server.pending.take loop }) ho (h.lived id o ho) hd
  exact ⟨_, by rw [step_connectDestroyed hp, hu]; rfl⟩

theorem destroy_returns (h : Aged s) (he : machine.enabled s .destroy)
    (hk : FindsDestroyable s.server.held s .destroy) : ∃ t, machine.step s .destroy = .ok t := by
  have hreg := (h.accounted.before he).1.registered
  obtain ⟨u, hu⟩ := TcpServer.destroyConnections_returns hreg.held_nodup fun id hid => by
    obtain ⟨o, ho⟩ := hreg.held_object hid
    refine ⟨o, ho, h.lived id o ho, fun hloop => ?_⟩
    obtain ⟨p, hp, hd⟩ := hk he id hid ⟨hid, o, ho, hloop⟩
    cases ho.symm.trans hp
    exact hd
  refine ⟨⟨{ u with connections := .empty }, true, s.lateRemovals⟩, ?_⟩
  change (s.server.destructor >>= _) = _
  rw [TcpServer.destructor, hu]
  rfl

theorem destroyed_stays {as : List Step} (h : machine.Run s as t) (hs : s.destroyed = true) :
    t.destroyed = true := by
  apply h.invariant (I := fun u => u.destroyed = true) _ hs
  intro u a v hu he hok
  cases a with
  | destroy => cases hu.symm.trans he
  | serve a =>
    change (if u.destroyed then u.serveDestroyed a else _) = _ at hok
    rw [hu, if_pos rfl, serveDestroyed] at hok
    split at hok
    · cases hok
      exact hu
    · obtain ⟨_, _, hok⟩ := bind_ok.mp hok
      cases hok
      exact hu

/-- After `~TcpServer` there is no other. -/
theorem eq_of_destroy {as before after : List Step} (h : machine.Run s before t)
    (he : machine.enabled t .destroy) (hs : .destroy :: as = before ++ .destroy :: after) :
    t = s := by
  cases before with
  | nil =>
    cases h
    rfl
  | cons b before =>
    obtain ⟨rfl, _⟩ := List.cons.inj hs
    cases h with
    | cons hb hok hrest =>
      obtain ⟨u, _, hok⟩ := bind_ok.mp hok
      cases hok
      cases (destroyed_stays hrest rfl).symm.trans he

/-- The connections that the server held have been destroyed as they should be, if at all. -/
structure Settled (held : List ConnId) (s : OwnedServer) : Prop where
  aged : Aged s
  closed : ∀ id ∈ held, ∀ o, s.server.objects id = some o → .connectDestroyed ∈ o.ran →
    o.conn.state = .kDisconnected

theorem Settled.step {held : List ConnId} (h : Settled held s) (he : machine.enabled s a)
    (hk : FindsDestroyable held s a) (hok : machine.step s a = .ok t) : Settled held t := by
  refine ⟨step_aged h.aged he hok, fun id hid o' ho' hran => ?_⟩
  by_cases hd : s.DestroysNow id a
  · obtain ⟨o, p, ho, hp, hdes⟩ := step_destroys h.aged he hok hd
    cases ho'.symm.trans hp
    obtain ⟨q, hq, hdq⟩ := hk he id hid hd
    cases ho.symm.trans hq
    exact ((hdes.destroyed_iff (h.aged.lived id o ho)).mpr hdq).state
  · rcases step_comes h.aged he hok hd ho' with ⟨o, ho, hf⟩ | ⟨_, hnew⟩
    · exact hf.closed (h.closed id hid o ho (hf.ran hran))
    · exact absurd hran hnew

/-- No connection that the server still holds has been destroyed. -/
theorem Aged.settled (h : Aged s) (hs : s.destroyed = false) : Settled s.server.held s := by
  refine ⟨h, fun id hid o ho hran => ?_⟩
  have hzero := (h.accounted.before hs).1.ledger.destroys id o ho
  rw [TcpServer.owed_of_mem hid] at hzero
  have hcount := List.count_pos_iff.mpr hran
  unfold TcpServer.destroys at hzero
  omega

/-- Tearing a server down is safe exactly when each connection is connected, or closed without
interest, by the time its `connectDestroyed` runs. -/
theorem teardown_safe_iff {name : Bytes} {ipPort : IpPort} {loops : List LoopId}
    {writeComplete : Bool} {before after : List Step}
    (h : machine.Run (start (.new name ipPort loops writeComplete)) before s)
    (hs : s.destroyed = false) :
    TearsDown s (.destroy :: after) ↔
      machine.EveryStep s (.destroy :: after) (FindsDestroyable s.server.held) := by
  have hstart : Aged (start (.new name ipPort loops writeComplete)) :=
    ⟨start_accounted name ipPort loops writeComplete, fun id o ho => by cases ho⟩
  have hsettled : Settled s.server.held s :=
    (h.invariant (fun _ _ _ hi he hok => step_aged hi he hok) hstart).settled hs
  constructor
  · intro hsafe done a rest t hsplit hrun he id hid hd
    have haged : Aged t := hrun.invariant (fun _ _ _ hi he hok => step_aged hi he hok) hsettled.aged
    obtain ⟨t', hok⟩ := hsafe.returns done a rest t hsplit hrun he id hid hd
    obtain ⟨o, o', ho, ho', hdes⟩ := step_destroys haged he hok hd
    refine ⟨o, ho, (hdes.destroyed_iff (haged.lived id o ho)).mp ?_⟩
    refine hsafe.destroyed (done ++ [a]) rest t' ?_ ?_ id hid o' ho' hdes.ran
    · rw [hsplit, List.append_assoc]
      rfl
    · exact Machine.run_append.mpr ⟨t, hrun, .singleton he hok⟩
  · intro hk
    have hreach : ∀ done rest t, .destroy :: after = done ++ rest → machine.Run s done t →
        Settled s.server.held t := by
      intro done rest t hsplit hrun
      have hdone : machine.EveryStep s done (FindsDestroyable s.server.held) := by
        rw [hsplit] at hk
        exact hk.left
      exact hrun.invariant_of_everyStep (fun _ _ _ hi he ha hok => hi.step he ha hok) hdone hsettled
    refine ⟨?_, ?_⟩
    · intro done a rest t hsplit hrun he id hid hd
      have haged := (hreach done (a :: rest) t hsplit hrun).aged
      have hka := hk done a rest t hsplit hrun
      cases a with
      | destroy =>
        obtain rfl := eq_of_destroy hrun he hsplit
        exact destroy_returns haged he hka
      | serve a =>
        cases a with
        | runFunctor loop w =>
          obtain ⟨o, ho, hdo⟩ := hka he id hid hd
          exact connectDestroyed_returns haged hd ho hdo
        | _ => exact hd.elim
    · intro done rest t hsplit hrun id hid o ho hran
      have hset := hreach done rest t hsplit hrun
      exact destroyed_of_closed (hset.aged.lived id o ho) (hset.closed id hid o ho hran)

/-- One connection that is established and one that is not yet, when the server goes away; the
I/O loop comes to it with both in its queue. -/
theorem teardown_safe_sample : ∃ s, machine.Run (start TcpServer.sampleServer)
      [.serve .newConnection, .serve (.runFunctor 1 (.accepted 0)), .serve .newConnection] s ∧
    TearsDown s [.destroy, .serve (.runFunctor 1 (.accepted 0)),
      .serve (.runFunctor 1 (.accepted 0)), .serve (.runFunctor 1 (.accepted 0))] := by
  obtain ⟨s, hr, hs⟩ := machine.exists_run (start TcpServer.sampleServer)
    [.serve .newConnection, .serve (.runFunctor 1 (.accepted 0)), .serve .newConnection]
    (fun s => (s.destroyed, ((machine.restrict (FindsDestroyable s.server.held)).exec s
      [.destroy, .serve (.runFunctor 1 (.accepted 0)), .serve (.runFunctor 1 (.accepted 0)),
        .serve (.runFunctor 1 (.accepted 0))]).isOk)) (false, true) (by decide +kernel)
  obtain ⟨hd, hok⟩ := Prod.mk.inj hs
  cases hexec : (machine.restrict (FindsDestroyable s.server.held)).exec s
      [.destroy, .serve (.runFunctor 1 (.accepted 0)), .serve (.runFunctor 1 (.accepted 0)),
        .serve (.runFunctor 1 (.accepted 0))] with
  | error e =>
    rw [hexec] at hok
    cases hok
  | ok t =>
    have hk := (Machine.run_restrict.mp (Machine.run_of_exec hexec)).2
    exact ⟨s, hr, (teardown_safe_iff hr hd).mpr hk⟩

/-- A half-closed connection, and one that is connected when the server goes away and is shut
down before its loop comes to destroy it. -/
theorem teardown_of_half_closed :
    (∃ s, machine.Run (start TcpServer.sampleServer) [.serve .newConnection,
        .serve (.runFunctor 1 (.accepted 0)), .serve (.shutdown 1 true)] s ∧
      ¬ TearsDown s [.destroy, .serve (.runFunctor 1 (.accepted 0))]) ∧
    ∃ s, machine.Run (start TcpServer.sampleServer) [.serve .newConnection,
        .serve (.runFunctor 1 (.accepted 0))] s ∧
      ¬ TearsDown s [.destroy, .serve (.shutdown 1 true),
        .serve (.runFunctor 1 (.accepted 0))] := by
  constructor
  · have hs : machine.Run (start TcpServer.sampleServer) [.serve .newConnection,
      .serve (.runFunctor 1 (.accepted 0)), .serve (.shutdown 1 true)] _ := Machine.run_of_exec rfl
    refine ⟨_, hs, fun h => ?_⟩
    have hreturns := h.returns [.destroy] _ [] _ rfl (Machine.run_of_exec rfl)
    obtain ⟨t, ht⟩ := hreturns (by decide) 1 (by decide) rfl
    cases ht
  · have hs : machine.Run (start TcpServer.sampleServer) [.serve .newConnection,
      .serve (.runFunctor 1 (.accepted 0))] _ := Machine.run_of_exec rfl
    refine ⟨_, hs, fun h => ?_⟩
    have hreturns := h.returns [.destroy, .serve (.shutdown 1 true)] _ [] _ rfl
      (Machine.run_of_exec rfl)
    obtain ⟨t, ht⟩ := hreturns (by decide) 1 (by decide) rfl
    cases ht

end OwnedServer
end Muduo.Net
