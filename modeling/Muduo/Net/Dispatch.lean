import Muduo.Net.ServerLifeCycle
import Muduo.Net.ServerLoops

/-! `Channel::handleEvent` on the channels of a server's connections: the callbacks of one
event, between which the other threads run, and which the users' callbacks are part of. -/
namespace Muduo.Net
open Muduo.Support

namespace Channel

inductive EventCallback where
  | close | error | read | write
  deriving DecidableEq

/-- The callbacks that `handleEventWithGuard` makes, in its order; a connection sets all
four. -/
def handleEvent (revents : Nat) : List EventCallback :=
  (if revents &&& POLLHUP ≠ 0 ∧ revents &&& POLLIN = 0 then [.close] else []) ++
  (if revents &&& (POLLERR ||| POLLNVAL) ≠ 0 then [.error] else []) ++
  (if revents &&& (POLLIN ||| POLLPRI ||| POLLRDHUP) ≠ 0 then [.read] else []) ++
  (if revents &&& POLLOUT ≠ 0 then [.write] else [])

/-- The place of a callback in `handleEventWithGuard`. -/
def EventCallback.rank : EventCallback → Nat
  | .close => 0
  | .error => 1
  | .read => 2
  | .write => 3

theorem handleEvent_sorted (revents : Nat) :
    (handleEvent revents).Pairwise fun a b => a.rank < b.rank := by
  rw [handleEvent]
  split <;> split <;> split <;> split <;> decide

end Channel

open Channel (EventCallback)

structure DispatchingServer where
  server : TcpServer
  /-- The connection in whose `handleEvent` a loop is, and the callbacks to come. -/
  handling : LoopId → Option (ConnId × List EventCallback)

namespace DispatchingServer
open TcpServer (Inv LifeCycle ReadsUp)

/-- A started server whose loops wait in `poll`. -/
def new (name : Bytes) (ipPort : IpPort) (loops : List LoopId) (writeCompleteCallback : Bool) :
    DispatchingServer :=
  ⟨.new name ipPort loops writeCompleteCallback, fun _ => none⟩

/-- A loop goes into `handleEvent`, comes to its next callback (or out of it), or a step that
is not a callback of the poller. -/
inductive Step where
  | handleEvent (id : ConnId) (revents : Nat)
  | callback (loop : LoopId) (r : ReadResult) (w : WriteResult)
  | server (a : TcpServer.Step)

def call (s : TcpServer) (id : ConnId) (r : ReadResult) (w : WriteResult) :
    EventCallback → Except Fault TcpServer
  | .close => s.call id [] (·.handleClose)
  | .error => return s
  | .read => s.call id [] (·.handleRead r)
  | .write => s.call id [] (·.handleWrite w)

/-- The loop is not in front of the callbacks that close or read: what user code it runs, if
any, comes behind them. -/
def runsUser (s : DispatchingServer) (loop : LoopId) : Prop :=
  ∀ p ∈ s.handling loop, .close ∉ p.2 ∧ .read ∉ p.2

/-- Whose turn it is: functors run in a loop that is not in `handleEvent`, calls in the loop
thread where user code runs, and calls of other threads at any time. -/
def mayRun (s : DispatchingServer) : TcpServer.Step → Prop
  | .newConnection => s.handling 0 = none
  | .runFunctor loop _ => s.handling loop = none
  | .closeCallback _ | .forceClose _ | .forceCloseWithDelay _ => True
  | .handleRead .. | .handleWrite .. | .handleClose _ => False
  | .send id inLoopThread .. | .shutdown id inLoopThread | .startRead id inLoopThread
  | .stopRead id inLoopThread =>
      inLoopThread = true → ∀ o ∈ s.server.objects id, s.runsUser o.loop

/-- The kernel's answer to the write callback. -/
def answers (s : TcpServer) (id : ConnId) (w : WriteResult) : Prop :=
  ∀ o ∈ s.objects id, o.conn.channel.isWriting = true →
    ∃ n, w = .accepted n ∧ 1 ≤ n ∧ n ≤ o.conn.outputBuffer.readableBytes

def enabled (s : DispatchingServer) : Step → Prop
  | .handleEvent id _ => s.server.dispatches id ∧ ∀ o ∈ s.server.objects id, s.handling o.loop = none
  | .callback loop _ w => s.server.closing loop = none ∧
      ∃ p ∈ s.handling loop, p.2.head? = some .write → answers s.server p.1 w
  | .server a => TcpServer.machine.enabled s.server a ∧ s.mayRun a

def step (s : DispatchingServer) : Step → Except Fault DispatchingServer
  | .handleEvent id revents => do
      let o ← s.server.deref id
      return { s with
        handling := Function.update s.handling o.loop (some (id, Channel.handleEvent revents)) }
  | .callback loop r w =>
      match s.handling loop with
      | none => return s
      | some (_, []) => return { s with handling := Function.update s.handling loop none }
      | some (id, cb :: cbs) => do
          let server ← call s.server id r w cb
          return ⟨server, Function.update s.handling loop (some (id, cbs))⟩
  | .server a => do return { s with server := ← s.server.step a }

def machine : Machine DispatchingServer Step := ⟨enabled, step⟩

/-- An event that does not both hang up and have something to read, and no functor that
switches on reading for a connection that is down. -/
def Clean (s : DispatchingServer) : Step → Prop
  | .handleEvent _ revents =>
      ¬ (.close ∈ Channel.handleEvent revents ∧ .read ∈ Channel.handleEvent revents)
  | .callback .. => True
  | .server a => s.server.ReadsUp a

/-- A loop in front of the callbacks that close or read is not in a close callback, and the
connection is still interested. -/
structure Handles (s : DispatchingServer) : Prop where
  inv : Inv s.server none
  there : ∀ l p, s.handling l = some p → ∃ o, s.server.objects p.1 = some o ∧ o.loop = l
  sorted : ∀ l p, s.handling l = some p → p.2.Pairwise fun a b => a.rank < b.rank
  clean : ∀ l p, s.handling l = some p → ¬ (.close ∈ p.2 ∧ .read ∈ p.2)
  ahead : ∀ l p, s.handling l = some p → .close ∈ p.2 ∨ .read ∈ p.2 →
    s.server.closing l = none ∧
      ∀ o ∈ s.server.objects p.1, o.conn.channel.isNoneEvent = false

end DispatchingServer

namespace TcpServer
variable {s t : TcpServer} {id : ConnId} {o : Connection} {l loop : LoopId} {c : TcpConnection}
  {calls : List LifeCall}

/-- An operation that does nothing. -/
theorem store_idle (ho : s.objects id = some o) (hq : o.conn.queued = []) :
    s.store id o [] o.conn = s := by
  have ho' : ({ o with
      conn := { o.conn with queued := [] }
      ran := o.ran ++ [] ++ [] } : Connection) = o := by
    obtain ⟨name, loop, conn, ran⟩ := o
    obtain ⟨_, _, _, _, _, _, _, _, _, queued, _, _, _⟩ := conn
    cases hq
    simp
  have hobjects : Function.update s.objects id (some o) = s.objects := by
    rw [← ho, Function.update_eq_self]
  rw [store, if_neg (Nat.lt_irrefl _), ho', hobjects, hq]
  simp

/-- The connections of a server stay, each in its loop. -/
def There (s t : TcpServer) : Prop :=
  ∀ id o, s.objects id = some o → ∃ p, t.objects id = some p ∧ p.loop = o.loop

/-- A step that leaves the channels of the connections of loop `l` as they are, and the loop
where it is. -/
structure Leaves (l : LoopId) (s t : TcpServer) : Prop where
  closing : t.closing l = s.closing l
  channels : ∀ id o, s.objects id = some o → o.loop = l → ∀ p ∈ t.objects id,
    p.conn.channel = o.conn.channel

theorem There.refl (s : TcpServer) : There s s := fun _ o ho => ⟨o, ho, rfl⟩

theorem Leaves.refl (l : LoopId) (s : TcpServer) : Leaves l s s :=
  ⟨rfl, fun _ _ ho _ _ hp => by rw [Option.some.inj (ho.symm.trans hp)]⟩

theorem There.update {p : Connection} (ho : s.objects id = some o)
    (ht : t.objects = Function.update s.objects id (some p)) (hp : p.loop = o.loop) :
    There s t := by
  intro j q hq
  rw [ht]
  by_cases hj : j = id
  · subst hj
    cases ho.symm.trans hq
    exact ⟨p, Function.update_self .., hp⟩
  · exact ⟨q, (Function.update_of_ne hj _ _).trans hq, rfl⟩

theorem Leaves.update {p : Connection} (ho : s.objects id = some o)
    (ht : t.objects = Function.update s.objects id (some p)) (hc : t.closing l = s.closing l)
    (hp : o.loop = l → p.conn.channel = o.conn.channel) : Leaves l s t := by
  refine ⟨hc, fun j q hq hl r hr => ?_⟩
  rw [ht] at hr
  rcases update_some hr with ⟨rfl, rfl⟩ | ⟨_, hr⟩
  · cases ho.symm.trans hq
    exact hp hl
  · cases hq.symm.trans hr
    rfl

theorem store_there (ho : s.objects id = some o) : There s (s.store id o calls c) :=
  .update ho rfl rfl

/-- An operation of a connection of another loop. -/
theorem store_leaves_other (ho : s.objects id = some o) (hl : o.loop ≠ l) :
    Leaves l s (s.store id o calls c) := by
  refine .update ho rfl ?_ fun h => absurd h hl
  dsimp only [store]
  split
  · exact Function.update_of_ne (Ne.symm hl) _ _
  · rfl

/-- An operation that leaves the channel and does not close. -/
theorem store_leaves (ho : s.objects id = some o) (hc : c.channel = o.conn.channel)
    (hn : c.callbacks = o.conn.callbacks) : Leaves l s (s.store id o calls c) := by
  refine .update ho rfl ?_ fun _ => hc
  dsimp only [store]
  rw [if_neg (by rw [hn]; exact Nat.lt_irrefl _)]

theorem removeConnectionInLoop_leaves (hok : s.removeConnectionInLoop id = .ok t) :
    There s t ∧ Leaves l s t := by
  obtain ⟨o, hd, hok⟩ := bind_ok.mp hok
  obtain ⟨_, hok⟩ := assert_bind_ok.mp hok
  cases hok
  have ho := deref_ok hd
  exact ⟨.update ho rfl rfl, .update ho rfl rfl fun _ => rfl⟩

theorem closeCallback_leaves (hok : s.closeCallback loop = .ok t) :
    There s t ∧ (s.closing l = none → Leaves l s t) := by
  rw [closeCallback] at hok
  split at hok
  · cases hok
    exact ⟨.refl s, fun _ => .refl l s⟩
  · next i hi =>
    have hclosing : s.closing l = none → Function.update s.closing loop none l = s.closing l := by
      intro hn
      by_cases hl : l = loop
      · subst hl
        rw [Function.update_self, hn]
      · rw [Function.update_of_ne hl]
    rw [removeConnection] at hok
    split at hok
    · obtain ⟨hthere, hleaves⟩ := removeConnectionInLoop_leaves (l := l) hok
      exact ⟨hthere, fun hn => ⟨hleaves.closing.trans (hclosing hn), hleaves.channels⟩⟩
    · cases hok
      refine ⟨fun _ o ho => ⟨o, ho, rfl⟩, fun hn => ⟨hclosing hn, fun _ _ ho _ _ hp => ?_⟩⟩
      rw [Option.some.inj (ho.symm.trans hp)]

theorem There.trans {u : TcpServer} (h : There s t) (h' : There t u) : There s u := by
  intro id o ho
  obtain ⟨p, hp, hl⟩ := h id o ho
  obtain ⟨q, hq, hl'⟩ := h' id p hp
  exact ⟨q, hq, hl'.trans hl⟩

theorem Leaves.trans {u : TcpServer} (h : Leaves l s t) (ht : There s t) (h' : Leaves l t u) :
    Leaves l s u := by
  refine ⟨h'.closing.trans h.closing, fun id o ho hl q hq => ?_⟩
  obtain ⟨p, hp, hpl⟩ := ht id o ho
  exact (h'.channels id p hp (hpl.trans hl) q hq).trans (h.channels id o ho hl p hp)

/-- An operation of a connection: of one of loop `l`, it leaves the channel and does not
close. -/
theorem call_leaves {f : TcpConnection → Except Fault TcpConnection}
    (hok : s.call id [] f = .ok t)
    (hf : ∀ o c, s.objects id = some o → o.loop = l → f o.conn = .ok c →
      c.channel = o.conn.channel ∧ c.callbacks = o.conn.callbacks) : Leaves l s t := by
  obtain ⟨o, c, ho, hc, rfl⟩ := store_of_call hok
  by_cases hl : o.loop = l
  · obtain ⟨hch, hcb⟩ := hf o c ho hl hc
    exact store_leaves ho hch hcb
  · exact store_leaves_other ho hl

theorem call_there {f : TcpConnection → Except Fault TcpConnection}
    (hok : s.call id calls f = .ok t) : There s t := by
  obtain ⟨o, c, ho, _, rfl⟩ := store_of_call hok
  exact store_there ho

/-- A new connection. -/
theorem newConnection_leaves {hand : Option (ConnId × LifeCall)} (h : Inv s hand)
    (hok : s.newConnection = .ok t) : There s t ∧ (l ≠ 0 → Leaves l s t) := by
  obtain ⟨⟨ioLoop, threadPool⟩, _, hok⟩ := bind_ok.mp hok
  have hfresh : s.objects s.nextConnId = none := by
    cases ho : s.objects s.nextConnId with
    | none => rfl
    | some o => exact absurd (h.known _ o ho) (Nat.lt_irrefl _)
  let conn : Connection := ⟨s.connName s.nextConnId, ioLoop, .new s.writeCompleteCallback, []⟩
  let made : TcpServer := { s with
    threadPool
    nextConnId := s.nextConnId + 1
    objects := Function.update s.objects s.nextConnId (some conn)
    connections := s.connections.insert (s.connName s.nextConnId) s.nextConnId }
  have hthere : There s made := fun _ o ho => ⟨o, update_kept hfresh ho, rfl⟩
  have hleaves : Leaves l s made := by
    refine ⟨rfl, fun _ o ho _ p hp => ?_⟩
    cases (update_kept hfresh ho).symm.trans hp
    rfl
  dsimp only at hok
  split at hok
  · next hio =>
    refine ⟨hthere.trans (call_there hok), fun hl => hleaves.trans hthere ?_⟩
    obtain ⟨o, c, ho, _, rfl⟩ := store_of_call hok
    apply store_leaves_other ho
    cases (Function.update_self s.nextConnId (some conn) s.objects).symm.trans ho
    exact fun he => hl (he.symm.trans hio)
  · cases hok
    exact ⟨hthere, fun _ => ⟨hleaves.closing, hleaves.channels⟩⟩

theorem runFunctor_leaves {w : WriteResult} {hand : Option (ConnId × LifeCall)} (h : Inv s hand)
    (hok : s.runFunctor loop w = .ok t) : There s t ∧ (l ≠ loop → Leaves l s t) := by
  rw [runFunctor] at hok
  split at hok
  · cases hok
    exact ⟨.refl s, fun _ => .refl l s⟩
  · next u us hp =>
    have hs := h.tasks loop u (by rw [hp]; exact List.mem_cons_self)
    have htaken : There { s with pending := s.pending.take loop } t ∧
        (l ≠ loop → Leaves l { s with pending := s.pending.take loop } t) := by
      cases u with
      | functor i f =>
        have hok : TcpServer.call { s with pending := s.pending.take loop } i f.lifeCall.toList
          (·.runFunctor w f) = .ok t := hok
        refine ⟨call_there hok, fun hl => ?_⟩
        obtain ⟨o, c, ho, _, rfl⟩ := store_of_call hok
        apply store_leaves_other ho
        obtain ⟨p, hp, hpl, _⟩ := hs
        cases hp.symm.trans ho
        exact fun he => hl (he.symm.trans hpl)
      | removeConnectionInLoop i =>
        obtain ⟨hthere, hleaves⟩ := removeConnectionInLoop_leaves (l := l) hok
        exact ⟨hthere, fun _ => hleaves⟩
    exact ⟨htaken.1, fun hl => ⟨(htaken.2 hl).closing, (htaken.2 hl).channels⟩⟩

theorem step_there {a : Step} {hand : Option (ConnId × LifeCall)} (h : Inv s hand)
    (hok : machine.step s a = .ok t) : There s t := by
  cases a with
  | newConnection => exact (newConnection_leaves (l := 0) h hok).1
  | runFunctor loop w => exact (runFunctor_leaves (l := 0) h hok).1
  | closeCallback loop => exact (closeCallback_leaves (l := 0) hok).1
  | handleRead id r => exact call_there (f := fun c => c.handleRead r) hok
  | handleWrite id w => exact call_there (f := fun c => c.handleWrite w) hok
  | handleClose id => exact call_there (f := fun c => c.handleClose) hok
  | send id inLoopThread m data len w =>
    exact call_there (f := fun c => c.send inLoopThread m data len w) hok
  | shutdown id inLoopThread => exact call_there (f := fun c => return c.shutdown inLoopThread) hok
  | forceClose id => exact call_there (f := fun c => return c.forceClose) hok
  | forceCloseWithDelay id => exact call_there (f := fun c => return c.forceCloseWithDelay) hok
  | startRead id inLoopThread =>
    exact call_there (f := fun c => return c.startRead inLoopThread) hok
  | stopRead id inLoopThread => exact call_there (f := fun c => return c.stopRead inLoopThread) hok

end TcpServer

namespace TcpConnection
variable {c c' : TcpConnection}

/-- Calls of other threads queue what they have to do. -/
theorem send_elsewhere {m : Memory} {data : Int} {len : Nat} {w : WriteResult}
    (hok : c.send false m data len w = .ok c') :
    c'.channel = c.channel ∧ c'.callbacks = c.callbacks := by
  rw [send] at hok
  split at hok <;> cases hok <;> exact ⟨rfl, rfl⟩

theorem shutdown_elsewhere : (c.shutdown false).channel = c.channel ∧
    (c.shutdown false).callbacks = c.callbacks := by
  rw [shutdown]
  split <;> exact ⟨rfl, rfl⟩

theorem forceClose_elsewhere : c.forceClose.channel = c.channel ∧
    c.forceClose.callbacks = c.callbacks := by
  rw [forceClose]
  split <;> exact ⟨rfl, rfl⟩

theorem forceCloseWithDelay_elsewhere : c.forceCloseWithDelay.channel = c.channel ∧
    c.forceCloseWithDelay.callbacks = c.callbacks := by
  rw [forceCloseWithDelay]
  split <;> exact ⟨rfl, rfl⟩

end TcpConnection

namespace DispatchingServer
open TcpServer (Inv LifeCycle ReadsUp There Leaves)
variable {s t : DispatchingServer} {l : LoopId} {p : ConnId × List EventCallback}

/-- While a loop is in front of the callbacks that close or read, no other step touches its
connections' channels. -/
theorem mayRun_leaves {a : TcpServer.Step} {u : TcpServer} (h : Inv s.server none)
    (hm : s.mayRun a) (hp : s.handling l = some p) (ha : .close ∈ p.2 ∨ .read ∈ p.2)
    (hcl : s.server.closing l = none) (hok : TcpServer.machine.step s.server a = .ok u) :
    Leaves l s.server u := by
  have hidle : ∀ l', s.handling l' = none → l ≠ l' := by
    rintro l' hn rfl
    cases hn.symm.trans hp
  have huser : ¬ s.runsUser l := by
    intro hu
    obtain ⟨hc, hr⟩ := hu p hp
    rcases ha with ha | ha
    · exact hc ha
    · exact hr ha
  have hthread : ∀ (inLoopThread : Bool) id o, s.server.objects id = some o → o.loop = l →
      (inLoopThread = true → ∀ o ∈ s.server.objects id, s.runsUser o.loop) →
      inLoopThread = false := by
    intro inLoopThread id o ho hl hrun
    by_contra hin
    exact huser (hl ▸ hrun (Bool.not_eq_false _ ▸ hin) o ho)
  cases a with
  | newConnection => exact (TcpServer.newConnection_leaves h hok).2 (hidle 0 hm)
  | runFunctor loop w => exact (TcpServer.runFunctor_leaves h hok).2 (hidle loop hm)
  | closeCallback loop => exact (TcpServer.closeCallback_leaves hok).2 hcl
  | handleRead id r => exact hm.elim
  | handleWrite id w => exact hm.elim
  | handleClose id => exact hm.elim
  | send id inLoopThread m data len w =>
    apply TcpServer.call_leaves (f := fun c => c.send inLoopThread m data len w) hok
    intro o c ho hl hc
    cases hthread inLoopThread id o ho hl hm
    exact TcpConnection.send_elsewhere hc
  | shutdown id inLoopThread =>
    apply TcpServer.call_leaves (f := fun c => return c.shutdown inLoopThread) hok
    rintro o c ho hl ⟨⟩
    cases hthread inLoopThread id o ho hl hm
    exact TcpConnection.shutdown_elsewhere
  | forceClose id =>
    apply TcpServer.call_leaves (f := fun c => return c.forceClose) hok
    rintro o c _ _ ⟨⟩
    exact TcpConnection.forceClose_elsewhere
  | forceCloseWithDelay id =>
    apply TcpServer.call_leaves (f := fun c => return c.forceCloseWithDelay) hok
    rintro o c _ _ ⟨⟩
    exact TcpConnection.forceCloseWithDelay_elsewhere
  | startRead id inLoopThread =>
    apply TcpServer.call_leaves (f := fun c => return c.startRead inLoopThread) hok
    rintro o c ho hl ⟨⟩
    cases hthread inLoopThread id o ho hl hm
    exact ⟨rfl, rfl⟩
  | stopRead id inLoopThread =>
    apply TcpServer.call_leaves (f := fun c => return c.stopRead inLoopThread) hok
    rintro o c ho hl ⟨⟩
    cases hthread inLoopThread id o ho hl hm
    exact ⟨rfl, rfl⟩

/-- The server takes a step that leaves what the loops are in front of. -/
theorem Handles.serve {u : TcpServer} (h : Handles s) (hi : Inv u none) (ht : There s.server u)
    (hl : ∀ l p, s.handling l = some p → .close ∈ p.2 ∨ .read ∈ p.2 → Leaves l s.server u) :
    Handles { s with server := u } where
  inv := hi
  there l p hp := by
    obtain ⟨o, ho, hlo⟩ := h.there l p hp
    obtain ⟨q, hq, hql⟩ := ht p.1 o ho
    exact ⟨q, hq, hql.trans hlo⟩
  sorted := h.sorted
  clean := h.clean
  ahead l p hp ha := by
    obtain ⟨hcl, hne⟩ := h.ahead l p hp ha
    obtain ⟨o, ho, hlo⟩ := h.there l p hp
    have hleaves := hl l p hp ha
    refine ⟨hleaves.closing.trans hcl, fun q hq => ?_⟩
    rw [hleaves.channels p.1 o ho hlo q hq]
    exact hne o ho

/-- A loop goes into `handleEvent`, on to its next callback, or out of it. -/
theorem Handles.handle (h : Handles s) (x : Option (ConnId × List EventCallback))
    (hthere : ∀ p, x = some p → ∃ o, s.server.objects p.1 = some o ∧ o.loop = l)
    (hsorted : ∀ p, x = some p → p.2.Pairwise fun a b => a.rank < b.rank)
    (hclean : ∀ p, x = some p → ¬ (.close ∈ p.2 ∧ .read ∈ p.2))
    (hahead : ∀ p, x = some p → .close ∈ p.2 ∨ .read ∈ p.2 → s.server.closing l = none ∧
      ∀ o ∈ s.server.objects p.1, o.conn.channel.isNoneEvent = false) :
    Handles { s with handling := Function.update s.handling l x } := by
  have hcases : ∀ l' p, Function.update s.handling l x l' = some p →
      l' = l ∧ x = some p ∨ s.handling l' = some p := by
    intro l' p hp
    by_cases hl : l' = l
    · subst hl
      rw [Function.update_self] at hp
      exact .inl ⟨rfl, hp⟩
    · rw [Function.update_of_ne hl] at hp
      exact .inr hp
  refine ⟨h.inv, fun l' p hp => ?_, fun l' p hp => ?_, fun l' p hp => ?_, fun l' p hp => ?_⟩
  · rcases hcases l' p hp with ⟨rfl, hx⟩ | hp
    · exact hthere p hx
    · exact h.there l' p hp
  · rcases hcases l' p hp with ⟨rfl, hx⟩ | hp
    · exact hsorted p hx
    · exact h.sorted l' p hp
  · rcases hcases l' p hp with ⟨rfl, hx⟩ | hp
    · exact hclean p hx
    · exact h.clean l' p hp
  · rcases hcases l' p hp with ⟨rfl, hx⟩ | hp
    · exact hahead p hx
    · exact h.ahead l' p hp

/-- A step of the server, or none. -/
def Takes (s u : TcpServer) : Prop := u = s ∨ ∃ b, (TcpServer.machine.restrict ReadsUp).enabled s b ∧
  (TcpServer.machine.restrict ReadsUp).step s b = .ok u

/-- A callback other than the error callback is a step of the server, or none. -/
theorem call_spec {id : ConnId} {o : Connection} {cb : EventCallback} {cbs : List EventCallback}
    {r : ReadResult} {w : WriteResult} (h : Handles s) (hp : s.handling l = some (id, cb :: cbs))
    (hcl : s.server.closing l = none) (ho : s.server.objects id = some o) (hlo : o.loop = l)
    (hw : cb = .write → answers s.server id w) :
    ∃ u, call s.server id r w cb = .ok u ∧ Inv u none ∧ Takes s.server u ∧
      There s.server u ∧ (∀ l', l' ≠ l → Leaves l' s.server u) ∧ (cb = .error → u = s.server) := by
  have hother : ∀ f u, s.server.call id [] f = .ok u → ∀ l', l' ≠ l → Leaves l' s.server u := by
    intro f u hok l' hl'
    obtain ⟨q, c, hq, _, rfl⟩ := TcpServer.store_of_call hok
    cases ho.symm.trans hq
    exact TcpServer.store_leaves_other ho fun he => hl' (he.symm.trans hlo)
  have hserver : ∀ b f, TcpServer.machine.enabled s.server b → s.server.ReadsUp b →
      TcpServer.machine.step s.server b = s.server.call id [] f →
      ∃ u, s.server.call id [] f = .ok u ∧ Inv u none ∧ Takes s.server u ∧ There s.server u ∧
        ∀ l', l' ≠ l → Leaves l' s.server u := by
    intro b f he hk hstep
    obtain ⟨u, hok, hi, _⟩ := TcpServer.step_spec h.inv he hk
    have hcall := hstep.symm.trans hok
    exact ⟨u, hcall, hi, .inr ⟨b, ⟨he, hk⟩, hok⟩, TcpServer.call_there hcall, hother f u hcall⟩
  have hahead : .close ∈ cb :: cbs ∨ .read ∈ cb :: cbs → s.server.dispatches id := by
    intro ha
    obtain ⟨_, hne⟩ := h.ahead l _ hp ha
    exact ⟨o, ho, hlo ▸ hcl, hne o ho⟩
  cases cb with
  | close =>
    obtain ⟨u, hok, hi, htakes, hthere, hl⟩ := hserver (.handleClose id) (·.handleClose)
      (hahead (.inl List.mem_cons_self)) trivial rfl
    exact ⟨u, hok, hi, htakes, hthere, hl, fun hx => by cases hx⟩
  | error =>
    exact ⟨s.server, rfl, h.inv, .inl rfl, .refl _, fun l' _ => .refl l' _, fun _ => rfl⟩
  | read =>
    obtain ⟨u, hok, hi, htakes, hthere, hl⟩ := hserver (.handleRead id r) (·.handleRead r)
      (hahead (.inr List.mem_cons_self)) trivial rfl
    exact ⟨u, hok, hi, htakes, hthere, hl, fun hx => by cases hx⟩
  | write =>
    cases hwriting : o.conn.channel.writing with
    | false =>
      have hok : call s.server id r w .write = .ok s.server := by
        rw [call, TcpServer.call_ok ho (TcpConnection.handleWrite_idle hwriting w),
          TcpServer.store_idle ho (h.inv.alive id o ho).queued]
      exact ⟨s.server, hok, h.inv, .inl rfl, .refl _, fun l' _ => .refl l' _, fun _ => rfl⟩
    | true =>
      have hne : o.conn.channel.isNoneEvent = false := by
        rw [Channel.isNoneEvent, hwriting]
        exact Bool.and_false _
      obtain ⟨u, hok, hi, htakes, hthere, hl⟩ := hserver (.handleWrite id w) (·.handleWrite w)
        ⟨⟨o, ho, hlo ▸ hcl, hne⟩, hw rfl⟩ trivial rfl
      exact ⟨u, hok, hi, htakes, hthere, hl, fun hx => by cases hx⟩

/-- Behind a callback other than the error callback, the loop neither closes nor reads. -/
theorem Handles.behind {id : ConnId} {cb : EventCallback} {cbs : List EventCallback}
    (h : Handles s) (hp : s.handling l = some (id, cb :: cbs)) (ha : .close ∈ cbs ∨ .read ∈ cbs) :
    cb = .error := by
  have hsorted := (List.pairwise_cons.mp (h.sorted l _ hp)).1
  have hclean := h.clean l _ hp
  cases cb with
  | error => rfl
  | close =>
    rcases ha with hc | hr
    · exact absurd (hsorted _ hc) (by decide)
    · exact absurd ⟨List.mem_cons_self, List.mem_cons_of_mem _ hr⟩ hclean
  | read =>
    rcases ha with hc | hr
    · exact absurd (hsorted _ hc) (by decide)
    · exact absurd (hsorted _ hr) (by decide)
  | write =>
    rcases ha with hc | hr
    · exact absurd (hsorted _ hc) (by decide)
    · exact absurd (hsorted _ hr) (by decide)

/-- The loop comes to its next callback. -/
theorem callback_spec {r : ReadResult} {w : WriteResult} (h : Handles s)
    (he : machine.enabled s (.callback l r w)) :
    ∃ t, machine.step s (.callback l r w) = .ok t ∧ Handles t ∧ Takes s.server t.server := by
  obtain ⟨hcl, ⟨id, cbs⟩, hmem, hw⟩ := he
  have hp : s.handling l = some (id, cbs) := hmem
  obtain ⟨o, ho, hlo⟩ := h.there l (id, cbs) hp
  cases cbs with
  | nil =>
    refine ⟨{ s with handling := Function.update s.handling l none }, ?_, ?_, .inl rfl⟩
    · simp only [machine, step, hp]
      rfl
    · apply h.handle none <;> exact fun _ hx => by cases hx
  | cons cb cbs =>
    obtain ⟨u, hok, hi, htakes, hthere, hother, herror⟩ := call_spec (r := r) h hp hcl ho hlo fun hcb => hw (congrArg some hcb)
    have hnext : Handles { s with handling := Function.update s.handling l (some (id, cbs)) } := by
      apply h.handle (some (id, cbs))
      · rintro p ⟨⟩
        exact ⟨o, ho, hlo⟩
      · rintro p ⟨⟩
        exact (List.pairwise_cons.mp (h.sorted l _ hp)).2
      · rintro p ⟨⟩ ⟨hc, hr⟩
        exact h.clean l _ hp ⟨List.mem_cons_of_mem _ hc, List.mem_cons_of_mem _ hr⟩
      · rintro p ⟨⟩ ha
        exact h.ahead l (id, cb :: cbs) hp
          (ha.imp (List.mem_cons_of_mem cb) (List.mem_cons_of_mem cb))
    refine ⟨⟨u, Function.update s.handling l (some (id, cbs))⟩, ?_, ?_, htakes⟩
    · simp only [machine, step, hp, hok, ok_bind]
      rfl
    · apply hnext.serve hi hthere
      intro l' p hp' ha
      by_cases hl : l' = l
      · subst hl
        have hx := hp'
        simp only [Function.update_self] at hx
        cases hx
        rw [herror (h.behind hp ha)]
        exact .refl l' _
      · exact hother l' hl

theorem step_spec {a : Step} (h : Handles s) (he : machine.enabled s a) (hk : s.Clean a) :
    ∃ t, machine.step s a = .ok t ∧ Handles t ∧ Takes s.server t.server := by
  cases a with
  | handleEvent id revents =>
    obtain ⟨⟨o, ho, hcl, hne⟩, _⟩ := he
    refine ⟨{ s with
      handling := Function.update s.handling o.loop (some (id, Channel.handleEvent revents)) },
      ?_, ?_, .inl rfl⟩
    · simp only [machine, step, TcpServer.deref_object ho, ok_bind]
      rfl
    · apply h.handle (some (id, Channel.handleEvent revents))
      · rintro p ⟨⟩
        exact ⟨o, ho, rfl⟩
      · rintro p ⟨⟩
        exact Channel.handleEvent_sorted revents
      · rintro p ⟨⟩
        exact hk
      · rintro p ⟨⟩ _
        refine ⟨hcl, fun q hq => ?_⟩
        cases ho.symm.trans hq
        exact hne
  | callback loop r w => exact callback_spec h he
  | server a =>
    obtain ⟨u, hok, hi, _⟩ := TcpServer.step_spec h.inv he.1 hk
    have hstep : s.server.step a = .ok u := hok
    refine ⟨{ s with server := u }, ?_, ?_, .inr ⟨a, ⟨he.1, hk⟩, hok⟩⟩
    · simp only [machine, step, hstep, ok_bind]
      rfl
    · apply h.serve hi (TcpServer.step_there h.inv hok)
      intro l p hp ha
      exact mayRun_leaves h.inv he.2 hp ha (h.ahead l p hp ha).1 hok

instance (s : DispatchingServer) (loop : LoopId) : Decidable (s.runsUser loop) :=
  inferInstanceAs (Decidable (∀ p ∈ s.handling loop, .close ∉ p.2 ∧ .read ∉ p.2))

instance mayRunDecidable (s : DispatchingServer) : (a : TcpServer.Step) → Decidable (s.mayRun a)
  | .newConnection => inferInstanceAs (Decidable (s.handling 0 = none))
  | .runFunctor loop _ => inferInstanceAs (Decidable (s.handling loop = none))
  | .closeCallback _ | .forceClose _ | .forceCloseWithDelay _ => inferInstanceAs (Decidable True)
  | .handleRead .. | .handleWrite .. | .handleClose _ => inferInstanceAs (Decidable False)
  | .send id inLoopThread .. | .shutdown id inLoopThread | .startRead id inLoopThread
  | .stopRead id inLoopThread => inferInstanceAs
      (Decidable (inLoopThread = true → ∀ o ∈ s.server.objects id, s.runsUser o.loop))

instance (s : TcpServer) (id : ConnId) (w : WriteResult) : Decidable (answers s id w) :=
  inferInstanceAs (Decidable (∀ o ∈ s.objects id, o.conn.channel.isWriting = true →
    ∃ n, w = .accepted n ∧ 1 ≤ n ∧ n ≤ o.conn.outputBuffer.readableBytes))

instance cleanDecidable (s : DispatchingServer) :
    (a : Step) → Decidable ((machine.restrict Clean).enabled s a)
  | .handleEvent id revents => inferInstanceAs (Decidable ((s.server.dispatches id ∧
      ∀ o ∈ s.server.objects id, s.handling o.loop = none) ∧
      ¬ (.close ∈ Channel.handleEvent revents ∧ .read ∈ Channel.handleEvent revents)))
  | .callback loop _ w => inferInstanceAs (Decidable ((s.server.closing loop = none ∧
      ∃ p ∈ s.handling loop, p.2.head? = some .write → answers s.server p.1 w) ∧ True))
  | .server a => decidable_of_iff
      ((TcpServer.machine.restrict ReadsUp).enabled s.server a ∧ s.mayRun a) and_right_comm

end DispatchingServer
end Muduo.Net
