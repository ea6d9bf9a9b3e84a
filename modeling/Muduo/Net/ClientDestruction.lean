import Muduo.Net.ConnectorSockets
import Muduo.Net.OwnedClient
import Muduo.Support.Update

/-! Whether anything calls a `TcpClient` after its destructor has finished. -/
namespace Muduo.Net
open Muduo.Support

/-- The event ends in `newConnectionCallback_`. -/
def Connector.Delivers (c : Connector) (error writable : Bool) (err : Nat) (isSelfConnect : Bool) :
    Prop :=
  error = false ∧ writable = true ∧ err = 0 ∧ isSelfConnect = false ∧ c.connect_ = true

theorem Connector.handleWrite_delivers {c c' : Connector} {err : Nat} {isSelfConnect : Bool}
    {sockfd : Nat} (hok : c.handleWrite err isSelfConnect = .ok (c', some sockfd)) :
    c.state = .kConnecting ∧ err = 0 ∧ isSelfConnect = false ∧ c.connect_ = true := by
  unfold handleWrite at hok
  split at hok
  · next hs =>
    obtain ⟨⟨d, fd⟩, hremove, hok⟩ := bind_ok.mp hok
    dsimp only at hok
    split at hok
    · cases hok
    · next herr =>
      split at hok
      · cases hok
      · next hself =>
        split at hok
        · next hwant =>
          have hd : d.connect_ = c.connect_ := by
            cases hc : c.channel with
            | none =>
              rw [removeAndResetChannel, hc] at hremove
              cases hremove
            | some ch =>
              obtain ⟨ch', _, he⟩ := removeAndResetChannel_eq hc
              rw [hremove] at he
              cases he
              rfl
          exact ⟨hs, by omega, by simpa using hself, hd.symm.trans hwant⟩
        · cases hok
  · obtain ⟨_, hok⟩ := assert_bind_ok.mp hok
    cases hok

theorem Connector.handleEvent_delivers {c c' : Connector} {error writable : Bool} {err : Nat}
    {isSelfConnect : Bool} {sockfd : Nat} (hs : c.state = .kConnecting)
    (hok : c.handleEvent error writable err isSelfConnect = .ok (c', some sockfd)) :
    c.Delivers error writable err isSelfConnect := by
  unfold handleEvent at hok
  cases error with
  | true =>
    obtain ⟨d, hd, hok⟩ := bind_ok.mp hok
    have hdown : d.state ≠ .kConnecting := by
      cases hc : c.channel with
      | none =>
        have hd' : c.handleError = .ok d := hd
        rw [handleError, if_pos hs, removeAndResetChannel, hc] at hd'
        cases hd'
      | some ch =>
        obtain ⟨d', hd', _, hstate⟩ := handleError_end hs hc
        have hsame : Except.ok d = .ok d' := Eq.trans (Eq.symm hd) hd'
        cases hsame
        simp [hstate]
    cases writable with
    | true => exact absurd (handleWrite_delivers hok).1 hdown
    | false => cases hok
  | false =>
    cases writable with
    | true =>
      obtain ⟨_, herr, hself, hwant⟩ := handleWrite_delivers hok
      exact ⟨rfl, rfl, herr, hself, hwant⟩
    | false => cases hok

/-- Between the lock section that saw no connection and the stop of the connector. -/
def Destructor.stopping : Destructor → Bool
  | .stop _ => true
  | .notEntered | .setCloseCallback .. | .forceClose .. | .runAfter _ | .members _ | .finished =>
      false

/-- Between a lock section and the end, but for the two steps that stop the connector. -/
def Destructor.letting : Destructor → Bool
  | .setCloseCallback .. | .forceClose .. | .members _ => true
  | .notEntered | .stop _ | .runAfter _ | .finished => false

namespace OwnedClient
variable {s t : OwnedClient}

theorem deref_ok {id : Nat} {o : ClientConnection} (h : s.deref id = .ok o) :
    s.objects id = some o := by
  unfold deref at h
  split at h
  · next o' ho =>
    cases h
    exact ho
  · cases h

/-- A connection that will go on to call `removeConnection` when it closes. -/
def Armed (s : OwnedClient) (id : Nat) : Prop := ∃ o, s.objects id = some o ∧
  o.closeCallback = .removeConnection ∧ (o.conn.state ≠ .kDisconnected ∨ s.closing = some id)

/-- The connection whose `closeCallback_` the loop stands in front of is down. -/
def Closing (s : OwnedClient) : Prop :=
  ∀ id, s.closing = some id → ∃ o, s.objects id = some o ∧ o.conn.state = .kDisconnected

/-- The destructor has seen no connection, and has stopped the connector. -/
def Stopped (s : OwnedClient) : Prop := s.connection = none ∧ s.connector.connect_ = false

/-- The destructor has seen a connection, and has handed `setCloseCallback` to the loop. -/
def HandedOver (s : OwnedClient) : Prop :=
  s.connector.state = .kConnected ∧ ∀ id, Armed s id → .setCloseCallback id ∈ s.queue

def Stage (s : OwnedClient) : Prop :=
  match s.destructor with
  | .notEntered => True
  | .setCloseCallback _ conn _ =>
      s.connector.state = .kConnected ∧ ∀ id, Armed s id → id = conn
  | .forceClose _ _ _ => HandedOver s
  | .stop _ => s.connection = none
  | .runAfter _ => Stopped s
  | .members _ | .finished => Stopped s ∨ HandedOver s

structure Inv (s : OwnedClient) : Prop where
  connected : ∀ id, s.connection = some id → s.connector.state = .kConnected
  armed : ∀ id, Armed s id → s.connection = some id
  closing : Closing s
  late : s.lateCalls = []
  stage : Stage s

/-- A step that neither delivers a connection nor removes one, nor moves the destructor. -/
structure Keeps (s t : OwnedClient) : Prop where
  connection : t.connection = s.connection
  destructor : t.destructor = s.destructor
  late : t.lateCalls = s.lateCalls
  connected : s.connector.state = .kConnected → t.connector.state = .kConnected
  stopped : s.connector.connect_ = false → t.connector.connect_ = false
  armed : ∀ id, Armed t id → Armed s id
  handed : ∀ id, Armed t id → .setCloseCallback id ∈ s.queue → .setCloseCallback id ∈ t.queue
  closing : Closing s → Closing t

theorem Keeps.stops (h : Keeps s t) (hs : Stopped s) : Stopped t :=
  ⟨h.connection.trans hs.1, h.stopped hs.2⟩

theorem Keeps.hands (h : Keeps s t) (hs : HandedOver s) : HandedOver t :=
  ⟨h.connected hs.1, fun id ha => h.handed id ha (hs.2 id (h.armed id ha))⟩

theorem Inv.keeps (h : Inv s) (hk : Keeps s t) : Inv t where
  connected id hc := hk.connected (h.connected id (hk.connection ▸ hc))
  armed id ha := hk.connection.trans (h.armed id (hk.armed id ha))
  closing := hk.closing h.closing
  late := hk.late.trans h.late
  stage := by
    have hs := h.stage
    unfold Stage at hs ⊢
    rw [hk.destructor]
    cases hd : s.destructor with
    | notEntered => trivial
    | setCloseCallback inLoopThread conn unique =>
      rw [hd] at hs
      exact ⟨hk.connected hs.1, fun id ha => hs.2 id (hk.armed id ha)⟩
    | forceClose inLoopThread conn unique =>
      rw [hd] at hs
      exact hk.hands hs
    | stop inLoopThread =>
      rw [hd] at hs
      exact hk.connection.trans hs
    | runAfter inLoopThread =>
      rw [hd] at hs
      exact hk.stops hs
    | members inLoopThread =>
      rw [hd] at hs
      exact hs.imp hk.stops hk.hands
    | finished =>
      rw [hd] at hs
      exact hs.imp hk.stops hk.hands

/-- Steps that touch neither the connections nor what the destructor waits for. -/
theorem Keeps.aside (hc : t.connection = s.connection) (hd : t.destructor = s.destructor)
    (hl : t.lateCalls = s.lateCalls) (hs : s.connector.state = .kConnected →
      t.connector.state = .kConnected) (hw : s.connector.connect_ = false →
      t.connector.connect_ = false) (ho : t.objects = s.objects) (hcl : t.closing = s.closing)
    (hq : ∀ id, .setCloseCallback id ∈ s.queue → .setCloseCallback id ∈ t.queue) : Keeps s t := by
  have harmed : ∀ id, Armed t id ↔ Armed s id := fun id => by rw [Armed, Armed, ho, hcl]
  refine ⟨hc, hd, hl, hs, hw, fun id => (harmed id).mp, fun id _ => hq id, ?_⟩
  rw [Closing, Closing, ho, hcl]
  exact id

theorem Keeps.refl (s : OwnedClient) : Keeps s s := .aside rfl rfl rfl id id rfl rfl fun _ => id

theorem Keeps.trans {u : OwnedClient} (h : Keeps s t) (h' : Keeps t u) : Keeps s u where
  connection := h'.connection.trans h.connection
  destructor := h'.destructor.trans h.destructor
  late := h'.late.trans h.late
  connected := h'.connected ∘ h.connected
  stopped := h'.stopped ∘ h.stopped
  armed id ha := h.armed id (h'.armed id ha)
  handed id ha hq := h'.handed id ha (h.handed id (h'.armed id ha) hq)
  closing := h'.closing ∘ h.closing

theorem withConnector_keeps {c : Connector}
    (hs : s.connector.state = .kConnected → c.state = .kConnected)
    (hw : s.connector.connect_ = false → c.connect_ = false) : Keeps s (s.withConnector c) :=
  .aside rfl rfl rfl hs hw rfl rfl fun _ hm => List.mem_append_left _ hm

theorem change_keeps {c : Connector} (h : Connector.Change s.connector c) :
    Keeps s (s.withConnector c) :=
  withConnector_keeps h.connected fun hw => (h.stopped hw).1

theorem releaseConnector_keeps (hok : s.releaseConnector = .ok t) : Keeps s t := by
  unfold releaseConnector at hok
  split at hok
  · obtain ⟨_, hok⟩ := assert_bind_ok.mp hok
    cases hok
    exact .aside rfl rfl rfl id id rfl rfl fun _ => id
  · cases hok
    exact .refl s

/-- A call closes a connection only if it was up, and opens none that is down. -/
theorem store_keeps {id : Nat} {o : ClientConnection} {c : TcpConnection} {p : Prop}
    (ho : s.objects id = some o) (hout : o.conn.Outcome c p) : Keeps s (s.store id o c) where
  connection := rfl
  destructor := rfl
  late := rfl
  connected := fun hs => hs
  stopped := fun hw => hw
  handed _ _ hm := List.mem_append_left _ hm
  armed id' := by
    rintro ⟨o', ho', hcb, hst⟩
    rcases update_some ho' with ⟨rfl, rfl⟩ | ⟨hid, ho'⟩
    · refine ⟨o, ho, hcb, ?_⟩
      by_contra hdead
      rw [not_or, not_not] at hdead
      rcases hst with hst | hst
      · exact hst (hout.down hdead.1)
      · dsimp only [store] at hst
        split at hst
        · next hclosed => exact (hout.closes hclosed).1 hdead.1
        · exact hdead.2 hst
    · refine ⟨o', ho', hcb, hst.imp_right fun hst => ?_⟩
      dsimp only [store] at hst
      split at hst
      · cases hst
        exact absurd rfl hid
      · exact hst
  closing hcl id' hc' := by
    dsimp only [store] at hc'
    split at hc'
    · next hclosed =>
      cases hc'
      exact ⟨_, Function.update_self .., (hout.closes hclosed).2⟩
    · obtain ⟨o', ho', hdown⟩ := hcl id' hc'
      by_cases hid : id' = id
      · subst hid
        rw [ho] at ho'
        cases ho'
        exact ⟨_, Function.update_self .., hout.down hdown⟩
      · exact ⟨o', (Function.update_of_ne hid ..).trans ho', hdown⟩

theorem call_keeps {id : Nat} {op : Operation} (hok : s.call id op = .ok t) : Keeps s t := by
  obtain ⟨o, ho, hok⟩ := bind_ok.mp hok
  obtain ⟨c, hc, hok⟩ := bind_ok.mp hok
  cases hok
  exact store_keeps (deref_ok ho) (Operation.apply_outcome hc)

theorem runConnector_keeps {savedErrno : ConnectErrno} {f : ClientFunctor}
    (hok : s.runConnector savedErrno f = .ok t) : Keeps s t := by
  unfold runConnector at hok
  split at hok
  · cases hok
  · cases f with
    | startInLoop =>
      obtain ⟨c, hc, hok⟩ := bind_ok.mp hok
      cases hok
      exact change_keeps (Connector.startInLoop_change hc)
    | stopInLoop =>
      obtain ⟨c, hc, hok⟩ := bind_ok.mp hok
      cases hok
      exact change_keeps (Connector.stopInLoop_change hc)
    | resetChannel =>
      obtain ⟨c, hc, hok⟩ := bind_ok.mp hok
      cases hok
      obtain ⟨rfl, _⟩ := Connector.resetChannel_eq hc
      exact withConnector_keeps id id
    | forceCloseInLoop conn | connectDestroyed conn =>
      cases hok
      exact .refl s

/-- `setCloseCallback` disarms the connection, and no other. -/
theorem setCloseCallback_armed {id : Nat} (hok : s.setCloseCallback id = .ok t) :
    (∀ id', Armed t id' → id' ≠ id ∧ Armed s id') ∧ (Closing s → Closing t) := by
  obtain ⟨o, ho, hok⟩ := bind_ok.mp hok
  replace ho := deref_ok ho
  cases hok
  refine ⟨fun id' => ?_, fun hcl id' hc' => ?_⟩
  · rintro ⟨o', ho', hcb, hst⟩
    rcases update_some ho' with ⟨_, rfl⟩ | ⟨hid, ho'⟩
    · cases hcb
    · exact ⟨hid, o', ho', hcb, hst⟩
  · obtain ⟨o', ho', hdown⟩ := hcl id' hc'
    by_cases hid : id' = id
    · subst hid
      rw [ho] at ho'
      cases ho'
      exact ⟨_, Function.update_self .., hdown⟩
    · exact ⟨o', (Function.update_of_ne hid ..).trans ho', hdown⟩

theorem setCloseCallback_frame {id : Nat} (hok : s.setCloseCallback id = .ok t) :
    t = { s with objects := t.objects } := by
  obtain ⟨o, _, hok⟩ := bind_ok.mp hok
  cases hok
  rfl

theorem handOff_keeps {id : Nat} {ts : List ClientTask} (hq : s.queue = .setCloseCallback id :: ts)
    (hok : { s with queue := ts }.setCloseCallback id = .ok t) : Keeps s t := by
  obtain ⟨harmed, hclosing⟩ := setCloseCallback_armed hok
  have ht := setCloseCallback_frame hok
  refine ⟨by rw [ht], by rw [ht], by rw [ht], fun hs => by rw [ht]; exact hs,
    fun hw => by rw [ht]; exact hw, fun id' ha => (harmed id' ha).2, fun id' ha hm => ?_, hclosing⟩
  rw [hq] at hm
  rw [ht]
  rcases List.mem_cons.mp hm with he | hm
  · cases he
    exact absurd rfl (harmed _ ha).1
  · exact hm

/-- The loop takes a functor that sets no close callback. -/
theorem take_keeps {x : ClientTask} {ts : List ClientTask} (hq : s.queue = x :: ts)
    (hx : ∀ id, x ≠ .setCloseCallback id) : Keeps s { s with queue := ts } := by
  refine .aside rfl rfl rfl id id rfl rfl fun id hm => ?_
  rw [hq] at hm
  exact (List.mem_cons.mp hm).resolve_left fun he => hx id he.symm

theorem runFunctor_keeps {savedErrno : ConnectErrno} {w : WriteResult}
    (hok : s.runFunctor savedErrno w = .ok t) : Keeps s t := by
  unfold runFunctor at hok
  split at hok
  · cases hok
    exact .refl s
  · next x ts hq =>
    cases x with
    | connector f =>
      exact (take_keeps hq fun id he => by cases he).trans (runConnector_keeps hok)
    | connection id f =>
      exact (take_keeps hq fun id he => by cases he).trans (call_keeps hok)
    | setCloseCallback id => exact handOff_keeps hq hok

theorem timerFires_keeps {delay : Nat} {savedErrno : ConnectErrno}
    (hok : s.timerFires delay savedErrno = .ok t) : Keeps s t := by
  obtain ⟨c, hc, hok⟩ := bind_ok.mp hok
  have hch := Connector.startInLoop_change hc
  exact (withConnector_keeps hch.connected fun hw => (hch.stopped hw).1).trans
    (releaseConnector_keeps hok)

/-- The connections whose `setCloseCallback` waits in the queue. -/
def handOffs (s : OwnedClient) : List Nat := s.queue.filterMap fun
  | .setCloseCallback id => some id
  | .connector _ | .connection _ _ => none

/-- The step falls where the destructor does not expect it: a connection is delivered
between the lock section that saw none and the stop of the connector; one closes, so that
the client connects again, between the lock section that saw it and the end of the
destructor; or one closes after the end, while `setCloseCallback` still waits in the queue. -/
def Crosses (s : OwnedClient) : Step → Prop
  | .handleEvent error writable err isSelfConnect =>
      s.destructor.stopping = true ∧ s.connector.Delivers error writable err isSelfConnect
  | .closeCallback _ => ∃ id ∈ s.closing,
      s.destructor.letting = true ∧ s.retry = true ∧ s.connect_ = true ∧
          (∃ o ∈ s.objects id, o.closeCallback = .removeConnection) ∨
        s.destructor = .finished ∧ id ∈ s.handOffs
  | .enableRetry | .connect _ _ | .disconnect _ | .stop | .call _ _ | .runFunctor _ _
  | .timerFires _ _ | .removeConnectorFires | .enterDestructor _ _ | .advance => False

theorem mem_handOffs {id : Nat} (hm : .setCloseCallback id ∈ s.queue) : id ∈ s.handOffs :=
  List.mem_filterMap.mpr ⟨_, hm, rfl⟩

theorem new_inv : Inv new where
  connected := fun _ hc => nomatch hc
  armed := fun id ha => by
    obtain ⟨o, ho, _⟩ := ha
    cases ho
  closing := fun _ hc => nomatch hc
  late := rfl
  stage := trivial

/-- Without a connection nothing is armed. -/
theorem Inv.unarmed (h : Inv s) (hc : s.connection = none) (id : Nat) : ¬ Armed s id := by
  intro ha
  have := h.armed id ha
  rw [hc] at this
  cases this

theorem Inv.no_connection (h : Inv s) (hs : s.connector.state ≠ .kConnected) :
    s.connection = none := by
  cases hc : s.connection with
  | none => rfl
  | some id => exact absurd (h.connected id hc) hs

/-- Nothing is armed and the destructor has not been entered, or waits for nothing. -/
theorem inv_unarmed (hc : t.connection = none) (ha : ∀ id, ¬ Armed t id) (hcl : t.closing = none)
    (hl : t.lateCalls = []) (hs : Stage t) : Inv t where
  connected := fun id hx => by rw [hc] at hx; cases hx
  armed := fun id hx => absurd hx (ha id)
  closing := fun id hx => by rw [hcl] at hx; cases hx
  late := hl
  stage := hs

theorem stage_notEntered (h : s.destructor = .notEntered) : Stage s := by
  rw [Stage, h]
  trivial

/-- The last armed connection is gone. -/
theorem Inv.stage_closed (h : Inv s) (hd : t.destructor = s.destructor)
    (hc : t.connector = s.connector) (hconn : t.connection = none) (ha : ∀ id, ¬ Armed t id) :
    Stage t := by
  have hs := h.stage
  have hstop : s.connector.connect_ = false → Stopped t := fun hw => ⟨hconn, hc ▸ hw⟩
  have hhand : s.connector.state = .kConnected → HandedOver t :=
    fun hs => ⟨hc ▸ hs, fun id hx => absurd hx (ha id)⟩
  unfold Stage at hs ⊢
  rw [hd]
  cases hdes : s.destructor with
  | notEntered => trivial
  | setCloseCallback inLoopThread conn unique =>
    rw [hdes] at hs
    exact ⟨hc ▸ hs.1, fun id hx => absurd hx (ha id)⟩
  | forceClose inLoopThread conn unique =>
    rw [hdes] at hs
    exact hhand hs.1
  | stop inLoopThread => exact hconn
  | runAfter inLoopThread =>
    rw [hdes] at hs
    exact hstop hs.2
  | members inLoopThread | finished =>
    rw [hdes] at hs
    exact hs.imp (fun hs => hstop hs.2) fun hs => hhand hs.1

/-- A destructor that has not come to its end has seen the connection there is. -/
theorem Inv.letting (h : Inv s) {id : Nat} (hconn : s.connection = some id)
    (hd : s.destructor ≠ .notEntered) (hf : s.destructor ≠ .finished) :
    s.destructor.letting = true := by
  have hs := h.stage
  unfold Stage at hs
  cases hdes : s.destructor with
  | notEntered => exact absurd hdes hd
  | finished => exact absurd hdes hf
  | setCloseCallback inLoopThread conn unique => rfl
  | forceClose inLoopThread conn unique => rfl
  | members inLoopThread => rfl
  | stop inLoopThread =>
    rw [hdes, hconn] at hs
    cases hs
  | runAfter inLoopThread =>
    rw [hdes] at hs
    have hnone := hs.1
    rw [hconn] at hnone
    cases hnone

theorem enterDestructor_inv (h : Inv s) (inLoopThread unique : Bool) :
    Inv (s.enterDestructor inLoopThread unique) := by
  unfold enterDestructor
  split
  · next conn hc =>
    refine ⟨h.connected, h.armed, h.closing, h.late, h.connected conn hc, fun id ha => ?_⟩
    have hid := h.armed id ha
    rw [hc] at hid
    cases hid
    rfl
  · next hc => exact ⟨h.connected, h.armed, h.closing, h.late, hc⟩

theorem advance_inv (h : Inv s) (hok : s.advance = .ok t) : Inv t := by
  have hs := h.stage
  unfold advance at hok
  unfold Stage at hs
  split at hok
  · cases hok
    exact h
  · cases hok
    exact h
  · next inLoopThread conn unique hd =>
    rw [hd] at hs
    dsimp only at hok
    split at hok
    · obtain ⟨harmed, hclosing⟩ := setCloseCallback_armed hok
      have ht := setCloseCallback_frame hok
      have hnone : ∀ id, ¬ Armed t id := fun id ha => (harmed id ha).1 (hs.2 id (harmed id ha).2)
      refine ⟨fun id hc => ?_, fun id ha => absurd ha (hnone id), hclosing h.closing, ?_, ?_⟩
      · rw [ht] at hc ⊢
        exact h.connected id hc
      · rw [ht]
        exact h.late
      · rw [Stage, ht]
        refine ⟨hs.1, fun id ha => ?_⟩
        rw [← ht] at ha
        exact absurd ha (hnone id)
    · cases hok
      refine ⟨h.connected, h.armed, h.closing, h.late, hs.1, fun id ha => ?_⟩
      have hid : id = conn := hs.2 id ha
      rw [hid]
      exact List.mem_append_right _ (List.mem_singleton.mpr rfl)
  · next inLoopThread conn unique hd =>
    rw [hd] at hs
    have hi : Inv { s with destructor := .members inLoopThread } :=
      ⟨h.connected, h.armed, h.closing, h.late, .inr hs⟩
    dsimp only at hok
    split at hok
    · exact hi.keeps (call_keeps hok)
    · cases hok
      exact hi
  · next inLoopThread hd =>
    rw [hd] at hs
    cases hok
    refine ⟨h.connected, h.armed, h.closing, h.late, hs, rfl⟩
  · next inLoopThread hd =>
    rw [hd] at hs
    cases hok
    exact ⟨h.connected, h.armed, h.closing, h.late, .inl hs⟩
  · next inLoopThread hd =>
    rw [hd] at hs
    have hi : Inv { s with destructor := .finished } :=
      ⟨h.connected, h.armed, h.closing, h.late, hs⟩
    exact hi.keeps (releaseConnector_keeps hok)

/-- The close callback of an armed connection, in front of which the loop stands. -/
theorem removeConnection_inv {id : Nat} {savedErrno : ConnectErrno} (h : Inv s)
    (hc : s.closing = some id) (ha : Armed s id)
    (hn : ¬ Crosses s (.closeCallback savedErrno))
    (hok : { s with closing := none }.removeConnection id savedErrno = .ok t) : Inv t := by
  have hconn := h.armed id ha
  have hs := h.stage
  obtain ⟨o, ho, hcb, _⟩ := ha
  -- the connection is down, and nothing else was armed
  have hnone : ∀ {u : OwnedClient}, u.objects = s.objects → u.closing = none →
      ∀ id', ¬ Armed u id' := by
    rintro u hobj hcl id' ⟨o', ho', hcb', hst⟩
    rw [hobj] at ho'
    rw [hcl] at hst
    have hup := hst.resolve_right (by simp)
    have hid := h.armed id' ⟨o', ho', hcb', .inl hup⟩
    rw [hconn] at hid
    cases hid
    obtain ⟨o'', ho'', hdown⟩ := h.closing id hc
    rw [ho'] at ho''
    cases ho''
    exact hup hdown
  unfold removeConnection at hok
  split at hok
  · next hd =>
    have hd : s.destructor = .finished := hd
    rw [Stage, hd] at hs
    rcases hs with hs | hs
    · rw [hs.1] at hconn
      cases hconn
    · have hm := mem_handOffs (hs.2 id ⟨o, ho, hcb, .inr hc⟩)
      exact absurd ⟨id, hc, .inr ⟨hd, hm⟩⟩ hn
  · next hf =>
    obtain ⟨_, hok⟩ := assert_bind_ok.mp hok
    dsimp only at hok
    split at hok
    · next hretry =>
      obtain ⟨c, _, hok⟩ := bind_ok.mp hok
      cases hok
      have hretry : s.retry = true ∧ s.connect_ = true := by simpa using hretry
      have hcross : s.destructor = .notEntered := by
        by_contra hd
        exact hn ⟨id, hc, .inl ⟨h.letting hconn hd hf, hretry.1, hretry.2, o, ho, hcb⟩⟩
      exact inv_unarmed rfl (hnone rfl rfl) rfl h.late (stage_notEntered hcross)
    · cases hok
      exact inv_unarmed rfl (hnone rfl rfl) rfl h.late (h.stage_closed rfl rfl rfl (hnone rfl rfl))

theorem closeCallback_inv {savedErrno : ConnectErrno} (h : Inv s)
    (hn : ¬ Crosses s (.closeCallback savedErrno)) (hok : s.closeCallback savedErrno = .ok t) :
    Inv t := by
  unfold closeCallback at hok
  split at hok
  · cases hok
    exact h
  · next id hc =>
    obtain ⟨o, ho, hok⟩ := bind_ok.mp hok
    replace ho := deref_ok ho
    dsimp only at hok
    split at hok
    · next hcb => exact removeConnection_inv h hc ⟨o, ho, hcb, .inr hc⟩ hn hok
    · cases hok
      refine h.keeps ⟨rfl, rfl, rfl, fun hs => hs, fun hw => hw, ?_,
        fun _ _ hm => List.mem_append_left _ hm, fun _ _ hx => nomatch hx⟩
      rintro id' ⟨o', ho', hcb', hst⟩
      exact ⟨o', ho', hcb', .inl (hst.resolve_right (by simp))⟩

/-- While the client connects, its destructor has not seen a connection. -/
theorem Inv.delivering (h : Inv s) (hs : s.connector.state = .kConnecting)
    (hw : s.connector.connect_ = true) (hn : ∀ inLoopThread, s.destructor ≠ .stop inLoopThread) :
    s.destructor = .notEntered := by
  have hstage := h.stage
  have hstop : ¬ Stopped s := fun hx => by
    have := hx.2
    rw [hw] at this
    cases this
  have hstate : s.connector.state ≠ .kConnected := by simp [hs]
  unfold Stage at hstage
  cases hdes : s.destructor with
  | notEntered => rfl
  | setCloseCallback inLoopThread conn unique =>
    rw [hdes] at hstage
    exact absurd hstage.1 hstate
  | forceClose inLoopThread conn unique =>
    rw [hdes] at hstage
    exact absurd hstage.1 hstate
  | stop inLoopThread => exact absurd hdes (hn inLoopThread)
  | runAfter inLoopThread =>
    rw [hdes] at hstage
    exact absurd hstage hstop
  | members inLoopThread | finished =>
    rw [hdes] at hstage
    exact absurd hstage fun hx => hx.elim hstop fun hx => hstate hx.1

theorem handleEvent_inv {error writable : Bool} {err : Nat} {isSelfConnect : Bool} (h : Inv s)
    (he : s.loopFree ∧ s.connector.connectingOn ≠ none)
    (hn : ¬ Crosses s (.handleEvent error writable err isSelfConnect))
    (hok : step s (.handleEvent error writable err isSelfConnect) = .ok t) : Inv t := by
  have hconnecting : s.connector.state = .kConnecting := by
    by_contra hs
    exact he.2 (Connector.connectingOn_eq_none hs)
  have hconn := h.no_connection (by simp [hconnecting])
  obtain ⟨⟨c, sockfd⟩, hc, hok⟩ := bind_ok.mp hok
  obtain ⟨d, hd, hd', hstate⟩ := Connector.handleEvent_change hc
  have hkeep : Keeps s (s.withConnector c) := withConnector_keeps
    (fun hs => hd'.connected (hd.connected hs)) fun hw => (hd'.stopped (hd.stopped hw).1).1
  cases sockfd with
  | none =>
    cases hok
    exact h.keeps hkeep
  | some sockfd =>
    have hdel := Connector.handleEvent_delivers hconnecting hc
    have hdes := h.delivering hconnecting hdel.2.2.2.2 fun b hd => hn ⟨by rw [hd]; rfl, hdel⟩
    have hne : (s.withConnector c).destructor ≠ .finished := by
      rw [hkeep.destructor, hdes]
      simp
    have hok' : (s.withConnector c).newConnection sockfd = .ok t := hok
    rw [newConnection, if_neg hne] at hok'
    refine Inv.keeps ?_ (call_keeps hok')
    refine ⟨fun _ _ => hstate (by simp), fun id => ?_, fun id hx => ?_, h.late,
      stage_notEntered hdes⟩
    · rintro ⟨o, ho, hcb, hst⟩
      by_cases hid : id = sockfd
      · rw [hid]
      · dsimp only at ho
        rw [Function.update_of_ne hid] at ho
        exact absurd ⟨o, ho, hcb, hst⟩ (h.unarmed hconn id)
    · have hx : s.closing = some id := hx
      rw [he.1.1] at hx
      cases hx

theorem step_inv {a : Step} (h : Inv s) (he : enabled s a) (hn : ¬ Crosses s a)
    (hok : step s a = .ok t) : Inv t := by
  cases a with
  | enableRetry =>
    cases hok
    exact h.keeps (.aside rfl rfl rfl id id rfl rfl fun _ => id)
  | connect inLoopThread savedErrno =>
    obtain ⟨c, hc, hok⟩ := bind_ok.mp hok
    cases hok
    have hch := Connector.start_change hc
    exact ⟨fun id hx => hch.connected (h.connected id hx), h.armed, h.closing, h.late,
      stage_notEntered he⟩
  | disconnect inLoopThread =>
    have hk : Keeps s { s with connect_ := false } := .aside rfl rfl rfl id id rfl rfl fun _ => id
    unfold step at hok
    dsimp only at hok
    split at hok
    · cases hok
      exact h.keeps hk
    · exact h.keeps (hk.trans (call_keeps hok))
  | stop =>
    cases hok
    exact h.keeps (.aside rfl rfl rfl (fun hs => hs) (fun _ => rfl) rfl rfl
      fun _ hm => List.mem_append_left _ hm)
  | call id op => exact h.keeps (call_keeps hok)
  | closeCallback savedErrno => exact closeCallback_inv h hn hok
  | runFunctor savedErrno w => exact h.keeps (runFunctor_keeps hok)
  | handleEvent error writable err isSelfConnect => exact handleEvent_inv h he hn hok
  | timerFires delay savedErrno => exact h.keeps (timerFires_keeps hok)
  | removeConnectorFires =>
    have hk : Keeps s { s with removeConnector := false } :=
      .aside rfl rfl rfl id id rfl rfl fun _ => id
    exact h.keeps (hk.trans (releaseConnector_keeps hok))
  | enterDestructor inLoopThread unique =>
    cases hok
    exact enterDestructor_inv h inLoopThread unique
  | advance => exact advance_inv h hok

/-- In every state of a run in which no step crosses the destructor, nothing has called the
client after its destructor has finished. -/
theorem no_late_calls {as : List Step} (h : machine.Run new as t)
    (hk : machine.EveryStep new as fun s a => ¬ Crosses s a) : t.lateCalls = [] := by
  have hi : Inv t := h.invariant_of_everyStep (I := Inv) (K := fun s a => ¬ Crosses s a)
    (fun _ _ _ hi he hn hs => step_inv hi he hn hs) hk new_inv
  exact hi.late

instance crossesDecidable (s : OwnedClient) : (a : Step) → Decidable (Crosses s a)
  | .handleEvent error writable err isSelfConnect => inferInstanceAs (Decidable
      (s.destructor.stopping = true ∧ error = false ∧ writable = true ∧ err = 0 ∧
        isSelfConnect = false ∧ s.connector.connect_ = true))
  | .closeCallback _ => inferInstanceAs (Decidable (∃ id ∈ s.closing,
      s.destructor.letting = true ∧ s.retry = true ∧ s.connect_ = true ∧
          (∃ o ∈ s.objects id, o.closeCallback = .removeConnection) ∨
        s.destructor = .finished ∧ id ∈ s.handOffs))
  | .enableRetry | .connect _ _ | .disconnect _ | .stop | .call _ _ | .runFunctor _ _
  | .timerFires _ _ | .removeConnectorFires | .enterDestructor _ _ | .advance => isFalse id

/-- A client that is connected on its first socket. -/
def connecting : List Step :=
  [.connect true .EINPROGRESS, .handleEvent false true 0 false,
    .runFunctor .success (.accepted 0)]

/-- `~TcpClient` from its lock section to its end. -/
def destroying (inLoopThread unique : Bool) : List Step :=
  [.enterDestructor inLoopThread unique, .advance, .advance, .advance]

/-- The peer of a connection closes it. -/
def closes (id : Nat) (savedErrno : ConnectErrno) : List Step :=
  [.call id (.handleRead (.data [])), .closeCallback savedErrno]

/-- The destructor runs in the loop, the peer closes the connection later. -/
theorem no_late_calls_sample : ∃ t, t.lateCalls = [] ∧ t.destructor = .finished ∧
    machine.Run new (connecting ++ destroying true false ++ closes 0 .success) t := by
  obtain ⟨t, hr, ht⟩ := (machine.restrict fun s a => ¬ Crosses s a).exists_run new
    (connecting ++ destroying true false ++ closes 0 .success) OwnedClient.destructor .finished
    (by decide +kernel)
  obtain ⟨hrun, hk⟩ := Machine.run_restrict.mp hr
  exact ⟨t, no_late_calls hrun hk, ht, hrun⟩

/-- In another thread each of the three goes wrong: a close ahead of `setCloseCallback`, a
connection delivered ahead of the stop, and a close that lets the client connect again. -/
theorem late_calls :
    (∃ t, machine.Run new (connecting ++ destroying false false ++ closes 0 .success) t ∧
      t.lateCalls = [.removeConnection 0]) ∧
    (∃ t, machine.Run new ([.connect true .EINPROGRESS, .enterDestructor false false,
        .handleEvent false true 0 false, .advance, .advance, .advance] ++ closes 0 .success) t ∧
      t.lateCalls = [.removeConnection 0]) ∧
    ∃ t, machine.Run new ([.enableRetry, .connect true .ECONNREFUSED] ++
        [.connect true .ECONNREFUSED] ++ connecting ++ [.enterDestructor false false] ++
        closes 2 .ECONNREFUSED ++ [.advance, .advance, .advance] ++
        [.timerFires 500 .EINPROGRESS, .handleEvent false true 0 false]) t ∧
      t.lateCalls = [.newConnection 4] := by
  refine ⟨?_, ?_, ?_⟩
  · exact machine.exists_run _ _ OwnedClient.lateCalls _ (by decide +kernel)
  · exact machine.exists_run _ _ OwnedClient.lateCalls _ (by decide +kernel)
  · exact machine.exists_run _ _ OwnedClient.lateCalls _ (by decide +kernel)

end OwnedClient
end Muduo.Net
