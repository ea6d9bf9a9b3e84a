import Muduo.Net.ConnectorSockets
import Muduo.Net.ServingLoop

/-! Whether a channel is removed from the poller while the loop dispatches others. -/
namespace Muduo.Net
open Muduo.Support

namespace Connector
variable {c c' : Connector}

/-- The call removes no channel, and replaces none. -/
structure LeavesChannel (c c' : Connector) : Prop where
  channel : ∀ ch, c.channel = some ch → c'.channel = some ch
  resets : c'.pendingFunctors.count .resetChannel = c.pendingFunctors.count .resetChannel

theorem Start.leavesChannel (h : Start c c') : LeavesChannel c c' := by
  cases h with
  | declines hwant he =>
    rw [he]
    exact ⟨fun _ hc => hc, rfl⟩
  | opens hwant hnone he =>
    rw [he]
    refine ⟨fun ch hc => ?_, rfl⟩
    rw [hnone] at hc
    cases hc
  | fails ts d hwant hts he =>
    rw [he]
    exact ⟨fun _ hc => hc, rfl⟩

theorem queueInLoop_leavesChannel {f : ClientFunctor} (hf : f ≠ .resetChannel) :
    LeavesChannel c (c.queueInLoop f) := by
  refine ⟨fun _ hc => hc, ?_⟩
  rw [queueInLoop, List.count_append, List.count_singleton, beq_false_of_ne hf]
  rfl

theorem start_leavesChannel {inLoopThread : Bool} {savedErrno : ConnectErrno}
    (hok : c.start inLoopThread savedErrno = .ok c') : LeavesChannel c c' := by
  unfold start at hok
  dsimp only at hok
  split at hok
  · have h := (startInLoop_start hok).2.leavesChannel
    exact ⟨h.channel, h.resets⟩
  · have h := queueInLoop_leavesChannel (c := { c with connect_ := true })
      (f := .startInLoop) (by simp)
    cases hok
    exact ⟨h.channel, h.resets⟩

theorem stop_leavesChannel (c : Connector) : LeavesChannel c c.stop := by
  have h := queueInLoop_leavesChannel (c := { c with connect_ := false })
    (f := .stopInLoop) (by simp)
  exact ⟨h.channel, h.resets⟩

theorem restart_leavesChannel {savedErrno : ConnectErrno} (hok : c.restart savedErrno = .ok c') :
    LeavesChannel c c' := by
  have h := (startInLoop_start hok).2.leavesChannel
  exact ⟨h.channel, h.resets⟩

/-- A call never replaces a channel that is there. -/
theorem Change.same_socket (h : Change c c') {ch : SocketChannel} (hc : c.channel = some ch) :
    ∃ ch', c'.channel = some ch' ∧ ch'.fd = ch.fd := by
  cases h with
  | quiet fs hf he =>
    rw [he]
    exact ⟨ch, hc, rfl⟩
  | start hs h => exact ⟨ch, h.leavesChannel.channel ch hc, rfl⟩
  | ends ch₀ hs hc₀ h =>
    rw [hc] at hc₀
    cases hc₀
    cases h with
    | abandons ch' ts d hch hts he =>
      rw [he]
      exact ⟨⟨ch.fd, ch'⟩, rfl, rfl⟩
    | establishes ch' fds gds hch hfds hwant he =>
      rw [he]
      exact ⟨⟨ch.fd, ch'⟩, rfl, rfl⟩

end Connector

namespace ServingLoop
variable {s t u : ServingLoop} {gone : LoopChannel → Prop}

/-- What the loop does between two steps of its dispatcher; `gone` are the channels that it
may remove on the way. -/
structure Continues (s t : ServingLoop) (gone : LoopChannel → Prop) : Prop where
  upcoming : t.upcoming = s.upcoming
  current : t.currentActiveChannel = s.currentActiveChannel
  eventHandling : t.eventHandling = s.eventHandling
  calling : t.callingPendingFunctors = s.callingPendingFunctors
  removals : ∀ r ∈ t.removals, r ∈ s.removals ∨ gone r.channel ∧
    r.eventHandling = s.eventHandling ∧ r.currentActiveChannel = s.currentActiveChannel
  registered : ∀ ch, s.Registered ch → gone ch ∨ t.Registered ch

/-- The loop removes nothing. -/
def Keeps (s t : ServingLoop) : Prop := Continues s t fun _ => False

theorem registered_congr (hc : t.connections = s.connections) (hk : t.connectors = s.connectors)
    (ch : LoopChannel) : t.Registered ch ↔ s.Registered ch := by
  cases ch with
  | wakeup | timerfd | acceptor server => exact Iff.rfl
  | connection id => rw [Registered, Registered, hc]
  | connector k fd => rw [Registered, Registered, hk]

/-- Steps that touch no channel. -/
theorem Continues.aside (hu : t.upcoming = s.upcoming)
    (hcur : t.currentActiveChannel = s.currentActiveChannel)
    (he : t.eventHandling = s.eventHandling)
    (hcall : t.callingPendingFunctors = s.callingPendingFunctors) (hr : t.removals = s.removals)
    (hc : t.connections = s.connections) (hk : t.connectors = s.connectors) :
    Continues s t gone :=
  ⟨hu, hcur, he, hcall, fun _ hm => .inl (hr ▸ hm),
    fun ch h => .inr ((registered_congr hc hk ch).mpr h)⟩

theorem Continues.mono {gone' : LoopChannel → Prop} (h : Continues s t gone)
    (hg : ∀ ch, gone ch → gone' ch) : Continues s t gone' where
  upcoming := h.upcoming
  current := h.current
  eventHandling := h.eventHandling
  calling := h.calling
  removals r hr := (h.removals r hr).imp_right fun ⟨hgone, hrest⟩ => ⟨hg _ hgone, hrest⟩
  registered ch hch := (h.registered ch hch).imp_left (hg ch)

theorem Keeps.continues (h : Keeps s t) : Continues s t gone := h.mono fun _ => False.elim

theorem Continues.trans (h : Continues s t gone) (h' : Continues t u gone) :
    Continues s u gone where
  upcoming := h'.upcoming.trans h.upcoming
  current := h'.current.trans h.current
  eventHandling := h'.eventHandling.trans h.eventHandling
  calling := h'.calling.trans h.calling
  removals r hr := by
    rcases h'.removals r hr with hr | ⟨hgone, he, hcur⟩
    · exact h.removals r hr
    · exact .inr ⟨hgone, he.trans h.eventHandling, hcur.trans h.current⟩
  registered ch hch := by
    rcases h.registered ch hch with hgone | hch
    · exact .inl hgone
    · exact h'.registered ch hch

theorem removeChannel_continues (ch : LoopChannel) :
    Continues s (s.removeChannel ch) (· = ch) where
  upcoming := rfl
  current := rfl
  eventHandling := rfl
  calling := rfl
  removals r hr := by
    rcases List.mem_append.mp hr with hr | hr
    · exact .inl hr
    · rw [List.mem_singleton.mp hr]
      exact .inr ⟨rfl, rfl, rfl⟩
  registered _ h := .inr h

theorem deref_ok {id : Nat} {o : ServedConnection} (h : s.deref id = .ok o) :
    s.connections id = some o := by
  unfold deref at h
  split at h
  · next o' ho =>
    cases h
    exact ho
  · cases h

theorem derefConnector_ok {k : Nat} {c : Connector} (h : s.derefConnector k = .ok c) :
    s.connectors k = some c := by
  unfold derefConnector at h
  split at h
  · next c' hc =>
    cases h
    exact hc
  · cases h

/-- Only the connection `id` is another one. -/
theorem registered_connection {id : Nat} (o' : ServedConnection)
    (hc : t.connections = Function.update s.connections id (some o'))
    (hk : t.connectors = s.connectors)
    (hstay : ∀ o, s.connections id = some o → o.conn.channel.addedToLoop = true →
      gone (.connection id) ∨ o'.conn.channel.addedToLoop = true)
    (ch : LoopChannel) (h : s.Registered ch) : gone ch ∨ t.Registered ch := by
  cases ch with
  | wakeup | timerfd | acceptor server => exact .inr trivial
  | connection id' =>
    obtain ⟨o, ho, ha⟩ := h
    by_cases heq : id' = id
    · rw [heq] at ho ⊢
      exact (hstay o ho ha).imp_right fun ha' => ⟨o', by rw [hc]; exact Function.update_self .., ha'⟩
    · exact .inr ⟨o, by rw [hc, Function.update_of_ne heq]; exact ho, ha⟩
  | connector k fd =>
    obtain ⟨c, hx, hrest⟩ := h
    exact .inr ⟨c, by rw [hk]; exact hx, hrest⟩

/-- Only the connector `k` is another one. -/
theorem registered_connector {k : Nat} (c' : Connector)
    (hk : t.connectors = Function.update s.connectors k (some c'))
    (hc : t.connections = s.connections)
    (hstay : ∀ c, s.connectors k = some c → ∀ ch, c.channel = some ch →
      ch.channel.addedToLoop = true → gone (.connector k ch.fd) ∨ c'.channel = some ch)
    (ch : LoopChannel) (h : s.Registered ch) : gone ch ∨ t.Registered ch := by
  cases ch with
  | wakeup | timerfd | acceptor server => exact .inr trivial
  | connection id =>
    obtain ⟨o, ho, ha⟩ := h
    exact .inr ⟨o, by rw [hc]; exact ho, ha⟩
  | connector k' fd =>
    obtain ⟨c, hx, ch, hch, hfd, ha⟩ := h
    by_cases heq : k' = k
    · rw [heq] at hx ⊢
      rw [← hfd]
      refine (hstay c hx ch hch ha).imp_right fun hch' => ⟨c', ?_, ch, hch', rfl, ha⟩
      rw [hk]
      exact Function.update_self ..
    · exact .inr ⟨c, by rw [hk, Function.update_of_ne heq]; exact hx, ch, hch, hfd, ha⟩

theorem store_continues {id : Nat} {o : ServedConnection} {c : TcpConnection}
    (ho : s.connections id = some o) (hstay : o.conn.channel.addedToLoop = true →
      gone (.connection id) ∨ c.channel.addedToLoop = true) :
    Continues s (s.store id o c) gone where
  upcoming := rfl
  current := rfl
  eventHandling := rfl
  calling := rfl
  removals _ hr := .inl hr
  registered := by
    refine registered_connection { o with conn := { c with queued := [] } } rfl rfl ?_
    intro o' ho'
    rw [ho] at ho'
    cases ho'
    exact hstay

theorem call_continues {id : Nat} {op : Operation} (hok : s.call id op = .ok t) :
    Continues s t fun ch => op.removesChannel = true ∧ ch = .connection id := by
  obtain ⟨o, ho, hok⟩ := bind_ok.mp hok
  obtain ⟨c, hc, hok⟩ := bind_ok.mp hok
  have ho := deref_ok ho
  cases hop : op.removesChannel with
  | false =>
    rw [hop] at hok
    cases hok
    exact store_continues ho fun ha => .inr ((Operation.apply_stays hop hc).added ha)
  | true =>
    rw [hop] at hok
    cases hok
    have hremove : Continues s (s.removeChannel (.connection id)) fun ch =>
        true = true ∧ ch = .connection id :=
      (removeChannel_continues _).mono fun _ h => ⟨rfl, h⟩
    exact hremove.trans (store_continues ho fun _ => .inl ⟨rfl, rfl⟩)

theorem call_keeps {id : Nat} {op : Operation} (hop : op.removesChannel = false)
    (hok : s.call id op = .ok t) : Keeps s t := by
  refine (call_continues hok).mono fun _ h => ?_
  rw [hop] at h
  cases h.1

/-- A connection is put in a place that was free, or back where it was. -/
theorem put_keeps {id : Nat} {o' : ServedConnection} {fs : List LoopTask}
    (hstay : ∀ o, s.connections id = some o → o'.conn = o.conn) :
    Keeps s { s with
      connections := Function.update s.connections id (some o')
      pendingFunctors := s.pendingFunctors ++ fs } where
  upcoming := rfl
  current := rfl
  eventHandling := rfl
  calling := rfl
  removals _ hr := .inl hr
  registered := registered_connection o' rfl rfl fun o ho ha => .inr (by rw [hstay o ho]; exact ha)

theorem storeConnector_continues {k : Nat} {c c' : Connector} (hc : s.connectors k = some c)
    (hr : ∀ fd, removed c c' = some fd → gone (.connector k fd))
    (hstay : ∀ ch, c.channel = some ch → gone (.connector k ch.fd) ∨ c'.channel = some ch) :
    Continues s (s.storeConnector k c c') gone := by
  have stored (s' : ServingLoop) (hk : s'.connectors = s.connectors) : Continues s' { s' with
      connectors := Function.update s'.connectors k (some { c' with pendingFunctors := [] })
      pendingFunctors := s'.pendingFunctors ++ c'.pendingFunctors.map (.connector k) } gone := by
    refine ⟨rfl, rfl, rfl, rfl, fun _ hr => .inl hr, ?_⟩
    refine registered_connector { c' with pendingFunctors := [] } rfl rfl ?_
    intro c₀ hc₀ ch hch _
    rw [hk, hc] at hc₀
    cases hc₀
    exact hstay ch hch
  unfold storeConnector
  cases hfd : removed c c' with
  | none => exact stored s rfl
  | some fd =>
    have hremove : Continues s (s.removeChannel (.connector k fd)) gone :=
      (removeChannel_continues _).mono fun _ h => h ▸ hr fd hfd
    exact hremove.trans (stored _ rfl)

theorem storeConnector_keeps {k : Nat} {c c' : Connector} (hc : s.connectors k = some c)
    (h : c.LeavesChannel c') : Keeps s (s.storeConnector k c c') := by
  refine storeConnector_continues hc (fun fd hfd => ?_) fun ch hch => .inr (h.channel ch hch)
  rw [removed, h.resets, if_neg (Nat.lt_irrefl _)] at hfd
  cases hfd

theorem establish_keeps {id : Nat} {o : ServedConnection} (hn : s.connections id = none)
    (hok : s.establish id o = .ok t) : Keeps s t := by
  have hput : Keeps s { s with
      connections := Function.update s.connections id (some o)
      pendingFunctors := s.pendingFunctors ++ [] } := by
    refine put_keeps fun o' ho' => ?_
    rw [hn] at ho'
    cases ho'
  rw [List.append_nil] at hput
  exact hput.trans (call_keeps rfl hok)

theorem removeConnectionInLoop_keeps {id : Nat} (hok : s.removeConnectionInLoop id = .ok t) :
    Keeps s t := by
  obtain ⟨o, ho, hok⟩ := bind_ok.mp hok
  obtain ⟨_, hok⟩ := assert_bind_ok.mp hok
  cases hok
  refine put_keeps fun o' ho' => ?_
  rw [deref_ok ho] at ho'
  cases ho'
  rfl

theorem removeConnection_keeps {k id : Nat} {savedErrno : ConnectErrno}
    (hok : s.removeConnection k id savedErrno = .ok t) : Keeps s t := by
  obtain ⟨client, _, hok⟩ := bind_ok.mp hok
  obtain ⟨_, hok⟩ := assert_bind_ok.mp hok
  dsimp only at hok
  split at hok
  · obtain ⟨c, hc, hok⟩ := bind_ok.mp hok
    obtain ⟨c', hc', hok⟩ := bind_ok.mp hok
    cases hok
    refine .trans ?_ (storeConnector_keeps (derefConnector_ok hc) (Connector.restart_leavesChannel hc'))
    exact .aside rfl rfl rfl rfl rfl rfl rfl
  · cases hok
    exact .aside rfl rfl rfl rfl rfl rfl rfl

/-- What a close callback does to the channel is queued, whoever has set it. -/
theorem closeCallback_keeps {savedErrno : ConnectErrno} (hok : s.closeCallback savedErrno = .ok t) :
    Keeps s t := by
  unfold closeCallback at hok
  split at hok
  · cases hok
    exact .aside rfl rfl rfl rfl rfl rfl rfl
  · next id _ =>
    obtain ⟨o, _, hok⟩ := bind_ok.mp hok
    have hnone : Keeps s { s with closing := none } := .aside rfl rfl rfl rfl rfl rfl rfl
    dsimp only at hok
    split at hok
    · exact hnone.trans (removeConnectionInLoop_keeps hok)
    · cases hok
      exact .aside rfl rfl rfl rfl rfl rfl rfl
    · exact hnone.trans (removeConnection_keeps hok)

theorem retryTimer_keeps {k delay : Nat} {savedErrno : ConnectErrno}
    (hok : s.retryTimer k delay savedErrno = .ok t) : Keeps s t := by
  obtain ⟨c, hc, hok⟩ := bind_ok.mp hok
  obtain ⟨c', hc', hok⟩ := bind_ok.mp hok
  have h := (Connector.startInLoop_start hc').2.leavesChannel
  cases hok
  exact storeConnector_keeps (derefConnector_ok hc) ⟨h.channel, h.resets⟩

theorem delayTimer_keeps {id : Nat} (hok : s.delayTimer id = .ok t) : Keeps s t := by
  obtain ⟨o, ho, hok⟩ := bind_ok.mp hok
  cases hok
  exact store_continues (deref_ok ho) fun ha => .inr (TcpConnection.forceClose_stays.added ha)

theorem start_keeps {k : Nat} {inLoopThread : Bool} {savedErrno : ConnectErrno}
    (hok : s.start k inLoopThread savedErrno = .ok t) : Keeps s t := by
  obtain ⟨c, hc, hok⟩ := bind_ok.mp hok
  obtain ⟨c', hc', hok⟩ := bind_ok.mp hok
  cases hok
  exact (storeConnector_keeps (derefConnector_ok hc) (Connector.start_leavesChannel hc')).trans
    (.aside rfl rfl rfl rfl rfl rfl rfl)

theorem stop_keeps {k : Nat} (hok : s.stop k = .ok t) : Keeps s t := by
  obtain ⟨c, hc, hok⟩ := bind_ok.mp hok
  cases hok
  exact (storeConnector_keeps (derefConnector_ok hc) (Connector.stop_leavesChannel c)).trans
    (.aside rfl rfl rfl rfl rfl rfl rfl)

theorem disconnect_keeps {k : Nat} {inLoopThread : Bool} (hok : s.disconnect k inLoopThread = .ok t) :
    Keeps s t := by
  obtain ⟨client, _, hok⟩ := bind_ok.mp hok
  have hwish : Keeps s { s with
      clients := Function.update s.clients k (some { client with connect_ := false }) } :=
    .aside rfl rfl rfl rfl rfl rfl rfl
  dsimp only at hok
  split at hok
  · cases hok
    exact hwish
  · exact hwish.trans (call_keeps rfl hok)

theorem enableRetry_keeps {k : Nat} (hok : s.enableRetry k = .ok t) : Keeps s t := by
  obtain ⟨client, _, hok⟩ := bind_ok.mp hok
  cases hok
  exact .aside rfl rfl rfl rfl rfl rfl rfl

theorem newConnector_keeps {k : Nat} {client : Bool} (hn : s.connectors k = none) :
    Keeps s (s.newConnector k client) where
  upcoming := rfl
  current := rfl
  eventHandling := rfl
  calling := rfl
  removals _ hr := .inl hr
  registered := by
    refine registered_connector .new rfl rfl fun c hc => ?_
    rw [hn] at hc
    cases hc

theorem newClientConnection_keeps {k id : Nat} {client : ServedClient}
    (hn : s.connections id = none) (hok : s.newClientConnection k client id = .ok t) : Keeps s t := by
  have hclient : Keeps s { s with
      clients := Function.update s.clients k (some { client with connection := some id }) } :=
    .aside rfl rfl rfl rfl rfl rfl rfl
  exact hclient.trans (establish_keeps hn hok)

/-- The events of a connecting socket remove the channel of that socket, and no other one. -/
theorem handleConnector_continues {k fd id : Nat} {error writable : Bool} {err : Nat}
    {isSelfConnect : Bool} (hhead : s.upcoming.head? = some (.connector k fd))
    (hreg : s.Registered (.connector k fd)) (hn : s.connections id = none)
    (hok : s.handleConnector error writable err isSelfConnect id = .ok t) :
    Continues s.dispatch t (· = .connector k fd) := by
  obtain ⟨c, hc, ch, hch, hfd, _⟩ := hreg
  have hcur : s.dispatch.currentActiveChannel = some (.connector k fd) := hhead
  have hderef : s.derefConnector k = .ok c := by
    rw [derefConnector, hc]
  rw [handleConnector, hcur] at hok
  dsimp only at hok
  rw [hderef, ok_bind] at hok
  obtain ⟨⟨c', sockfd⟩, hc', hok⟩ := bind_ok.mp hok
  have hstored : Continues s.dispatch (s.dispatch.storeConnector k c c') (· = .connector k fd) := by
    obtain ⟨d, hcd, hdc, _⟩ := Connector.handleEvent_change hc'
    obtain ⟨ch₁, hch₁, hfd₁⟩ := hcd.same_socket hch
    obtain ⟨ch₂, hch₂, hfd₂⟩ := hdc.same_socket hch₁
    refine storeConnector_continues hc (fun fd' hfd' => ?_) fun ch' hch' => .inl ?_
    · have hsome : c'.channel.map SocketChannel.fd = some fd' := by
        rw [removed] at hfd'
        split at hfd'
        · exact hfd'
        · cases hfd'
      rw [hch₂, Option.map_some, hfd₂, hfd₁, hfd] at hsome
      rw [Option.some.inj hsome]
    · rw [hch] at hch'
      rw [← Option.some.inj hch', hfd]
  dsimp only at hok
  split at hok
  · next client _ =>
    have hn' : (s.dispatch.storeConnector k c c').connections id = none := by
      unfold storeConnector
      split <;> exact hn
    exact hstored.trans (newClientConnection_keeps hn' hok).continues
  · cases hok
    exact hstored
  · cases hok
    exact hstored

theorem runConnector_continues {k : Nat} {savedErrno : ConnectErrno} {f : ClientFunctor}
    (hok : s.runConnector k savedErrno f = .ok t) : Continues s t fun _ => True := by
  obtain ⟨c, hc, hok⟩ := bind_ok.mp hok
  have hstored (c' : Connector) : Continues s (s.storeConnector k c c') fun _ => True :=
    storeConnector_continues (derefConnector_ok hc) (fun _ _ => trivial) fun _ _ => .inl trivial
  cases f with
  | startInLoop =>
    obtain ⟨c', _, hok⟩ := bind_ok.mp hok
    cases hok
    exact hstored c'
  | stopInLoop =>
    obtain ⟨c', _, hok⟩ := bind_ok.mp hok
    cases hok
    exact hstored c'
  | resetChannel =>
    obtain ⟨c', _, hok⟩ := bind_ok.mp hok
    cases hok
    exact hstored c'
  | forceCloseInLoop conn | connectDestroyed conn =>
    cases hok
    exact .aside rfl rfl rfl rfl rfl rfl rfl

/-- A functor may remove any channel. -/
theorem callFunctor_continues {savedErrno : ConnectErrno} {w : WriteResult}
    (hok : s.callFunctor savedErrno w = .ok t) : Continues s t fun _ => True := by
  unfold callFunctor at hok
  split at hok
  · cases hok
    exact .aside rfl rfl rfl rfl rfl rfl rfl
  · next task ts _ =>
    have htake : Continues s { s with functors := ts } fun _ => True :=
      .aside rfl rfl rfl rfl rfl rfl rfl
    cases task with
    | connection id f => exact htake.trans ((call_continues hok).mono fun _ _ => trivial)
    | connector k f => exact htake.trans (runConnector_continues hok)
    | timer =>
      cases hok
      exact htake

/-- While the loop dispatches, every channel that comes next is in the poller, and nothing
was removed but the channel whose events the loop was in. -/
structure Guarded (s : ServingLoop) : Prop where
  removals : ∀ r ∈ s.removals, r.eventHandling = true → r.currentActiveChannel = some r.channel
  registered : ∀ ch ∈ s.upcoming, s.Registered ch
  once : s.upcoming.Nodup
  idle : s.eventHandling = false → s.upcoming = []
  apart : s.callingPendingFunctors = true → s.eventHandling = false

theorem new_guarded : Guarded new where
  removals _ hr := absurd hr List.not_mem_nil
  registered _ hch := absurd hch List.not_mem_nil
  once := List.nodup_nil
  idle _ := rfl
  apart h := Bool.noConfusion h

theorem Guarded.continues (h : Guarded s) (hc : Continues s t gone)
    (hgone : ∀ ch, gone ch →
      ch ∉ s.upcoming ∧ (s.eventHandling = true → s.currentActiveChannel = some ch)) :
    Guarded t where
  removals r hr he := by
    rcases hc.removals r hr with hr | ⟨hg, he', hcur⟩
    · exact h.removals r hr he
    · rw [hcur]
      exact (hgone _ hg).2 (he'.symm.trans he)
  registered ch hch := by
    rw [hc.upcoming] at hch
    rcases hc.registered ch (h.registered ch hch) with hg | hreg
    · exact absurd hch (hgone ch hg).1
    · exact hreg
  once := hc.upcoming ▸ h.once
  idle he := hc.upcoming.trans (h.idle (hc.eventHandling.symm.trans he))
  apart hcall := hc.eventHandling.trans (h.apart (hc.calling.symm.trans hcall))

theorem Guarded.keeps (h : Guarded s) (hk : Keeps s t) : Guarded t :=
  h.continues hk fun _ hg => hg.elim

/-- In `doPendingFunctors` no channel comes next, and the assertion is off. -/
theorem Guarded.functors (h : Guarded s) (hcall : s.callingPendingFunctors = true)
    (hc : Continues s t fun _ => True) : Guarded t := by
  have he := h.apart hcall
  refine h.continues hc fun ch _ => ⟨?_, fun he' => ?_⟩
  · rw [h.idle he]
    exact List.not_mem_nil
  · rw [he] at he'
    cases he'

theorem Guarded.dispatch (h : Guarded s) : Guarded s.dispatch where
  removals := h.removals
  registered ch hch :=
    (registered_congr rfl rfl ch).mpr (h.registered ch (List.mem_of_mem_tail hch))
  once := h.once.tail
  idle he := by
    have hnil : s.upcoming = [] := h.idle he
    simp only [ServingLoop.dispatch, hnil, List.tail_nil]
  apart := h.apart

theorem Guarded.handleConnector (h : Guarded s) {error writable : Bool} {err : Nat}
    {isSelfConnect : Bool} {id : Nat}
    (he : enabled s (.handleConnector error writable err isSelfConnect id))
    (hok : s.handleConnector error writable err isSelfConnect id = .ok t) : Guarded t := by
  obtain ⟨_, hn, ch, hch, hconnector⟩ := he
  cases ch with
  | wakeup | timerfd | acceptor server | connection id => cases hconnector
  | connector k fd =>
    obtain ⟨rest, hup⟩ := List.head?_eq_some_iff.mp hch
    have hreg : s.Registered (.connector k fd) := h.registered _ (by simp [hup])
    refine h.dispatch.continues (handleConnector_continues hch hreg hn hok) ?_
    rintro _ rfl
    refine ⟨?_, fun _ => hch⟩
    -- each channel comes once, so the one removed does not come again
    have honce := h.once
    rw [hup, List.nodup_cons] at honce
    simpa [ServingLoop.dispatch, hup] using honce.1

theorem step_guarded {a : Step} (h : Guarded s) (he : enabled s a) (hok : step s a = .ok t) :
    Guarded t := by
  cases a with
  | poll activeChannels =>
    obtain ⟨_, hcall, hnodup, hreg⟩ := he
    cases hok
    refine ⟨h.removals, fun ch hch => ?_, hnodup, fun he => Bool.noConfusion he, fun hx => ?_⟩
    · exact (registered_congr rfl rfl ch).mpr (hreg ch hch)
    · exact absurd (hcall.symm.trans hx) Bool.false_ne_true
  | dispatch =>
    cases hok
    exact h.dispatch
  | handleConnection id op =>
    have hop : op.removesChannel = false := by
      cases op with
      | runFunctor f w => cases he.2.2
      | _ => rfl
    exact h.keeps (call_keeps hop hok)
  | handleConnector error writable err isSelfConnect id => exact h.handleConnector he hok
  | newConnection server id writeCompleteCallback => exact h.keeps (establish_keeps he.2.1 hok)
  | retryTimer k delay savedErrno => exact h.keeps (retryTimer_keeps hok)
  | delayTimer id => exact h.keeps (delayTimer_keeps hok)
  | closeCallback savedErrno => exact h.keeps (closeCallback_keeps hok)
  | doPendingFunctors =>
    cases hok
    refine ⟨h.removals, fun ch hch => ?_, h.once, fun _ => he.2, fun _ => rfl⟩
    exact (registered_congr rfl rfl ch).mpr (h.registered ch hch)
  | callFunctor savedErrno w => exact h.functors he.1.1 (callFunctor_continues hok)
  | calledFunctors =>
    cases hok
    refine ⟨h.removals, fun ch hch => ?_, h.once, h.idle, fun hx => Bool.noConfusion hx⟩
    exact (registered_congr rfl rfl ch).mpr (h.registered ch hch)
  | call id op =>
    have hop : op.removesChannel = false := by
      cases op with
      | runFunctor f w => cases he.2
      | _ => rfl
    exact h.keeps (call_keeps hop hok)
  | start k inLoopThread savedErrno => exact h.keeps (start_keeps hok)
  | stop k => exact h.keeps (stop_keeps hok)
  | disconnect k inLoopThread => exact h.keeps (disconnect_keeps hok)
  | enableRetry k => exact h.keeps (enableRetry_keeps hok)
  | timer inLoopThread =>
    cases hok
    refine h.keeps ?_
    cases inLoopThread with
    | true => exact .aside rfl rfl rfl rfl rfl rfl rfl
    | false => exact .aside rfl rfl rfl rfl rfl rfl rfl
  | newConnector k client =>
    cases hok
    exact h.keeps (newConnector_keeps he)
  | assignConnection id writeCompleteCallback =>
    cases hok
    refine h.keeps (put_keeps fun o ho => ?_)
    rw [he] at ho
    cases ho
  | removeConnectionInLoop id =>
    have hasked : Keeps s { s with asked := s.asked.erase id } := .aside rfl rfl rfl rfl rfl rfl rfl
    exact h.keeps (hasked.trans (removeConnectionInLoop_keeps hok))

/-- A channel removed while events are handled is `currentActiveChannel_`, so that the
assertion in `removeChannel` holds, and whatever is still to be dispatched is registered. -/
theorem removals_guarded {as : List Step} (h : machine.Run new as s) :
    (∀ r ∈ s.removals, (r.eventHandling = true → r.currentActiveChannel = some r.channel) ∧
      r.Asserted) ∧ ∀ ch ∈ s.upcoming, s.Registered ch := by
  have hg : Guarded s :=
    h.invariant (I := Guarded) (fun _ _ _ hi he hs => step_guarded hi he hs) new_guarded
  refine ⟨fun r hr => ?_, hg.registered⟩
  have hcur := hg.removals r hr
  exact ⟨hcur, fun he => .inl (hcur he)⟩

/-- A client connects, its connection and one of a server are active at once, and the
callback of the first closes the second. -/
def serving : List Step :=
  [.newConnector 0 true, .start 0 true .EINPROGRESS, .poll [.connector 0 0, .acceptor 0],
    .handleConnector false true 0 false 0, .dispatch, .newConnection 0 1 false,
    .doPendingFunctors, .callFunctor .success (.accepted 0), .calledFunctors,
    .poll [.connection 0, .connection 1], .dispatch, .handleConnection 0 (.handleRead (.data [])),
    .call 1 .forceClose, .closeCallback .success]

theorem removals_guarded_sample : ∃ s : ServingLoop,
    (s.removals = [⟨.connector 0 0, true, some (.connector 0 0), [.connector 0 0, .acceptor 0]⟩] ∧
      s.upcoming = [.connection 1]) ∧
    (∀ r ∈ s.removals, (r.eventHandling = true → r.currentActiveChannel = some r.channel) ∧
      r.Asserted) ∧ ∀ ch ∈ s.upcoming, s.Registered ch := by
  obtain ⟨s, hr, hs⟩ := machine.exists_run new serving (fun s => (s.removals, s.upcoming))
    ([⟨.connector 0 0, true, some (.connector 0 0), [.connector 0 0, .acceptor 0]⟩],
      [.connection 1]) (by decide +kernel)
  exact ⟨s, ⟨congrArg Prod.fst hs, congrArg Prod.snd hs⟩, removals_guarded hr⟩

end ServingLoop
end Muduo.Net
