import Muduo.Support.Mailbox
import Muduo.Net.ConnectorSockets

/-! When the assertions of `startInLoop` and `connecting` hold: one start is in motion at a
time, and the channel of the last attempt is gone before the next one begins. -/
namespace Muduo.Net
open Muduo.Support

namespace Connector
variable {c c' : Connector}

theorem startInLoop_ok (hs : c.state = .kDisconnected)
    (hc : c.connect_ = true → c.channel = none) (savedErrno : ConnectErrno) :
    ∃ c', c.startInLoop savedErrno = .ok c' ∧ Start c c' := by
  have hok : ∃ c', c.startInLoop savedErrno = .ok c' := by
    unfold startInLoop
    rw [assert_true hs, ok_bind]
    split
    · next hwant =>
      have hc' : ({ c with created := c.created + 1 }.setState .kConnecting).channel = none :=
        hc hwant
      cases savedErrno <;>
        simp only [connect, connecting, assert_true hc', ok_bind] <;> exact ⟨_, rfl⟩
    · exact ⟨c, rfl⟩
  obtain ⟨c', hok⟩ := hok
  exact ⟨c', hok, (startInLoop_start hok).2⟩

/-- A socket that was created and is neither closed nor handed over. -/
def InFlight (c : Connector) (fd : Nat) : Prop :=
  fd < c.created ∧ fd ∉ c.closed ∧ fd ∉ c.handed

theorem Accounted.inFlight (h : Accounted c) {fd : Nat} (hfd : c.InFlight fd) :
    c.connectingOn = some fd := by
  have hk := h fd
  rw [places, if_pos hfd.1, List.count_eq_zero.mpr hfd.2.1, List.count_eq_zero.mpr hfd.2.2] at hk
  by_contra hne
  rw [if_neg hne] at hk
  cases hk

theorem Accounted.not_handed (h : Accounted c) {fd : Nat} (hon : c.connectingOn = some fd) :
    fd ∉ c.handed := by
  have hk := h fd
  rw [places, if_pos hon] at hk
  apply List.count_eq_zero.mp
  split at hk <;> omega

end Connector

namespace TcpClient
variable {t u : TcpClient}

/-- The functors of the client that the loop has not called, in the order it will. -/
def queue (t : TcpClient) : List ClientFunctor := t.functors ++ t.connector.pendingFunctors

/-- No start is on its way: neither queued nor set on a timer. -/
def NoStart (t : TcpClient) : Prop := t.connector.timers = [] ∧ .startInLoop ∉ t.queue

structure Orderly (t : TcpClient) : Prop where
  single : t.connector.timers.length + t.queue.count .startInLoop +
    (if t.connector.state = .kDisconnected then 0 else 1) ≤ 1
  start : NoneBehind .startInLoop .resetChannel t.queue
  close : ∀ conn, t.connection = some conn →
    NoneBehind (.forceCloseInLoop conn) .resetChannel t.queue
  fresh : t.connection ≠ none → t.dispatching = false →
    .resetChannel ∉ t.connector.pendingFunctors
  polled : t.connection ≠ none → t.activeConnection = t.connection → .resetChannel ∉ t.queue
  active : t.activeConnect ≠ none →
    t.dispatching = true ∧ t.connector.state = .kConnecting ∧ t.activeConnection = none
  closers : ∀ conn, .forceCloseInLoop conn ∈ t.queue → conn ∈ t.connector.handed
  owner : ∀ conn, t.connection = some conn → conn ∈ t.connector.handed

theorem new_orderly : Orderly .new := by
  constructor <;> simp [new, Connector.new, queue, NoneBehind]

theorem Orderly.noStart (h : Orderly t) (hs : t.connector.state ≠ .kDisconnected) : NoStart t := by
  have hsingle := h.single
  rw [if_neg hs] at hsingle
  exact ⟨List.eq_nil_of_length_eq_zero (by omega), List.count_eq_zero.mp (by omega)⟩

instance noStartDecidable (t : TcpClient) : Decidable (NoStart t) :=
  inferInstanceAs (Decidable (_ ∧ _))

/-- Without an attempt under way and without a `resetChannel` to come there is no channel. -/
theorem Owned.vacant (h : Owned t) (hs : t.connector.state ≠ .kConnecting)
    (hq : .resetChannel ∉ t.queue) : t.connector.channel = none := by
  have ht := h.tidy
  have hz : (t.functors ++ t.connector.pendingFunctors).count .resetChannel = 0 :=
    List.count_eq_zero.mpr hq
  unfold Connector.Tidy at ht
  rw [hz] at ht
  split at ht
  · assumption
  · rcases ht with ⟨hx, _⟩ | ⟨_, _, hx⟩
    · exact absurd hx hs
    · cases hx

theorem Owned.attempt (h : Owned t) (hs : t.connector.state = .kConnecting) :
    ∃ ch, t.connector.channel = some ch ∧ t.connector.connectingOn = some ch.fd := by
  cases hc : t.connector.channel with
  | none =>
    have ht := h.tidy
    simp only [Connector.Tidy, hc] at ht
    exact absurd hs ht.1
  | some ch => exact ⟨ch, rfl, (h.tidy.connecting hs hc).1⟩

/-- The channel that a queued `resetChannel` is to destroy. -/
theorem Owned.detached (h : Owned t) (hq : .resetChannel ∈ t.queue) :
    t.connector.state ≠ .kConnecting ∧
      ∃ ch, t.connector.channel = some ch ∧ ch.channel.addedToLoop = false := by
  have ht := h.tidy
  have hpos : 0 < (t.functors ++ t.connector.pendingFunctors).count .resetChannel :=
    List.count_pos_iff.mpr hq
  unfold Connector.Tidy at ht
  split at ht
  · omega
  · next ch hc =>
    rcases ht with ⟨_, _, hz⟩ | ⟨hs, ha, _⟩
    · omega
    · exact ⟨hs, ch, hc, ha⟩

theorem Owned.no_connection (h : Owned t) (hs : t.connector.state ≠ .kConnected) :
    t.connection = none := by
  by_contra hx
  exact hs (h.connected hx)

/-- The client or another thread queues a functor. -/
theorem Orderly.push {f : ClientFunctor} (h : Orderly t) (hf : f ≠ .resetChannel)
    (hstart : f = .startInLoop → NoStart t ∧ t.connector.state = .kDisconnected)
    (hclose : ∀ conn, f = .forceCloseInLoop conn → conn ∈ t.connector.handed) :
    Orderly { t with connector := t.connector.queueInLoop f } := by
  have hq : queue { t with connector := t.connector.queueInLoop f } = t.queue ++ [f] :=
    (List.append_assoc ..).symm
  constructor
  case single =>
    rw [hq, List.count_append]
    by_cases hs : f = .startInLoop
    · obtain ⟨⟨htimers, hmem⟩, hstate⟩ := hstart hs
      simp [hs, Connector.queueInLoop, htimers, hstate, List.count_eq_zero.mpr hmem]
    · have hz : [f].count .startInLoop = 0 := by simp [hs]
      rw [hz]
      exact h.single
  case start =>
    rw [hq]
    exact h.start.push fun _ => hf.symm
  case close =>
    rw [hq]
    exact fun conn hc => (h.close conn hc).push fun _ => hf.symm
  case fresh =>
    intro hc hd
    simpa [Connector.queueInLoop, hf.symm] using h.fresh hc hd
  case polled =>
    rw [hq]
    intro hc ha
    simpa [hf.symm] using h.polled hc ha
  case active => exact h.active
  case closers =>
    rw [hq]
    intro conn hm
    rcases List.mem_append.mp hm with hm | hm
    · exact h.closers conn hm
    · exact hclose conn (List.mem_singleton.mp hm).symm
  case owner => exact h.owner

/-- The oldest functor is taken out of the batch. -/
theorem Orderly.called {f : ClientFunctor} {fs : List ClientFunctor} (h : Orderly t)
    (hfs : t.functors = f :: fs) : Orderly { t with functors := fs } := by
  have hq : t.queue = f :: queue { t with functors := fs } := by
    rw [queue, hfs]
    rfl
  constructor
  case single =>
    have hs := h.single
    rw [hq, List.count_cons] at hs
    exact Nat.le_trans (by dsimp only; omega) hs
  case start => exact (hq ▸ h.start).tail
  case close => exact fun conn hc => (hq ▸ h.close conn hc).tail
  case fresh => exact h.fresh
  case polled =>
    intro hc ha hm
    exact h.polled hc ha (hq ▸ List.mem_cons_of_mem f hm)
  case active => exact h.active
  case closers => exact fun conn hm => h.closers conn (hq ▸ List.mem_cons_of_mem f hm)
  case owner => exact h.owner

/-- `startInLoop` on a connector at its start, with nothing else in motion. -/
theorem Orderly.starts {c : Connector} (h : Orderly t) (hs : t.connector.state = .kDisconnected)
    (hconn : t.connection = none) (hno : NoStart t) (hst : Connector.Start t.connector c) :
    Orderly { t with connector := c } := by
  have hactive : t.activeConnect = none := by
    by_contra hx
    have hk := (h.active hx).2.1
    rw [hs] at hk
    cases hk
  have keep : c.pendingFunctors = t.connector.pendingFunctors →
      c.handed = t.connector.handed →
      c.timers.length + (if c.state = .kDisconnected then 0 else 1) ≤ 1 →
      Orderly { t with connector := c } := by
    intro hp hhanded hsum
    have hq : queue { t with connector := c } = t.queue := by rw [queue, queue, hp]
    constructor
    case single =>
      rw [hq, List.count_eq_zero.mpr hno.2]
      exact hsum
    case start => rw [hq]; exact h.start
    case close => exact fun conn hc => absurd (hconn.symm.trans hc) (by simp)
    case fresh => exact fun hc => absurd hconn hc
    case polled => exact fun hc => absurd hconn hc
    case active => exact fun hc => absurd hactive hc
    case closers => rw [hq, hhanded]; exact h.closers
    case owner => rw [hhanded]; exact h.owner
  cases hst with
  | declines hwant he => exact he ▸ h
  | opens hwant hc he => apply keep <;> simp [he, hno.1]
  | fails ts d hwant hts he => apply keep <;> simp [he, hno.1, hs, hts]

/-- An attempt ends; where it gave a connection, that may be installed. -/
theorem Orderly.ends {c : Connector} {ch : SocketChannel} {conn : Option Nat} (h : Orderly t)
    (hs : t.connector.state = .kConnecting) (hon : t.connector.connectingOn = some ch.fd)
    (ho : Owned t) (hend : Connector.End t.connector ch c)
    (hconn : conn = none ∨ conn = some ch.fd ∧ t.dispatching = true ∧
      t.activeConnection = none ∧ c.handed = t.connector.handed ++ [ch.fd]) :
    Orderly { t with connector := c, connection := conn, activeConnect := none } := by
  obtain ⟨htimers, hmem⟩ := h.noStart (by simp [hs])
  have hfd := ho.accounted.not_handed hon
  have keep : c.pendingFunctors = t.connector.pendingFunctors ++ [.resetChannel] →
      (∀ fd ∈ t.connector.handed, fd ∈ c.handed) →
      c.timers.length + (if c.state = .kDisconnected then 0 else 1) ≤ 1 →
      Orderly { t with connector := c, connection := conn, activeConnect := none } := by
    intro hp hhanded hsum
    have hq : queue { t with connector := c, connection := conn, activeConnect := none } =
        t.queue ++ [.resetChannel] := by rw [queue, queue, hp, List.append_assoc]
    have hclosers : ∀ k, .forceCloseInLoop k ∈ t.queue ++ [ClientFunctor.resetChannel] →
        .forceCloseInLoop k ∈ t.queue := by
      intro k hm
      simpa using hm
    constructor
    case single =>
      rw [hq, List.count_append, List.count_eq_zero.mpr hmem]
      simpa using hsum
    case start =>
      rw [hq]
      exact h.start.push fun hm => absurd hm hmem
    case close =>
      intro k hk
      rw [hq]
      rcases hconn with hconn | ⟨hconn, _⟩
      · exact absurd (hconn.symm.trans hk) (by simp)
      · obtain rfl : ch.fd = k := Option.some.inj (hconn.symm.trans hk)
        exact .of_not_mem fun hm => hfd (h.closers _ (hclosers _ hm))
    case fresh =>
      intro hc hd
      rcases hconn with hconn | ⟨_, hdisp, _⟩
      · exact absurd hconn hc
      · exact absurd (hdisp.symm.trans hd) (by simp)
    case polled =>
      intro hc ha
      rcases hconn with hconn | ⟨hconn, _, hactive, _⟩
      · exact absurd hconn hc
      · exact absurd (hactive.symm.trans (ha.trans hconn)) (by simp)
    case active => exact fun hc => absurd rfl hc
    case closers =>
      rw [hq]
      exact fun k hm => hhanded k (h.closers k (hclosers k hm))
    case owner =>
      intro k hk
      rcases hconn with hconn | ⟨hconn, _, _, hh⟩
      · exact absurd (hconn.symm.trans hk) (by simp)
      · obtain rfl : ch.fd = k := Option.some.inj (hconn.symm.trans hk)
        rw [hh]
        simp
  cases hend with
  | abandons ch' ts d hch hts he => apply keep <;> simp [he, htimers, hts]
  | establishes ch' fds gds hch hfds hwant he =>
    apply keep
    · rw [he]
    · intro fd hm
      rw [he]
      exact List.mem_append_left _ hm
    · simp [he, htimers]

/-- What is asked of the callers and of the clock: `connect()` comes when the connector is
at rest, and a retry timer does not fire before the channel of the attempt it retries is
gone. -/
def Calm (t : TcpClient) : Step → Prop
  | .connect inLoopThread _ =>
      t.connector.state = .kDisconnected ∧ NoStart t ∧
        (inLoopThread = true → t.connector.channel = none)
  | .timerFires _ _ => t.connector.connect_ = true → t.connector.channel = none
  | _ => True

instance calmDecidable (t : TcpClient) : (a : Step) → Decidable (Calm t a)
  | .connect _ _ => inferInstanceAs (Decidable (_ ∧ _ ∧ (_ → _)))
  | .timerFires _ _ => inferInstanceAs (Decidable (_ → _))
  | .enableRetry | .disconnect | .stop | .forceClose | .poll | .handleEvent _ _ _ _
  | .connectionCloses _ | .doPendingFunctors | .callFunctor _ => isTrue trivial

theorem Orderly.closed (h : Orderly t) : Orderly { t with connection := none } where
  single := h.single
  start := h.start
  close := fun _ hc => absurd hc (by simp)
  fresh := fun hc => absurd rfl hc
  polled := fun hc => absurd rfl hc
  active := h.active
  closers := h.closers
  owner := fun _ hc => absurd hc (by simp)

theorem Orderly.reset (h : Orderly t) :
    Orderly { t with connector := { t.connector with channel := none } } :=
  ⟨h.single, h.start, h.close, h.fresh, h.polled, h.active, h.closers, h.owner⟩

/-- Fields of the connector that do not say whether it is at rest, and timers that fired. -/
theorem Orderly.aside (wants : Bool) (delay : Nat) {timers : List Nat}
    (hle : timers.length ≤ t.connector.timers.length) (h : Orderly t) :
    Orderly { t with connector := { t.connector with
      connect_ := wants, timers := timers, retryDelayMs := delay } } where
  single := Nat.le_trans (Nat.add_le_add_right (Nat.add_le_add_right hle _) _) h.single
  start := h.start
  close := h.close
  fresh := h.fresh
  polled := h.polled
  active := h.active
  closers := h.closers
  owner := h.owner

theorem Orderly.restarting (wants : Bool) (delay : Nat) (h : Orderly t)
    (hs : t.connector.state = .kConnected) :
    Orderly { t with connector := { t.connector.setState .kDisconnected with
      retryDelayMs := delay, connect_ := wants } } where
  single := by
    obtain ⟨htimers, hmem⟩ := h.noStart (by simp [hs])
    have hz := List.count_eq_zero.mpr hmem
    change t.connector.timers.length + t.queue.count .startInLoop + 0 ≤ 1
    rw [htimers, hz]
    exact Nat.zero_le 1
  start := h.start
  close := h.close
  fresh := h.fresh
  polled := h.polled
  active := by
    intro hc
    have hk := (h.active hc).2.1
    rw [hs] at hk
    cases hk
  closers := h.closers
  owner := h.owner

/-- The step succeeds, and the client stays orderly. -/
def Succeeds (r : Except Fault TcpClient) : Prop := ∃ u, r = .ok u ∧ Orderly u

theorem removeConnection_succeeds {conn : Nat} (ho : Owned t) (h : Orderly t)
    (hconn : t.connection = some conn) (hreset : .resetChannel ∉ t.queue)
    (savedErrno : ConnectErrno) : Succeeds (t.removeConnection conn savedErrno) := by
  have hs : t.connector.state = .kConnected := ho.connected (by simp [hconn])
  have hvacant := ho.vacant (by simp [hs]) hreset
  have hp := (h.push (f := .connectDestroyed conn) (by simp) (by simp) (by simp)).closed
  have hr := hp.restarting true Connector.kInitRetryDelayMs hs
  obtain ⟨c, hok, hst⟩ := Connector.startInLoop_ok (c := { (t.connector.queueInLoop
    (.connectDestroyed conn)).setState .kDisconnected with
      retryDelayMs := Connector.kInitRetryDelayMs, connect_ := true }) rfl (fun _ => hvacant)
    savedErrno
  unfold removeConnection Succeeds
  rw [assert_true hconn, ok_bind]
  dsimp only
  split
  · rw [Connector.restart, hok]
    exact ⟨_, rfl, hr.starts rfl rfl (hp.noStart (by simp [Connector.queueInLoop, hs])) hst⟩
  · exact ⟨_, rfl, hp⟩

/-- Behind a functor that starts the connector again no `resetChannel` is to come. -/
theorem callFunctor_succeeds {f : ClientFunctor} {fs : List ClientFunctor} (ho : Owned t)
    (h : Orderly t) (hdisp : t.dispatching = false) (hfs : t.functors = f :: fs)
    (savedErrno : ConnectErrno) :
    Succeeds ({ t with functors := fs }.callFunctor savedErrno f) := by
  have hq : t.queue = f :: queue { t with functors := fs } := by
    rw [queue, hfs]
    rfl
  have hcalled := h.called hfs
  have hactive : t.activeConnect = none := by
    by_contra hx
    exact absurd ((h.active hx).1.symm.trans hdisp) (by simp)
  cases f with
  | startInLoop =>
    have hsingle := h.single
    rw [hq, List.count_cons_self] at hsingle
    have hs : t.connector.state = .kDisconnected := by
      by_contra hx
      rw [if_neg hx] at hsingle
      omega
    have hno : NoStart { t with functors := fs } :=
      ⟨List.eq_nil_of_length_eq_zero (by dsimp only; omega), List.count_eq_zero.mp (by omega)⟩
    have hvacant := (ho.called hfs (by simp)).vacant (by simp [hs])
      (hq ▸ h.start).not_mem_of_head
    obtain ⟨c, hok, hst⟩ := Connector.startInLoop_ok hs (fun _ => hvacant) savedErrno
    refine ⟨_, by simp only [callFunctor, hok]; rfl, ?_⟩
    exact hcalled.starts hs (ho.no_connection (by simp [hs])) hno hst
  | stopInLoop =>
    by_cases hs : t.connector.state = .kConnecting
    · obtain ⟨ch, hc, hon⟩ := ho.attempt hs
      obtain ⟨c, hok, hend⟩ := Connector.stopInLoop_end hs hc
      have hconn := ho.no_connection (by simp [hs])
      have hu := hcalled.ends hs hon (ho.called hfs (by simp)) hend (.inl rfl)
      refine ⟨_, by simp only [callFunctor, hok]; rfl, ?_⟩
      simpa only [hconn, hactive] using hu
    · refine ⟨_, by simp only [callFunctor, Connector.stopInLoop_idle hs]; rfl, ?_⟩
      exact hcalled
  | resetChannel =>
    obtain ⟨_, ch, hc, ha⟩ := ho.detached (hq ▸ List.mem_cons_self)
    have hok : t.connector.resetChannel = .ok { t.connector with channel := none } := by
      simp only [Connector.resetChannel, hc, assert_true ha, ok_bind]
      rfl
    exact ⟨_, by simp only [callFunctor, hok]; rfl, hcalled.reset⟩
  | forceCloseInLoop conn =>
    simp only [callFunctor]
    split
    · next hconn =>
      have hreset := (hq ▸ h.close conn hconn).not_mem_of_head
      exact removeConnection_succeeds (ho.called hfs (by simp)) hcalled hconn hreset savedErrno
    · exact ⟨_, rfl, hcalled⟩
  | connectDestroyed conn => exact ⟨_, rfl, hcalled⟩

/-- An event of the connecting socket ends the attempt, at most once. -/
theorem handleEvent_succeeds (ho : Owned t) (h : Orderly t) (hactive : t.activeConnect ≠ none)
    (error writable : Bool) (err : Nat) (isSelfConnect : Bool) :
    Succeeds (step t (.handleEvent error writable err isSelfConnect)) := by
  obtain ⟨hdisp, hs, hpolled⟩ := h.active hactive
  obtain ⟨ch, hc, hon⟩ := ho.attempt hs
  have hconn := ho.no_connection (by simp [hs])
  have finish (c : Connector) (sockfd : Option Nat)
      (hok : t.connector.handleEvent error writable err isSelfConnect = .ok (c, sockfd))
      (hu : Orderly { t with connector := c, connection := sockfd, activeConnect := none }) :
      Succeeds (step t (.handleEvent error writable err isSelfConnect)) := by
    refine ⟨_, by simp only [step, hok]; rfl, ?_⟩
    cases sockfd with
    | none => simpa only [newConnection, hconn] using hu
    | some fd => exact hu
  cases error with
  | true =>
    obtain ⟨d, hd, hend, hsd⟩ := Connector.handleError_end hs hc
    have hu := h.ends hs hon ho hend (.inl rfl)
    apply finish d none _ hu
    cases writable with
    | true =>
      have hw := Connector.handleWrite_idle hsd err isSelfConnect
      simp only [Connector.handleEvent, if_true, hd, ok_bind, hw]
    | false =>
      simp only [Connector.handleEvent, if_true, hd, ok_bind]
      rfl
  | false =>
    cases writable with
    | true =>
      obtain ⟨c, sockfd, hw, hend, hfd⟩ := Connector.handleWrite_end hs hc err isSelfConnect
      have hu : Orderly { t with connector := c, connection := sockfd, activeConnect := none } := by
        apply h.ends hs hon ho hend
        rcases hfd with hfd | ⟨hfd, _, hhanded⟩
        · exact .inl hfd
        · exact .inr ⟨hfd, hdisp, hpolled, hhanded⟩
      exact finish c sockfd hw hu
    | false =>
      have hu : Orderly { t with connection := none, activeConnect := none } :=
        ⟨h.single, h.start, h.closed.close, h.closed.fresh, h.closed.polled,
          fun hx => absurd rfl hx, h.closers, h.closed.owner⟩
      exact finish t.connector none rfl hu

theorem connect_succeeds (ho : Owned t) (h : Orderly t) (inLoopThread : Bool)
    (savedErrno : ConnectErrno) (hk : Calm t (.connect inLoopThread savedErrno)) :
    Succeeds (t.connect inLoopThread savedErrno) := by
  obtain ⟨hs, hno, hvacant⟩ := hk
  have hw := h.aside true t.connector.retryDelayMs (Nat.le_refl _)
  cases inLoopThread with
  | true =>
    obtain ⟨c, hok, hst⟩ := Connector.startInLoop_ok (c := { t.connector with connect_ := true })
      hs (fun _ => hvacant rfl) savedErrno
    have hu := hw.starts hs (ho.no_connection (by simp [hs])) hno hst
    refine ⟨_, by simp only [TcpClient.connect, Connector.start, if_true, hok]; rfl, ?_⟩
    exact ⟨hu.single, hu.start, hu.close, hu.fresh, hu.polled, hu.active, hu.closers, hu.owner⟩
  | false =>
    have hu := hw.push (f := .startInLoop) (by simp) (fun _ => ⟨hno, hs⟩) (by simp)
    refine ⟨_, rfl, ?_⟩
    exact ⟨hu.single, hu.start, hu.close, hu.fresh, hu.polled, hu.active, hu.closers, hu.owner⟩

/-- A retry timer is the only start in motion when it fires. -/
theorem timerFires_succeeds (ho : Owned t) (h : Orderly t) {delay : Nat}
    (hmem : delay ∈ t.connector.timers) (savedErrno : ConnectErrno)
    (hk : Calm t (.timerFires delay savedErrno)) :
    Succeeds (step t (.timerFires delay savedErrno)) := by
  have hsingle := h.single
  have hlen := List.length_erase_of_mem hmem
  have hpos := List.length_pos_of_mem hmem
  have hs : t.connector.state = .kDisconnected := by
    by_contra hx
    rw [if_neg hx] at hsingle
    omega
  have hle : (t.connector.timers.erase delay).length ≤ t.connector.timers.length := by omega
  have hw := h.aside t.connector.connect_ t.connector.retryDelayMs hle
  have hno : NoStart { t with connector := { t.connector with
      timers := t.connector.timers.erase delay } } :=
    ⟨List.eq_nil_of_length_eq_zero (by dsimp only; omega), List.count_eq_zero.mp (by
      change t.queue.count .startInLoop = 0
      omega)⟩
  obtain ⟨c, hok, hst⟩ := Connector.startInLoop_ok (c := { t.connector with
    timers := t.connector.timers.erase delay }) hs hk savedErrno
  refine ⟨_, by simp only [step, hok]; rfl, ?_⟩
  exact hw.starts hs (ho.no_connection (by simp [hs])) hno hst

theorem poll_orderly (ho : Owned t) (h : Orderly t) (hdisp : t.dispatching = false)
    (hfs : t.functors = []) : Orderly t.poll where
  single := h.single
  start := h.start
  close := h.close
  fresh := fun _ hd => Bool.noConfusion hd
  polled := by
    intro hc _
    have hf := h.fresh hc hdisp
    change .resetChannel ∉ t.functors ++ t.connector.pendingFunctors
    rwa [hfs]
  active := by
    intro hc
    have hs : t.connector.state = .kConnecting := by
      by_contra hx
      exact hc (Connector.connectingOn_eq_none hx)
    exact ⟨rfl, hs, ho.no_connection (by simp [hs])⟩
  closers := h.closers
  owner := h.owner

theorem doPendingFunctors_orderly (ho : Owned t) (h : Orderly t) (hdisp : t.dispatching = true) :
    Orderly t.doPendingFunctors := by
  have hq : t.doPendingFunctors.queue = t.queue := by
    change t.connector.pendingFunctors ++ [] = t.functors ++ t.connector.pendingFunctors
    rw [ho.batch hdisp, List.append_nil, List.nil_append]
  constructor
  case single => rw [hq]; exact h.single
  case start => rw [hq]; exact h.start
  case close => rw [hq]; exact h.close
  case fresh => exact fun _ _ => List.not_mem_nil
  case polled => exact fun hc ha => absurd ha.symm hc
  case active => exact fun hc => absurd rfl hc
  case closers => rw [hq]; exact h.closers
  case owner => exact h.owner

theorem step_succeeds {a : Step} (ho : Owned t) (h : Orderly t) (he : enabled t a)
    (hk : Calm t a) : Succeeds (step t a) := by
  cases a with
  | enableRetry | disconnect =>
    exact ⟨_, rfl, h.single, h.start, h.close, h.fresh, h.polled, h.active, h.closers, h.owner⟩
  | connect inLoopThread savedErrno => exact connect_succeeds ho h inLoopThread savedErrno hk
  | stop =>
    have hu := (h.aside false t.connector.retryDelayMs (Nat.le_refl _)).push (f := .stopInLoop)
      (by simp) (by simp) (by simp)
    exact ⟨_, rfl, hu.single, hu.start, hu.close, hu.fresh, hu.polled, hu.active, hu.closers,
      hu.owner⟩
  | forceClose =>
    simp only [step]
    split
    · exact ⟨_, rfl, h⟩
    · next conn hconn =>
      refine ⟨_, rfl, h.push (by simp) (by simp) fun k hk => ?_⟩
      cases hk
      exact h.owner conn hconn
  | poll => exact ⟨_, rfl, poll_orderly ho h he.1 he.2⟩
  | handleEvent error writable err isSelfConnect =>
    exact handleEvent_succeeds ho h he.2 error writable err isSelfConnect
  | connectionCloses savedErrno =>
    obtain ⟨_, hconn, hactive⟩ := he
    simp only [step]
    split
    · exact ⟨_, rfl, h⟩
    · next conn hc => exact removeConnection_succeeds ho h hc (h.polled hconn hactive) savedErrno
  | timerFires delay savedErrno => exact timerFires_succeeds ho h he.2 savedErrno hk
  | doPendingFunctors => exact ⟨_, rfl, doPendingFunctors_orderly ho h he⟩
  | callFunctor savedErrno =>
    simp only [step]
    split
    · exact ⟨_, rfl, h⟩
    · next f fs hfs => exact callFunctor_succeeds ho h he.1 hfs savedErrno

/-- With calm callers and timers no assertion fails: the next step succeeds, whatever it is.
So at most one attempt is in flight, and a queued `resetChannel` finds a channel that was
removed. -/
theorem starts_succeed (steps : List Step) (t : TcpClient) (h : machine.Run .new steps t)
    (hk : machine.EveryStep .new steps Calm) :
    (∀ a, machine.enabled t a → Calm t a → ∃ u, machine.step t a = .ok u) ∧
    (∀ fd fd', t.connector.InFlight fd → t.connector.InFlight fd' → fd = fd') ∧
    (.resetChannel ∈ t.queue → t.connector.connectingOn = none ∧
      ∃ ch, t.connector.channel = some ch ∧ ch.channel.addedToLoop = false) := by
  have keep : ∀ t a u, Owned t ∧ Orderly t → machine.enabled t a → Calm t a →
      machine.step t a = .ok u → Owned u ∧ Orderly u := by
    rintro t a u ⟨ho, h⟩ he hk hok
    obtain ⟨u', hok', hu⟩ := step_succeeds ho h he hk
    obtain rfl : u' = u := Except.ok.inj (hok'.symm.trans hok)
    exact ⟨step_owned t a u' ho he hok, hu⟩
  obtain ⟨ho, hord⟩ := h.invariant_of_everyStep keep hk ⟨new_owned, new_orderly⟩
  refine ⟨fun a he hk => ?_, fun fd fd' hfd hfd' => ?_, fun hq => ?_⟩
  · obtain ⟨u, hok, _⟩ := step_succeeds ho hord he hk
    exact ⟨u, hok⟩
  · exact Option.some.inj ((ho.accounted.inFlight hfd).symm.trans (ho.accounted.inFlight hfd'))
  · obtain ⟨hs, hch⟩ := ho.detached hq
    exact ⟨Connector.connectingOn_eq_none hs, hch⟩

/-- A refused attempt whose retry finds the channel gone. -/
theorem starts_succeed_sample : ∃ t : TcpClient,
    machine.Run .new [.connect true .EINPROGRESS, .poll, .handleEvent false true 111 false,
      .doPendingFunctors, .callFunctor .success, .poll] t ∧
    t.connector.timers = [500] ∧
    ∃ u, machine.step t (.timerFires 500 .EINPROGRESS) = .ok u := by
  have hr : (machine.restrict Calm).Run .new [.connect true .EINPROGRESS, .poll,
      .handleEvent false true 111 false, .doPendingFunctors, .callFunctor .success, .poll] _ :=
    Machine.run_of_exec rfl
  obtain ⟨hr, hk⟩ := Machine.run_restrict.mp hr
  exact ⟨_, hr, rfl, (starts_succeed _ _ hr hk).1 _ (by decide) (by decide)⟩

/-- A client whose connection was closed connects again; a client is stopped and connects
again before the loop has run `stopInLoop`; and the retry timer of a stopped and restarted
attempt fires in a loop that is late. -/
theorem restless_start_fails :
    (∃ t : TcpClient, machine.Run .new [.connect true .success, .poll,
        .handleEvent false true 0 false, .doPendingFunctors, .callFunctor .success, .poll,
        .connectionCloses .success] t ∧
      machine.step t (.connect true .success) = .error .assertion) ∧
    (∃ t : TcpClient, machine.Run .new [.connect true .EINPROGRESS, .poll, .stop,
        .connect false .success, .doPendingFunctors, .callFunctor .success] t ∧
      machine.step t (.callFunctor .success) = .error .assertion) ∧
    ∃ t : TcpClient, machine.Run .new [.stop, .connect true .EINPROGRESS, .poll,
        .doPendingFunctors, .callFunctor .success, .poll] t ∧
      machine.step t (.timerFires 500 .success) = .error .assertion :=
  ⟨⟨_, Machine.run_of_exec rfl, rfl⟩, ⟨_, Machine.run_of_exec rfl, rfl⟩,
    ⟨_, Machine.run_of_exec rfl, rfl⟩⟩

end TcpClient
end Muduo.Net
