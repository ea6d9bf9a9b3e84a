import Mathlib.Data.List.Count
import Muduo.Net.TcpClient

/-! Where the sockets of a connector are: under way, closed or handed over. -/
namespace Muduo.Net
open Muduo.Support
namespace Connector

/-- What `startInLoop` does. -/
inductive Start (c c' : Connector) : Prop where
  | declines (hwant : c.connect_ = false) (he : c' = c)
  | opens (hwant : c.connect_ = true) (hc : c.channel = none)
      (he : c' = { c with
        state := .kConnecting
        channel := some ⟨c.created, Channel.new.enableWriting⟩
        created := c.created + 1 })
  | fails (ts : List Nat) (d : Nat) (hwant : c.connect_ = true) (hts : ts.length ≤ 1)
      (he : c' = { c with
        created := c.created + 1
        closed := c.closed ++ [c.created]
        timers := c.timers ++ ts
        retryDelayMs := d })

/-- How an attempt on the channel `ch` ends: without a connection, or with one that is
handed over or, for want of `connect_`, closed. -/
inductive End (c : Connector) (ch : SocketChannel) (c' : Connector) : Prop where
  | abandons (ch' : Channel) (ts : List Nat) (d : Nat) (hch : ch'.addedToLoop = false)
      (hts : ts.length ≤ 1)
      (he : c' = { c with
        state := .kDisconnected
        channel := some ⟨ch.fd, ch'⟩
        pendingFunctors := c.pendingFunctors ++ [.resetChannel]
        closed := c.closed ++ [ch.fd]
        timers := c.timers ++ ts
        retryDelayMs := d })
  | establishes (ch' : Channel) (fds gds : List Nat) (hch : ch'.addedToLoop = false)
      (hfds : fds ++ gds = [ch.fd]) (hwant : fds ≠ [] → c.connect_ = true)
      (he : c' = { c with
        state := .kConnected
        channel := some ⟨ch.fd, ch'⟩
        pendingFunctors := c.pendingFunctors ++ [.resetChannel]
        handed := c.handed ++ fds
        closed := c.closed ++ gds })

/-- What a call of the connector may do to it, short of `start`, `stop` and `restart`, which
also set `connect_`. -/
inductive Change (c c' : Connector) : Prop where
  | quiet (fs : List ClientFunctor) (hf : .resetChannel ∉ fs)
      (he : c' = { c with pendingFunctors := c.pendingFunctors ++ fs })
  | start (hs : c.state = .kDisconnected) (h : Start c c')
  | ends (ch : SocketChannel) (hs : c.state = .kConnecting) (hc : c.channel = some ch)
      (h : End c ch c')

variable {c c' : Connector}

theorem Change.refl (c : Connector) : Change c c :=
  .quiet [] List.not_mem_nil (by rw [List.append_nil])

/-- Whether a given-up attempt is tried again is up to `connect_`. -/
theorem retry_eq (c : Connector) (sockfd : Nat) : ∃ ts d, ts.length ≤ 1 ∧
    c.retry sockfd = { c with
      state := .kDisconnected
      closed := c.closed ++ [sockfd]
      timers := c.timers ++ ts
      retryDelayMs := d } := by
  unfold retry
  dsimp only
  split
  · exact ⟨[c.retryDelayMs], _, Nat.le_refl 1, rfl⟩
  · exact ⟨[], c.retryDelayMs, Nat.zero_le 1, by rw [List.append_nil]; rfl⟩

theorem removeAndResetChannel_eq {ch : SocketChannel} (hc : c.channel = some ch) :
    ∃ ch' : Channel, ch'.addedToLoop = false ∧ c.removeAndResetChannel = .ok ({ c with
      channel := some ⟨ch.fd, ch'⟩
      pendingFunctors := c.pendingFunctors ++ [.resetChannel] }, ch.fd) := by
  refine ⟨{ ch.channel.disableAll with addedToLoop := false }, rfl, ?_⟩
  simp only [removeAndResetChannel, hc]
  rfl

theorem startInLoop_start {savedErrno : ConnectErrno} (hok : c.startInLoop savedErrno = .ok c') :
    c.state = .kDisconnected ∧ Start c c' := by
  obtain ⟨hs, hok⟩ := assert_bind_ok.mp hok
  refine ⟨hs, ?_⟩
  split at hok
  · next hwant =>
    have again : { c with created := c.created + 1 }.retry c.created = c' → Start c c' := by
      rintro rfl
      obtain ⟨ts, d, hts, he⟩ := retry_eq { c with created := c.created + 1 } c.created
      exact .fails ts d hwant hts (by rw [he, hs])
    have given : { c with created := c.created + 1 }.close c.created = c' → Start c c' := by
      rintro rfl
      exact .fails [] c.retryDelayMs hwant (Nat.zero_le 1) (by rw [List.append_nil]; rfl)
    have underway : { c with created := c.created + 1 }.connecting c.created = .ok c' →
        Start c c' := by
      intro hok
      obtain ⟨hc, hok⟩ := assert_bind_ok.mp hok
      cases hok
      exact .opens hwant hc rfl
    unfold connect at hok
    dsimp only at hok
    split at hok
    case h_1 | h_2 | h_3 | h_4 => exact underway hok
    case h_5 | h_6 | h_7 | h_8 | h_9 => exact again (Except.ok.inj hok)
    all_goals exact given (Except.ok.inj hok)
  · next hwant =>
    cases hok
    exact .declines (by simpa using hwant) rfl

theorem startInLoop_change {savedErrno : ConnectErrno} (hok : c.startInLoop savedErrno = .ok c') :
    Change c c' := by
  obtain ⟨hs, h⟩ := startInLoop_start hok
  exact .start hs h

/-- An attempt that ends without a connection. -/
theorem abandon_end (c : Connector) (ch : SocketChannel) {ch' : Channel}
    (hch : ch'.addedToLoop = false) {c' : Connector} (hc' : c' = ({ c with
      channel := some ⟨ch.fd, ch'⟩
      pendingFunctors := c.pendingFunctors ++ [.resetChannel] } : Connector).retry ch.fd) :
    End c ch c' ∧ c'.state = .kDisconnected := by
  obtain ⟨ts, d, hts, he⟩ := retry_eq { c with
    channel := some ⟨ch.fd, ch'⟩
    pendingFunctors := c.pendingFunctors ++ [ClientFunctor.resetChannel] } ch.fd
  rw [he] at hc'
  exact ⟨.abandons ch' ts d hch hts hc', by rw [hc']⟩

theorem stopInLoop_end (hs : c.state = .kConnecting) {ch : SocketChannel}
    (hc : c.channel = some ch) : ∃ c', c.stopInLoop = .ok c' ∧ End c ch c' := by
  have hc' : (c.setState .kDisconnected).channel = some ch := hc
  obtain ⟨ch', hch, he⟩ := removeAndResetChannel_eq hc'
  -- `retry` sets the state again, so that `stopInLoop` has set it before makes no difference
  refine ⟨_, ?_, (abandon_end c ch hch rfl).1⟩
  rw [stopInLoop, if_pos hs, he]
  rfl

theorem handleError_end (hs : c.state = .kConnecting) {ch : SocketChannel}
    (hc : c.channel = some ch) :
    ∃ c', c.handleError = .ok c' ∧ End c ch c' ∧ c'.state = .kDisconnected := by
  obtain ⟨ch', hch, he⟩ := removeAndResetChannel_eq hc
  refine ⟨_, ?_, abandon_end c ch hch rfl⟩
  rw [handleError, if_pos hs, he]
  rfl

/-- A socket is handed over only when it is connected. -/
theorem handleWrite_end (hs : c.state = .kConnecting) {ch : SocketChannel}
    (hc : c.channel = some ch) (err : Nat) (isSelfConnect : Bool) :
    ∃ c' sockfd, c.handleWrite err isSelfConnect = .ok (c', sockfd) ∧ End c ch c' ∧
      (sockfd = none ∨ sockfd = some ch.fd ∧ c'.state = .kConnected ∧
        c'.handed = c.handed ++ [ch.fd]) := by
  obtain ⟨ch', hch, he⟩ := removeAndResetChannel_eq hc
  unfold handleWrite
  rw [if_pos hs, he, ok_bind]
  dsimp only
  split
  · exact ⟨_, none, rfl, (abandon_end c ch hch rfl).1, .inl rfl⟩
  split
  · exact ⟨_, none, rfl, (abandon_end c ch hch rfl).1, .inl rfl⟩
  split
  · next hwant =>
    refine ⟨_, some ch.fd, rfl, ?_, .inr ⟨rfl, rfl, rfl⟩⟩
    exact .establishes ch' [ch.fd] [] hch rfl (fun _ => hwant) (by rw [List.append_nil]; rfl)
  · refine ⟨_, none, rfl, ?_, .inl rfl⟩
    exact .establishes ch' [] [ch.fd] hch rfl (fun hx => absurd rfl hx)
      (by rw [List.append_nil]; rfl)

/-- Without an attempt under way the handlers and `stopInLoop` do nothing. -/
theorem stopInLoop_idle (hs : c.state ≠ .kConnecting) : c.stopInLoop = .ok c := by
  rw [stopInLoop, if_neg hs]
  rfl

theorem handleError_idle (hs : c.state ≠ .kConnecting) : c.handleError = .ok c := by
  rw [handleError, if_neg hs]
  rfl

theorem handleWrite_idle (hs : c.state = .kDisconnected) (err : Nat) (isSelfConnect : Bool) :
    c.handleWrite err isSelfConnect = .ok (c, none) := by
  rw [handleWrite, if_neg (by simp [hs]), assert_true hs]
  rfl

theorem stopInLoop_change (hok : c.stopInLoop = .ok c') : Change c c' := by
  by_cases hs : c.state = .kConnecting
  · cases hc : c.channel with
    | none =>
      have hc' : (c.setState .kDisconnected).channel = none := hc
      simp only [stopInLoop, if_pos hs, removeAndResetChannel, hc'] at hok
      cases hok
    | some ch =>
      obtain ⟨d, hd, he⟩ := stopInLoop_end hs hc
      rw [hd] at hok
      cases hok
      exact .ends ch hs hc he
  · rw [stopInLoop_idle hs] at hok
    cases hok
    exact .refl c

theorem handleError_change (hok : c.handleError = .ok c') : Change c c' := by
  by_cases hs : c.state = .kConnecting
  · cases hc : c.channel with
    | none =>
      simp only [handleError, if_pos hs, removeAndResetChannel, hc] at hok
      cases hok
    | some ch =>
      obtain ⟨d, hd, he, _⟩ := handleError_end hs hc
      rw [hd] at hok
      cases hok
      exact .ends ch hs hc he
  · rw [handleError_idle hs] at hok
    cases hok
    exact .refl c

theorem handleWrite_change {err : Nat} {isSelfConnect : Bool} {sockfd : Option Nat}
    (hok : c.handleWrite err isSelfConnect = .ok (c', sockfd)) :
    Change c c' ∧ (sockfd ≠ none → c'.state = .kConnected) := by
  by_cases hs : c.state = .kConnecting
  · cases hc : c.channel with
    | none =>
      simp only [handleWrite, if_pos hs, removeAndResetChannel, hc] at hok
      cases hok
    | some ch =>
      obtain ⟨d, fd, hd, he, hfd⟩ := handleWrite_end hs hc err isSelfConnect
      rw [hd] at hok
      cases hok
      refine ⟨.ends ch hs hc he, fun hx => ?_⟩
      rcases hfd with hfd | ⟨_, hstate, _⟩
      · exact absurd hfd hx
      · exact hstate
  · rw [handleWrite, if_neg hs] at hok
    obtain ⟨_, hok⟩ := assert_bind_ok.mp hok
    cases hok
    exact ⟨.refl c, fun hx => absurd rfl hx⟩

theorem resetChannel_eq (hok : c.resetChannel = .ok c') :
    c' = { c with channel := none } ∧ ∀ ch, c.channel = some ch → ch.channel.addedToLoop = false := by
  unfold resetChannel at hok
  split at hok
  · next hc =>
    cases hok
    refine ⟨by rw [← hc], fun ch hx => ?_⟩
    rw [hc] at hx
    cases hx
  · next ch hc =>
    obtain ⟨ha, hok⟩ := assert_bind_ok.mp hok
    cases hok
    refine ⟨rfl, fun ch' hx => ?_⟩
    rw [hc] at hx
    cases hx
    exact ha

/-- `Channel::handleEvent` calls at most two handlers. -/
theorem handleEvent_change {error writable : Bool} {err : Nat} {isSelfConnect : Bool}
    {sockfd : Option Nat}
    (hok : c.handleEvent error writable err isSelfConnect = .ok (c', sockfd)) :
    ∃ d, Change c d ∧ Change d c' ∧ (sockfd ≠ none → c'.state = .kConnected) := by
  have written (d : Connector)
      (hok : (if writable then d.handleWrite err isSelfConnect else pure (d, none)) =
        .ok (c', sockfd)) : Change d c' ∧ (sockfd ≠ none → c'.state = .kConnected) := by
    split at hok
    · exact handleWrite_change hok
    · cases hok
      exact ⟨.refl c', fun hx => absurd rfl hx⟩
  unfold handleEvent at hok
  dsimp only at hok
  split at hok
  · obtain ⟨d, hd, hok⟩ := bind_ok.mp hok
    exact ⟨d, handleError_change hd, written d hok⟩
  · exact ⟨c, .refl c, written c hok⟩

/-- A connector that was stopped creates no socket and hands none over. -/
theorem Change.stopped (h : Change c c') (hc : c.connect_ = false) :
    c'.connect_ = false ∧ c'.created = c.created ∧ c'.handed = c.handed := by
  have no {p : Prop} (hwant : c.connect_ = true) : p := by
    rw [hc] at hwant
    cases hwant
  cases h with
  | quiet fs hf he =>
    rw [he]
    exact ⟨hc, rfl, rfl⟩
  | start hs h =>
    cases h with
    | declines hwant he =>
      rw [he]
      exact ⟨hc, rfl, rfl⟩
    | opens hwant hch he => exact no hwant
    | fails ts d hwant hts he => exact no hwant
  | ends ch hs hch h =>
    cases h with
    | abandons ch' ts d hch hts he =>
      rw [he]
      exact ⟨hc, rfl, rfl⟩
    | establishes ch' fds gds hch hfds hwant he =>
      cases fds with
      | nil =>
        rw [he]
        exact ⟨hc, rfl, List.append_nil _⟩
      | cons fd fds => exact no (hwant (List.cons_ne_nil fd fds))

/-- The channel is that of the attempt under way, or one whose `resetChannel` is queued, or
there is none. -/
def Tidy (q : List ClientFunctor) (c : Connector) : Prop :=
  match c.channel with
  | none => c.state ≠ .kConnecting ∧ q.count .resetChannel = 0
  | some ch => c.state = .kConnecting ∧ c.connectingOn = some ch.fd ∧ q.count .resetChannel = 0 ∨
      c.state ≠ .kConnecting ∧ ch.channel.addedToLoop = false ∧ q.count .resetChannel = 1

/-- In how many places the socket is: under way, closed or handed over. -/
def places (c : Connector) (fd : Nat) : Nat :=
  (if c.connectingOn = some fd then 1 else 0) + c.closed.count fd + c.handed.count fd

/-- Every socket that was created is in one place. -/
def Accounted (c : Connector) : Prop := ∀ fd, c.places fd = if fd < c.created then 1 else 0

theorem connectingOn_eq_none (hs : c.state ≠ .kConnecting) : c.connectingOn = none := by
  unfold connectingOn
  split
  · rw [if_neg fun hx => hs hx.1]
  · rfl

theorem Tidy.connecting {q : List ClientFunctor} (h : Tidy q c) (hs : c.state = .kConnecting)
    {ch : SocketChannel} (hc : c.channel = some ch) :
    c.connectingOn = some ch.fd ∧ q.count .resetChannel = 0 := by
  simp only [Tidy, hc, hs] at h
  simpa using h

theorem Tidy.detached {q : List ClientFunctor} (h : Tidy q c) {ch : SocketChannel}
    (hc : c.channel = some ch) (ha : ch.channel.addedToLoop = false) :
    c.state ≠ .kConnecting ∧ q.count .resetChannel = 1 := by
  simp only [Tidy, hc] at h
  rcases h with ⟨_, hon, _⟩ | ⟨hs, _, hq⟩
  · simp [connectingOn, hc, ha] at hon
  · exact ⟨hs, hq⟩

theorem Tidy.vacant {q : List ClientFunctor} (h : Tidy q c) (hc : c.channel = none) :
    q.count .resetChannel = 0 := by
  simp only [Tidy, hc] at h
  exact h.2

theorem tidy_detached {q : List ClientFunctor} {ch : SocketChannel} (hs : c.state ≠ .kConnecting)
    (hc : c.channel = some ch) (ha : ch.channel.addedToLoop = false)
    (hq : q.count .resetChannel = 1) : Tidy q c := by
  simp only [Tidy, hc]
  exact .inr ⟨hs, ha, hq⟩

/-- `b` is what was swapped out of the queue before the call. -/
theorem Change.tidy {b : List ClientFunctor} (h : Tidy (b ++ c.pendingFunctors) c)
    (hch : Change c c') : Tidy (b ++ c'.pendingFunctors) c' := by
  cases hch with
  | quiet fs hf he =>
    have hq : (b ++ c'.pendingFunctors).count .resetChannel =
        (b ++ c.pendingFunctors).count .resetChannel := by
      rw [he, ← List.append_assoc, List.count_append, List.count_eq_zero.mpr hf, Nat.add_zero]
    unfold Tidy at h ⊢
    rw [hq, he]
    exact h
  | start hs hst =>
    cases hst with
    | declines hwant he => exact he ▸ h
    | opens hwant hc he =>
      have hq := h.vacant hc
      rw [he]
      exact .inl ⟨rfl, rfl, hq⟩
    | fails ts d hwant hts he =>
      rw [he]
      unfold Tidy at h ⊢
      dsimp only
      split at h
      · exact ⟨by simp [hs], h.2⟩
      · rcases h with ⟨hx, _⟩ | h
        · rw [hs] at hx
          cases hx
        · exact .inr h
  | ends ch hs hc hend =>
    have hq := (h.connecting hs hc).2
    cases hend with
    | abandons ch' ts d hch hts he =>
      rw [he]
      refine tidy_detached (by simp) rfl hch ?_
      rw [← List.append_assoc, List.count_append, hq]
      rfl
    | establishes ch' fds gds hch hfds hwant he =>
      rw [he]
      refine tidy_detached (by simp) rfl hch ?_
      rw [← List.append_assoc, List.count_append, hq]
      rfl

/-- The socket of an attempt that ends goes to exactly one other place. -/
theorem Accounted.ends {fd : Nat} {fds gds : List Nat} (h : Accounted c)
    (hon : c.connectingOn = some fd) (hon' : c'.connectingOn = none) (hl : fds ++ gds = [fd])
    (hhanded : c'.handed = c.handed ++ fds) (hclosed : c'.closed = c.closed ++ gds)
    (hcreated : c'.created = c.created) : Accounted c' := by
  intro k
  have hk := h k
  have hcount : (fds ++ gds).count k = if fd = k then 1 else 0 := by
    rw [hl, List.count_singleton]
    simp
  rw [List.count_append] at hcount
  simp only [places, hon, hon', hhanded, hclosed, hcreated, List.count_append,
    Option.some.injEq, reduceCtorEq, if_false] at hk ⊢
  omega

theorem Change.accounted {q : List ClientFunctor} (ht : Tidy q c) (h : Accounted c)
    (hch : Change c c') : Accounted c' := by
  cases hch with
  | quiet fs hf he =>
    rw [he]
    exact h
  | start hs hst =>
    have hno := connectingOn_eq_none (c := c) (by simp [hs])
    cases hst with
    | declines hwant he => exact he ▸ h
    | opens hwant hc he =>
      intro k
      have hk := h k
      have hon : c'.connectingOn = some c.created := by rw [he]; rfl
      simp only [places, hno, hon, Option.some.injEq, reduceCtorEq, if_false] at hk ⊢
      rw [he]
      dsimp only
      split <;> split at hk <;> split <;> omega
    | fails ts d hwant hts he =>
      intro k
      have hk := h k
      have hno' := connectingOn_eq_none (c := c') (by simp [he, hs])
      simp only [places, hno, hno', reduceCtorEq, if_false] at hk ⊢
      rw [he]
      simp only [List.count_append, List.count_singleton, beq_iff_eq]
      split <;> split at hk <;> split <;> omega
  | ends ch hs hc hend =>
    have hon := (ht.connecting hs hc).1
    cases hend with
    | abandons ch' ts d hch hts he =>
      have hon' := connectingOn_eq_none (c := c') (by simp [he])
      exact h.ends hon hon' (List.nil_append [ch.fd]) (by rw [he, List.append_nil])
        (by rw [he]) (by rw [he])
    | establishes ch' fds gds hch hfds hwant he =>
      have hon' := connectingOn_eq_none (c := c') (by simp [he])
      exact h.ends hon hon' hfds (by rw [he]) (by rw [he]) (by rw [he])

theorem Change.connected (h : Change c c') (hs : c.state = .kConnected) :
    c'.state = .kConnected := by
  cases h with
  | quiet fs hf he =>
    rw [he]
    exact hs
  | start hs' h =>
    rw [hs] at hs'
    cases hs'
  | ends ch hs' hc h =>
    rw [hs] at hs'
    cases hs'

theorem queueInLoop_change {f : ClientFunctor} (hf : f ≠ .resetChannel) :
    Change c (c.queueInLoop f) :=
  .quiet [f] (fun hx => hf (List.mem_singleton.mp hx).symm) rfl

theorem start_change {inLoopThread : Bool} {savedErrno : ConnectErrno}
    (hok : c.start inLoopThread savedErrno = .ok c') : Change { c with connect_ := true } c' := by
  unfold start at hok
  dsimp only at hok
  split at hok
  · exact startInLoop_change hok
  · cases hok
    exact queueInLoop_change (by simp)

end Connector

namespace TcpClient

/-- What holds however the client is used, until an assertion fails. -/
structure Owned (t : TcpClient) : Prop where
  tidy : Connector.Tidy (t.functors ++ t.connector.pendingFunctors) t.connector
  accounted : t.connector.Accounted
  connected : t.connection ≠ none → t.connector.state = .kConnected
  batch : t.dispatching = true → t.functors = []

variable {t u : TcpClient}

theorem new_owned : Owned .new where
  tidy := ⟨by simp [new, Connector.new], rfl⟩
  accounted := fun _ => rfl
  connected := fun h => absurd rfl h
  batch := fun _ => rfl

/-- A call of the connector that leaves the connection as it is. -/
theorem Owned.change {c : Connector} (h : Owned t) (hch : Connector.Change t.connector c) :
    Owned { t with connector := c } where
  tidy := hch.tidy h.tidy
  accounted := hch.accounted h.tidy h.accounted
  connected := fun hx => hch.connected (h.connected hx)
  batch := h.batch

/-- Fields of the connector that say nothing about its sockets. -/
theorem Owned.aside (wants : Bool) (timers : List Nat) (delay : Nat) (h : Owned t) :
    Owned { t with connector := { t.connector with
      connect_ := wants, timers := timers, retryDelayMs := delay } } :=
  ⟨h.tidy, h.accounted, h.connected, h.batch⟩

theorem Owned.called {f : ClientFunctor} {fs : List ClientFunctor} (h : Owned t)
    (hfs : t.functors = f :: fs) (hf : f ≠ .resetChannel) : Owned { t with functors := fs } where
  tidy := by
    have ht := h.tidy
    have hq : (f :: fs ++ t.connector.pendingFunctors).count .resetChannel =
        (fs ++ t.connector.pendingFunctors).count .resetChannel := by
      rw [List.cons_append, List.count_cons_of_ne hf]
    unfold Connector.Tidy at ht ⊢
    rwa [hfs, hq] at ht
  accounted := h.accounted
  connected := h.connected
  batch := fun hx => by
    have hb := h.batch hx
    rw [hfs] at hb
    cases hb

theorem resetChannel_owned {fs : List ClientFunctor} {c : Connector} (h : Owned t)
    (hfs : t.functors = .resetChannel :: fs) (hok : t.connector.resetChannel = .ok c) :
    Owned { t with functors := fs, connector := c } := by
  obtain ⟨he, ha⟩ := Connector.resetChannel_eq hok
  have ht := h.tidy
  rw [hfs, List.cons_append] at ht
  cases hc : t.connector.channel with
  | none =>
    have hz := ht.vacant hc
    rw [List.count_cons_self] at hz
    omega
  | some ch =>
    obtain ⟨hs, hq⟩ := ht.detached hc (ha ch hc)
    rw [List.count_cons_self] at hq
    have hon := Connector.connectingOn_eq_none hs
    have hon' : c.connectingOn = none := by rw [he]; rfl
    refine ⟨?_, ?_, ?_, ?_⟩
    · rw [he]
      exact ⟨hs, Nat.succ.inj hq⟩
    · intro fd
      have hfd := h.accounted fd
      rw [Connector.places, hon] at hfd
      rw [Connector.places, hon', he]
      exact hfd
    · rw [he]
      exact h.connected
    · intro hx
      have hb := h.batch hx
      rw [hfs] at hb
      cases hb

/-- `restart()` first puts a connector without an attempt back to its start. -/
theorem Owned.restarting {delay : Nat} {wants : Bool} (h : Owned t) (hconn : t.connection = none)
    (hs : t.connector.state ≠ .kConnecting) :
    Owned { t with connector := { t.connector.setState .kDisconnected with
      retryDelayMs := delay, connect_ := wants } } where
  tidy := by
    have ht := h.tidy
    simp only [Connector.Tidy, Connector.setState] at ht ⊢
    split at ht
    · exact ⟨by simp, ht.2⟩
    · rcases ht with ⟨hx, _⟩ | ht
      · exact absurd hx hs
      · exact .inr ⟨by simp, ht.2⟩
  accounted := by
    intro fd
    have hfd := h.accounted fd
    rw [Connector.places, Connector.connectingOn_eq_none hs] at hfd
    rw [Connector.places, Connector.connectingOn_eq_none (by simp [Connector.setState])]
    exact hfd
  connected := fun hx => absurd hconn hx
  batch := h.batch

/-- After the connection is gone the connector may start over. -/
theorem removeConnection_owned {conn : Nat} {savedErrno : ConnectErrno} (h : Owned t)
    (hok : t.removeConnection conn savedErrno = .ok u) : Owned u := by
  obtain ⟨hconn, hok⟩ := assert_bind_ok.mp hok
  have hs : t.connector.state = .kConnected := h.connected (by simp [hconn])
  have hch : Connector.Change t.connector (t.connector.queueInLoop (.connectDestroyed conn)) :=
    Connector.queueInLoop_change (by simp)
  have hgone : Owned { t with
      connection := none
      connector := t.connector.queueInLoop (.connectDestroyed conn) } :=
    ⟨hch.tidy h.tidy, hch.accounted h.tidy h.accounted, fun hx => absurd rfl hx, h.batch⟩
  dsimp only at hok
  split at hok
  · obtain ⟨c, hc, hok⟩ := bind_ok.mp hok
    cases hok
    have hs' : (t.connector.queueInLoop (.connectDestroyed conn)).state ≠ .kConnecting := by
      simp [Connector.queueInLoop, hs]
    exact (hgone.restarting rfl hs').change (Connector.startInLoop_change hc)
  · cases hok
    exact hgone

theorem callFunctor_owned {f : ClientFunctor} {fs : List ClientFunctor}
    {savedErrno : ConnectErrno} (h : Owned t) (hfs : t.functors = f :: fs)
    (hok : { t with functors := fs }.callFunctor savedErrno f = .ok u) : Owned u := by
  cases f with
  | startInLoop =>
    obtain ⟨c, hc, hok⟩ := bind_ok.mp hok
    cases hok
    exact (h.called hfs (by simp)).change (Connector.startInLoop_change hc)
  | stopInLoop =>
    obtain ⟨c, hc, hok⟩ := bind_ok.mp hok
    cases hok
    exact (h.called hfs (by simp)).change (Connector.stopInLoop_change hc)
  | resetChannel =>
    obtain ⟨c, hc, hok⟩ := bind_ok.mp hok
    cases hok
    have ht := resetChannel_owned h hfs hc
    exact ⟨ht.tidy, ht.accounted, ht.connected, ht.batch⟩
  | forceCloseInLoop conn =>
    simp only [callFunctor] at hok
    split at hok
    · exact removeConnection_owned (h.called hfs (by simp)) hok
    · cases hok
      exact h.called hfs (by simp)
  | connectDestroyed conn =>
    cases hok
    exact h.called hfs (by simp)

theorem step_owned (t : TcpClient) (a : Step) (u : TcpClient) (h : Owned t)
    (he : machine.enabled t a) (hok : machine.step t a = .ok u) : Owned u := by
  cases a with
  | enableRetry | disconnect =>
    cases hok
    exact ⟨h.tidy, h.accounted, h.connected, h.batch⟩
  | connect inLoopThread savedErrno =>
    obtain ⟨c, hc, hok⟩ := bind_ok.mp hok
    cases hok
    have ht := (h.aside true t.connector.timers t.connector.retryDelayMs).change
      (Connector.start_change hc)
    exact ⟨ht.tidy, ht.accounted, ht.connected, ht.batch⟩
  | stop =>
    cases hok
    have ht := (h.aside false t.connector.timers t.connector.retryDelayMs).change
      (Connector.queueInLoop_change (f := .stopInLoop) (by simp))
    exact ⟨ht.tidy, ht.accounted, ht.connected, ht.batch⟩
  | forceClose =>
    simp only [machine, step] at hok
    split at hok <;> cases hok
    · exact h
    · exact h.change (Connector.queueInLoop_change (by simp))
  | poll =>
    cases hok
    exact ⟨h.tidy, h.accounted, h.connected, fun _ => he.2⟩
  | handleEvent error writable err isSelfConnect =>
    obtain ⟨⟨c, sockfd⟩, hc, hok⟩ := bind_ok.mp hok
    cases hok
    obtain ⟨d, htd, hdc, hs⟩ := Connector.handleEvent_change hc
    have hd := (h.change htd).change hdc
    cases sockfd with
    | none => exact ⟨hd.tidy, hd.accounted, hd.connected, hd.batch⟩
    | some fd => exact ⟨hd.tidy, hd.accounted, fun _ => hs (by simp), hd.batch⟩
  | connectionCloses savedErrno =>
    simp only [machine, step] at hok
    split at hok
    · cases hok
      exact h
    · exact removeConnection_owned h hok
  | timerFires delay savedErrno =>
    obtain ⟨c, hc, hok⟩ := bind_ok.mp hok
    cases hok
    exact (h.aside t.connector.connect_ (t.connector.timers.erase delay)
      t.connector.retryDelayMs).change (Connector.startInLoop_change hc)
  | doPendingFunctors =>
    cases hok
    have hb := h.batch he
    have ht := h.tidy
    rw [hb, List.nil_append] at ht
    have hq : t.doPendingFunctors.functors ++ t.doPendingFunctors.connector.pendingFunctors =
        t.connector.pendingFunctors := List.append_nil _
    exact ⟨hq ▸ ht, h.accounted, h.connected, fun hx => Bool.noConfusion hx⟩
  | callFunctor savedErrno =>
    simp only [machine, step] at hok
    split at hok
    · cases hok
      exact h
    · next f fs hfs => exact callFunctor_owned h hfs hok

/-- Between `stop()` and the next `connect()`. -/
structure Stopped (t : TcpClient) : Prop where
  client : t.connect_ = false
  connector : t.connector.connect_ = false

/-- No socket has been created or handed over since `t`. -/
structure SameSockets (t u : TcpClient) : Prop where
  created : u.connector.created = t.connector.created
  handed : u.connector.handed = t.connector.handed

/-- The client is asked to connect. -/
def Step.connects : Step → Bool
  | .connect _ _ => true
  | _ => false

theorem Stopped.change {c : Connector} (h : Stopped t) (hch : Connector.Change t.connector c) :
    Stopped { t with connector := c } ∧ SameSockets t { t with connector := c } := by
  obtain ⟨hc, hcreated, hhanded⟩ := hch.stopped h.connector
  exact ⟨⟨h.client, hc⟩, hcreated, hhanded⟩

theorem removeConnection_stopped {conn : Nat} {savedErrno : ConnectErrno} (h : Stopped t)
    (hok : t.removeConnection conn savedErrno = .ok u) : Stopped u ∧ SameSockets t u := by
  obtain ⟨_, hok⟩ := assert_bind_ok.mp hok
  have hno : ¬ (t.retry && t.connect_) = true := by simp [h.client]
  rw [if_neg hno] at hok
  cases hok
  exact ⟨⟨h.client, h.connector⟩, rfl, rfl⟩

theorem callFunctor_stopped {f : ClientFunctor} {savedErrno : ConnectErrno} (h : Stopped t)
    (hok : t.callFunctor savedErrno f = .ok u) : Stopped u ∧ SameSockets t u := by
  cases f with
  | startInLoop =>
    obtain ⟨c, hc, hok⟩ := bind_ok.mp hok
    cases hok
    exact h.change (Connector.startInLoop_change hc)
  | stopInLoop =>
    obtain ⟨c, hc, hok⟩ := bind_ok.mp hok
    cases hok
    exact h.change (Connector.stopInLoop_change hc)
  | resetChannel =>
    obtain ⟨c, hc, hok⟩ := bind_ok.mp hok
    cases hok
    obtain ⟨rfl, _⟩ := Connector.resetChannel_eq hc
    exact ⟨⟨h.client, h.connector⟩, rfl, rfl⟩
  | forceCloseInLoop conn =>
    simp only [callFunctor] at hok
    split at hok
    · exact removeConnection_stopped h hok
    · cases hok
      exact ⟨h, rfl, rfl⟩
  | connectDestroyed conn =>
    cases hok
    exact ⟨h, rfl, rfl⟩

/-- A retry timer armed before `stop()` finds `connect_` cleared. -/
theorem step_stopped {a : Step} (h : Stopped t) (ha : a.connects = false)
    (hok : step t a = .ok u) : Stopped u ∧ SameSockets t u := by
  cases a with
  | connect inLoopThread savedErrno => cases ha
  | enableRetry | poll | doPendingFunctors =>
    cases hok
    exact ⟨⟨h.client, h.connector⟩, rfl, rfl⟩
  | disconnect | stop =>
    cases hok
    exact ⟨⟨rfl, by first | rfl | exact h.connector⟩, rfl, rfl⟩
  | forceClose =>
    simp only [step] at hok
    split at hok <;> cases hok <;> exact ⟨⟨h.client, h.connector⟩, rfl, rfl⟩
  | handleEvent error writable err isSelfConnect =>
    obtain ⟨⟨c, sockfd⟩, hc, hok⟩ := bind_ok.mp hok
    cases hok
    obtain ⟨d, htd, hdc, _⟩ := Connector.handleEvent_change hc
    obtain ⟨hd, hcreated, hhanded⟩ := htd.stopped h.connector
    obtain ⟨hc', hcreated', hhanded'⟩ := hdc.stopped hd
    cases sockfd <;>
      exact ⟨⟨h.client, hc'⟩, hcreated'.trans hcreated, hhanded'.trans hhanded⟩
  | connectionCloses savedErrno =>
    simp only [step] at hok
    split at hok
    · cases hok
      exact ⟨h, rfl, rfl⟩
    · exact removeConnection_stopped h hok
  | timerFires delay savedErrno =>
    obtain ⟨c, hc, hok⟩ := bind_ok.mp hok
    cases hok
    obtain ⟨hc', hcreated, hhanded⟩ := (Connector.startInLoop_change hc).stopped h.connector
    exact ⟨⟨h.client, hc'⟩, hcreated, hhanded⟩
  | callFunctor savedErrno =>
    simp only [step] at hok
    split at hok
    · cases hok
      exact ⟨h, rfl, rfl⟩
    · next f fs hfs =>
      obtain ⟨hu, hs⟩ := callFunctor_stopped (t := { t with functors := fs })
        ⟨h.client, h.connector⟩ hok
      exact ⟨hu, hs.created, hs.handed⟩

theorem run_stopped {steps : List Step} (hr : machine.Run t steps u) (h : Stopped t)
    (hs : ∀ a ∈ steps, a.connects = false) : SameSockets t u := by
  induction hr with
  | nil t => exact ⟨rfl, rfl⟩
  | cons he hok _ ih =>
    obtain ⟨ha, has⟩ := List.forall_mem_cons.mp hs
    obtain ⟨hstopped, hsame⟩ := step_stopped h ha hok
    have hrest := ih hstopped has
    exact ⟨hrest.created.trans hsame.created, hrest.handed.trans hsame.handed⟩

/-- At each point every socket that was created is either that of the registered channel
of an attempt under way, or closed once, or handed over once. And from `stop()` to the next
`connect()` none is created or handed over. -/
theorem sockets_owned (steps : List Step) (t : TcpClient) (h : machine.Run .new steps t) :
    (∀ fd, t.connector.places fd = if fd < t.connector.created then 1 else 0) ∧
    ∀ rest u, machine.Run t (.stop :: rest) u → (∀ a ∈ rest, a.connects = false) →
      SameSockets t u := by
  refine ⟨(h.invariant step_owned new_owned).accounted, fun rest u hr hrest => ?_⟩
  cases hr with
  | cons he hok hr =>
    cases hok
    have hsame := run_stopped hr ⟨rfl, rfl⟩ hrest
    exact ⟨hsame.created, hsame.handed⟩

/-- An attempt is stopped, and given up by `stopInLoop`. -/
theorem sockets_owned_sample : ∃ t u : TcpClient,
    machine.Run .new [.connect true .EINPROGRESS, .poll] t ∧
    machine.Run t [.stop, .doPendingFunctors, .callFunctor .success] u ∧
    t.connector.connectingOn = some 0 ∧ u.connector.closed = [0] ∧
    u.connector.places 0 = 1 ∧ SameSockets t u := by
  have ht : machine.Run .new [.connect true .EINPROGRESS, .poll] _ := Machine.run_of_exec rfl
  have hs := sockets_owned _ _ ht
  refine ⟨_, _, ht, Machine.run_of_exec rfl, rfl, rfl, rfl, ?_⟩
  exact hs.2 [.doPendingFunctors, .callFunctor .success] _ (Machine.run_of_exec rfl)
    (by decide)

end TcpClient
end Muduo.Net
