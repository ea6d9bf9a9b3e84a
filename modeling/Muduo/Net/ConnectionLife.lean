import Muduo.Net.ConnectionEffect

/-! One connection under every order of its public operations, its events, the functors it
queues and its destruction. What a callback of the user asks of the connection is a step
of its own. -/
namespace Muduo.Net.ConnectionLife
open Muduo.Support TcpConnection

inductive Step where
  | connectEstablished
  | send (inLoopThread : Bool) (m : Memory) (data : Int) (len : Nat) (w : WriteResult)
  | shutdown (inLoopThread : Bool)
  | forceClose | forceCloseWithDelay
  | startRead (inLoopThread : Bool)
  | stopRead (inLoopThread : Bool)
  | handleRead (r : ReadResult)
  | handleWrite (w : WriteResult)
  | handleClose
  /-- The timer of a `forceCloseWithDelay` calls `forceClose`. -/
  | delayElapsed
  /-- The loop runs the oldest functor; `w` answers a `write` it makes. -/
  | runFunctor (w : WriteResult)
  | connectDestroyed

/-- Only the kernel's answers are constrained, and what runs must have been queued. -/
def enabled (c : TcpConnection) : Step → Prop
  | .send _ _ _ len w => w.Within 0 len
  | .handleWrite w => c.channel.isWriting = true →
      ∃ n, w = .accepted n ∧ 1 ≤ n ∧ n ≤ c.outputBuffer.readableBytes
  | .delayElapsed => 0 < c.delayed
  | .runFunctor w =>
      match c.queued with
      | [] => False
      | .sendInLoop _ _ len :: _ => w.Within 0 len
      | _ => True
  | _ => True

def step (c : TcpConnection) : Step → Except Fault TcpConnection
  | .connectEstablished => c.connectEstablished
  | .send inLoopThread m data len w => c.send inLoopThread m data len w
  | .shutdown inLoopThread => return c.shutdown inLoopThread
  | .forceClose => return c.forceClose
  | .forceCloseWithDelay => return c.forceCloseWithDelay
  | .startRead inLoopThread => return c.startRead inLoopThread
  | .stopRead inLoopThread => return c.stopRead inLoopThread
  | .handleRead r => c.handleRead r
  | .handleWrite w => c.handleWrite w
  | .handleClose => c.handleClose
  | .delayElapsed => return { c with delayed := c.delayed - 1 }.forceClose
  | .runFunctor w =>
      match c.queued with
      | [] => return c
      | f :: fs => { c with queued := fs }.runFunctor w f
  | .connectDestroyed => c.connectDestroyed

def machine : Machine TcpConnection Step := ⟨enabled, step⟩

/-- The step runs `startReadInLoop`. -/
def startsRead (c : TcpConnection) : Step → Prop
  | .startRead inLoopThread => inLoopThread = true
  | .runFunctor _ => c.queued.head? = some .startReadInLoop
  | _ => False

/-- The step runs `stopReadInLoop`. -/
def stopsRead (c : TcpConnection) : Step → Prop
  | .stopRead inLoopThread => inLoopThread = true
  | .runFunctor _ => c.queued.head? = some .stopReadInLoop
  | _ => False

/-- What every order of the operations keeps: a closed connection never asks to write, and
DOWN was reported once it is closed, and only then. -/
structure Life (c : TcpConnection) : Prop where
  buffer : c.outputBuffer.Inv
  writing : c.state = .kDisconnected → c.channel.writing = false
  downs : c.upDowns.count false = if c.state = .kDisconnected then 1 else 0

/-- The operation leaves the connection open. -/
structure Lives (c t : TcpConnection) : Prop where
  state : t.state ≠ .kDisconnected
  buffer : t.outputBuffer.Inv
  downs : t.upDowns.count false = c.upDowns.count false

/-- The operation closes the connection. -/
structure Dies (c t : TcpConnection) : Prop where
  state : t.state = .kDisconnected
  buffer : t.outputBuffer.Inv
  idle : t.channel.isNoneEvent = true
  upDowns : t.upDowns = c.upDowns ++ [false]

variable {c t : TcpConnection}

theorem new_life (writeComplete highWater : Bool) (mark : Nat) :
    Life (.new writeComplete highWater mark) := ⟨Buffer.new_inv _, fun _ => rfl, rfl⟩

/-- Operations that neither call back nor touch the output. -/
theorem Life.lives (h : Life c) (hs : t.state ≠ .kDisconnected)
    (hb : t.outputBuffer = c.outputBuffer) (hc : t.callbacks = c.callbacks) : Lives c t :=
  ⟨hs, hb ▸ h.buffer, by rw [TcpConnection.upDowns, TcpConnection.upDowns, hc]⟩

theorem Life.next (h : Life c) (hopen : c.state ≠ .kDisconnected) (ht : Lives c t ∨ Dies c t) :
    Life t := by
  have hd := h.downs
  rw [if_neg hopen] at hd
  rcases ht with ht | ht
  · exact ⟨ht.buffer, fun hx => absurd hx ht.state, by rw [if_neg ht.state, ht.downs, hd]⟩
  · have hi := ht.idle
    refine ⟨ht.buffer, fun _ => ?_, by rw [if_pos ht.state, ht.upDowns, List.count_append, hd]; rfl⟩
    simp only [Channel.isNoneEvent, Bool.and_eq_true, Bool.not_eq_true'] at hi
    exact hi.2

theorem sendInLoop_lives (h : Life c) (hopen : c.state ≠ .kDisconnected) {m : Memory} {data : Int}
    {len : Nat} {w : WriteResult} (hw : w.Within 0 len) (hok : c.sendInLoop m data len w = .ok t) :
    Lives c t := by
  obtain ⟨t', hok', hs⟩ := sendInLoop_spec h.buffer m data len hw
  rw [hok'] at hok
  cases hok
  exact ⟨hs.state ▸ hopen, hs.inv, by rw [TcpConnection.upDowns, TcpConnection.upDowns, hs.callbacks]⟩

theorem handleClose_dies (h : Life c) (hok : c.handleClose = .ok t) : Dies c t := by
  obtain ⟨_, hok⟩ := assert_bind_ok.mp hok
  cases hok
  refine ⟨rfl, h.buffer, rfl, ?_⟩
  simp [TcpConnection.upDowns, connectionCallback, closeCallback, setState, connected]

theorem forceClose_lives (h : Life c) (hopen : c.state ≠ .kDisconnected) : Lives c c.forceClose := by
  unfold forceClose
  split
  · exact h.lives (by simp [queueInLoop, setState]) rfl rfl
  · exact h.lives hopen rfl rfl

theorem startReadInLoop_lives (h : Life c) (hopen : c.state ≠ .kDisconnected) :
    Lives c c.startReadInLoop := by
  unfold startReadInLoop
  split <;> exact h.lives hopen rfl rfl

theorem stopReadInLoop_lives (h : Life c) (hopen : c.state ≠ .kDisconnected) :
    Lives c c.stopReadInLoop := by
  unfold stopReadInLoop
  split <;> exact h.lives hopen rfl rfl

theorem shutdownInLoop_lives (h : Life c) (hopen : c.state ≠ .kDisconnected) :
    Lives c c.shutdownInLoop := by
  rw [shutdownInLoop_frame]
  exact h.lives hopen rfl rfl

theorem connectEstablished_lives (h : Life c) (hok : c.connectEstablished = .ok t) :
    Lives c t := by
  obtain ⟨_, hok⟩ := assert_bind_ok.mp hok
  cases hok
  refine ⟨by simp [connectionCallback, setState], h.buffer, ?_⟩
  simp [TcpConnection.upDowns, connectionCallback, setState, connected]

theorem connectDestroyed_open (h : Life c) (hopen : c.state ≠ .kDisconnected)
    (hok : c.connectDestroyed = .ok t) : Lives c t ∨ Dies c t := by
  obtain ⟨ch, hch, hok⟩ := bind_ok.mp hok
  obtain ⟨_, hch⟩ := assert_bind_ok.mp hch
  cases hch
  cases hok
  by_cases hs : c.state = .kConnected
  · simp only [if_pos hs]
    refine .inr ⟨rfl, h.buffer, rfl, ?_⟩
    simp [TcpConnection.upDowns, connectionCallback, setState, connected]
  · simp only [if_neg hs]
    exact .inl (h.lives hopen rfl rfl)

/-- Every functor run on an open connection. -/
theorem runFunctor_open (h : Life c) (hopen : c.state ≠ .kDisconnected) {f : Functor}
    {w : WriteResult} (hw : ∀ m data len, f = .sendInLoop m data len → w.Within 0 len)
    (hok : c.runFunctor w f = .ok t) : Lives c t ∨ Dies c t := by
  cases f with
  | writeCompleteCallback =>
    cases hok
    exact .inl (h.lives hopen rfl rfl)
  | highWaterMarkCallback len =>
    cases hok
    exact .inl (h.lives hopen rfl rfl)
  | sendInLoop m data len => exact .inl (sendInLoop_lives h hopen (hw m data len rfl) hok)
  | shutdownInLoop =>
    cases hok
    exact .inl (shutdownInLoop_lives h hopen)
  | forceCloseInLoop =>
    simp only [runFunctor, forceCloseInLoop] at hok
    split at hok
    · exact .inr (handleClose_dies h hok)
    · cases hok
      exact .inl (h.lives hopen rfl rfl)
  | startReadInLoop =>
    cases hok
    exact .inl (startReadInLoop_lives h hopen)
  | stopReadInLoop =>
    cases hok
    exact .inl (stopReadInLoop_lives h hopen)
  | connectEstablished => exact .inl (connectEstablished_lives h hok)
  | connectDestroyed => exact connectDestroyed_open h hopen hok

/-- A step of an open connection leaves it open or closes it. -/
theorem step_open {a : Step} (h : Life c) (hopen : c.state ≠ .kDisconnected)
    (he : enabled c a) (hok : step c a = .ok t) : Lives c t ∨ Dies c t := by
  cases a with
  | connectEstablished => exact .inl (connectEstablished_lives h hok)
  | send inLoopThread m data len w =>
    simp only [step, TcpConnection.send] at hok
    split at hok
    · split at hok
      · exact .inl (sendInLoop_lives h hopen he hok)
      · cases hok
        exact .inl (h.lives hopen rfl rfl)
    · cases hok
      exact .inl (h.lives hopen rfl rfl)
  | shutdown inLoopThread =>
    cases hok
    unfold TcpConnection.shutdown
    split
    · dsimp only
      split
      · rw [shutdownInLoop_frame]
        exact .inl (h.lives (by simp [setState]) rfl rfl)
      · exact .inl (h.lives (by simp [setState, queueInLoop]) rfl rfl)
    · exact .inl (h.lives hopen rfl rfl)
  | forceClose =>
    cases hok
    exact .inl (forceClose_lives h hopen)
  | forceCloseWithDelay =>
    cases hok
    unfold TcpConnection.forceCloseWithDelay
    split
    · exact .inl (h.lives (by simp [setState]) rfl rfl)
    · exact .inl (h.lives hopen rfl rfl)
  | startRead inLoopThread =>
    cases hok
    unfold TcpConnection.startRead
    split
    · exact .inl (startReadInLoop_lives h hopen)
    · exact .inl (h.lives hopen rfl rfl)
  | stopRead inLoopThread =>
    cases hok
    unfold TcpConnection.stopRead
    split
    · exact .inl (stopReadInLoop_lives h hopen)
    · exact .inl (h.lives hopen rfl rfl)
  | handleRead r =>
    obtain ⟨b, _, hok⟩ := bind_ok.mp hok
    have hb : Life { c with inputBuffer := b } := ⟨h.buffer, h.writing, h.downs⟩
    cases r with
    | failed errno =>
      cases hok
      exact .inl (h.lives hopen rfl rfl)
    | data bytes =>
      cases bytes with
      | nil =>
        have ht := handleClose_dies hb hok
        exact .inr ⟨ht.state, ht.buffer, ht.idle, ht.upDowns⟩
      | cons x xs =>
        cases hok
        exact .inl ⟨hopen, h.buffer, by simp [TcpConnection.upDowns, messageCallback]⟩
  | handleWrite w =>
    cases hw : c.channel.writing with
    | false =>
      simp only [step, handleWrite_idle hw] at hok
      cases hok
      exact .inl (h.lives hopen rfl rfl)
    | true =>
      obtain ⟨n, rfl, hn, hle⟩ := he hw
      obtain ⟨d, hd, hs⟩ := handleWrite_spec h.buffer hw hn hle
      simp only [step, hd] at hok
      cases hok
      refine .inl ⟨hs.state ▸ hopen, hs.inv, ?_⟩
      rw [TcpConnection.upDowns, TcpConnection.upDowns, hs.callbacks]
  | handleClose => exact .inr (handleClose_dies h hok)
  | delayElapsed =>
    cases hok
    have hl : Life { c with delayed := c.delayed - 1 } := ⟨h.buffer, h.writing, h.downs⟩
    have ht := forceClose_lives hl hopen
    exact .inl ⟨ht.state, ht.buffer, ht.downs⟩
  | runFunctor w =>
    have hl (fs : List Functor) : Life { c with queued := fs } := ⟨h.buffer, h.writing, h.downs⟩
    simp only [enabled] at he
    cases hq : c.queued with
    | nil => simp only [hq] at he
    | cons f fs =>
      simp only [step, hq] at hok
      have hw : ∀ m data len, f = .sendInLoop m data len → w.Within 0 len := by
        rintro m data len rfl
        simpa only [hq] using he
      rcases runFunctor_open (hl fs) hopen hw hok with ht | ht
      · exact .inl ⟨ht.state, ht.buffer, ht.downs⟩
      · exact .inr ⟨ht.state, ht.buffer, ht.idle, ht.upDowns⟩
  | connectDestroyed => exact connectDestroyed_open h hopen hok

/-- The operation does not touch the interest of the channel, and does not hand it to the
poller. -/
structure Inert (c t : TcpConnection) : Prop where
  state : t.state = c.state
  buffer : t.outputBuffer.Inv
  upDowns : t.upDowns = c.upDowns
  channel : t.channel = { c.channel with addedToLoop := t.channel.addedToLoop }

theorem Life.inert (h : Life c) (hs : t.state = c.state) (hb : t.outputBuffer = c.outputBuffer)
    (hc : t.callbacks = c.callbacks) (hch : t.channel = c.channel) : Inert c t :=
  ⟨hs, hb ▸ h.buffer, by rw [TcpConnection.upDowns, TcpConnection.upDowns, hc], by rw [hch]⟩

theorem Life.inert_next (h : Life c) (ht : Inert c t) : Life t where
  buffer := ht.buffer
  writing := by
    rw [ht.state, ht.channel]
    exact h.writing
  downs := by rw [ht.upDowns, ht.state]; exact h.downs

theorem connectDestroyed_inert (h : Life c) (hd : c.state = .kDisconnected)
    (hok : c.connectDestroyed = .ok t) : Inert c t := by
  have hc : c.state ≠ .kConnected := by simp [hd]
  obtain ⟨ch, hch, hok⟩ := bind_ok.mp hok
  rw [if_neg hc] at hch hok
  obtain ⟨_, hch⟩ := assert_bind_ok.mp hch
  cases hch
  cases hok
  exact ⟨rfl, h.buffer, rfl, rfl⟩

theorem stopReadInLoop_closed (h : Life c) (hidle : c.channel.isNoneEvent = true)
    (hr : c.reading = false) : Inert c c.stopReadInLoop := by
  have hn : c.channel.isReading = false := by
    simp only [Channel.isNoneEvent, Bool.and_eq_true, Bool.not_eq_true'] at hidle
    exact hidle.1
  rw [stopReadInLoop, hr, hn]
  exact h.inert rfl rfl rfl rfl

/-- Every functor run on a closed connection but those that change its reading. -/
theorem runFunctor_inert (h : Life c) (hd : c.state = .kDisconnected) {f : Functor}
    {w : WriteResult} (hstart : f ≠ .startReadInLoop) (hstop : f ≠ .stopReadInLoop)
    (hok : c.runFunctor w f = .ok t) : Inert c t := by
  cases f with
  | writeCompleteCallback =>
    cases hok
    exact h.inert rfl rfl rfl rfl
  | highWaterMarkCallback len =>
    cases hok
    exact h.inert rfl rfl rfl rfl
  | sendInLoop m data len =>
    simp only [runFunctor, sendInLoop, if_pos hd] at hok
    cases hok
    exact h.inert rfl rfl rfl rfl
  | shutdownInLoop =>
    cases hok
    rw [shutdownInLoop_frame]
    exact h.inert rfl rfl rfl rfl
  | forceCloseInLoop =>
    simp only [runFunctor, forceCloseInLoop, hd] at hok
    cases hok
    exact h.inert rfl rfl rfl rfl
  | startReadInLoop => exact absurd rfl hstart
  | stopReadInLoop => exact absurd rfl hstop
  | connectEstablished =>
    obtain ⟨hc, _⟩ := assert_bind_ok.mp hok
    rw [hd] at hc
    cases hc
  | connectDestroyed => exact connectDestroyed_inert h hd hok

/-- Every step of a closed connection but those that change its reading. -/
theorem step_inert {a : Step} (h : Life c) (hd : c.state = .kDisconnected)
    (hstart : ¬ startsRead c a) (hstop : ¬ stopsRead c a) (hok : step c a = .ok t) :
    Inert c t := by
  have hclosed : ¬ (c.state = .kConnected ∨ c.state = .kDisconnecting) := by simp [hd]
  cases a with
  | connectEstablished =>
    obtain ⟨hc, _⟩ := assert_bind_ok.mp hok
    rw [hd] at hc
    cases hc
  | send inLoopThread m data len w =>
    simp only [step, TcpConnection.send, hd] at hok
    cases hok
    exact h.inert rfl rfl rfl rfl
  | shutdown inLoopThread =>
    simp only [step, TcpConnection.shutdown, hd] at hok
    cases hok
    exact h.inert rfl rfl rfl rfl
  | forceClose =>
    simp only [step, TcpConnection.forceClose, if_neg hclosed] at hok
    cases hok
    exact h.inert rfl rfl rfl rfl
  | forceCloseWithDelay =>
    simp only [step, TcpConnection.forceCloseWithDelay, if_neg hclosed] at hok
    cases hok
    exact h.inert rfl rfl rfl rfl
  | startRead inLoopThread =>
    cases inLoopThread with
    | true => exact absurd rfl hstart
    | false =>
      cases hok
      exact h.inert rfl rfl rfl rfl
  | stopRead inLoopThread =>
    cases inLoopThread with
    | true => exact absurd rfl hstop
    | false =>
      cases hok
      exact h.inert rfl rfl rfl rfl
  | handleRead r =>
    obtain ⟨b, _, hok⟩ := bind_ok.mp hok
    cases r with
    | failed errno =>
      cases hok
      exact h.inert rfl rfl rfl rfl
    | data bytes =>
      cases bytes with
      | nil =>
        obtain ⟨hc, _⟩ := assert_bind_ok.mp hok
        exact absurd hc hclosed
      | cons x xs =>
        cases hok
        exact ⟨rfl, h.buffer, by simp [TcpConnection.upDowns, messageCallback], rfl⟩
  | handleWrite w =>
    simp only [step, handleWrite_idle (h.writing hd)] at hok
    cases hok
    exact h.inert rfl rfl rfl rfl
  | handleClose =>
    obtain ⟨hc, _⟩ := assert_bind_ok.mp hok
    exact absurd hc hclosed
  | delayElapsed =>
    simp only [step, TcpConnection.forceClose, if_neg hclosed] at hok
    cases hok
    exact h.inert rfl rfl rfl rfl
  | runFunctor w =>
    simp only [startsRead, stopsRead] at hstart hstop
    cases hq : c.queued with
    | nil =>
      simp only [step, hq] at hok
      cases hok
      exact h.inert rfl rfl rfl rfl
    | cons f fs =>
      simp only [step, hq] at hok
      simp only [hq, List.head?_cons, Option.some.injEq] at hstart hstop
      have hl : Life { c with queued := fs } := ⟨h.buffer, h.writing, h.downs⟩
      have ht := runFunctor_inert hl hd hstart hstop hok
      exact ⟨ht.state, ht.buffer, ht.upDowns, ht.channel⟩
  | connectDestroyed => exact connectDestroyed_inert h hd hok

theorem isNoneEvent_startReadInLoop (hidle : c.channel.isNoneEvent = true) :
    c.startReadInLoop.channel.isNoneEvent = false := by
  simp only [Channel.isNoneEvent, Bool.and_eq_true, Bool.not_eq_true'] at hidle
  simp [startReadInLoop, Channel.isReading, hidle.1, Channel.enableReading, Channel.update,
    Channel.isNoneEvent]

theorem updates_stopReadInLoop (hr : c.reading = true) :
    c.stopReadInLoop.channel.updates = c.channel.updates + 1 := by
  simp [stopReadInLoop, hr, Channel.disableReading, Channel.update]

/-- From `c` on the closed connection stays closed: without interest, as often handed to
the poller as in `c`, and ready for `connectDestroyed`. -/
structure StaysClosed (c t : TcpConnection) : Prop where
  state : t.state = .kDisconnected
  idle : t.channel.isNoneEvent = true
  updates : t.channel.updates = c.channel.updates
  destroys : ∃ u, t.connectDestroyed = .ok u

/-- Steps of a closed connection that change its reading. -/
def LeavesClosed (c : TcpConnection) (a : Step) : Prop :=
  c.state = .kDisconnected → ¬ startsRead c a ∧ (stopsRead c a → c.reading = false)

theorem connectDestroyed_closed (hd : c.state = .kDisconnected)
    (hidle : c.channel.isNoneEvent = true) : ∃ u, c.connectDestroyed = .ok u := by
  have hc : c.state ≠ .kConnected := by simp [hd]
  refine ⟨{ c with channel := { c.channel with addedToLoop := false } }, ?_⟩
  unfold connectDestroyed
  simp only [if_neg hc, Channel.remove, assert_true hidle, ok_bind]
  rfl

theorem step_startsRead {a : Step} (ha : startsRead c a) (hok : step c a = .ok t) :
    ∃ fs, t = { c with queued := fs }.startReadInLoop := by
  cases a with
  | startRead inLoopThread =>
    cases ha
    cases hok
    exact ⟨c.queued, rfl⟩
  | runFunctor w =>
    obtain ⟨fs, hq⟩ := List.head?_eq_some_iff.mp ha
    simp only [step, hq] at hok
    cases hok
    exact ⟨fs, rfl⟩
  | _ => exact ha.elim

theorem step_stopsRead {a : Step} (ha : stopsRead c a) (hok : step c a = .ok t) :
    ∃ fs, t = { c with queued := fs }.stopReadInLoop := by
  cases a with
  | stopRead inLoopThread =>
    cases ha
    cases hok
    exact ⟨c.queued, rfl⟩
  | runFunctor w =>
    obtain ⟨fs, hq⟩ := List.head?_eq_some_iff.mp ha
    simp only [step, hq] at hok
    cases hok
    exact ⟨fs, rfl⟩
  | _ => exact ha.elim

theorem startReadInLoop_life (h : Life c) (hd : c.state = .kDisconnected) :
    Life c.startReadInLoop ∧ c.startReadInLoop.state = .kDisconnected := by
  unfold startReadInLoop
  split <;> exact ⟨⟨h.buffer, h.writing, h.downs⟩, hd⟩

theorem stopReadInLoop_life (h : Life c) (hd : c.state = .kDisconnected) :
    Life c.stopReadInLoop ∧ c.stopReadInLoop.state = .kDisconnected := by
  unfold stopReadInLoop
  split <;> exact ⟨⟨h.buffer, h.writing, h.downs⟩, hd⟩

/-- A functor, whether the connection is open or closed. -/
theorem runFunctor_life (h : Life c) {f : Functor} {w : WriteResult}
    (hw : ∀ m data len, f = .sendInLoop m data len → w.Within 0 len)
    (hok : c.runFunctor w f = .ok t) :
    Life t ∧ (c.state = .kDisconnected → t.state = .kDisconnected) := by
  by_cases hd : c.state = .kDisconnected
  · by_cases hstart : f = .startReadInLoop
    · subst hstart
      cases hok
      exact ⟨(startReadInLoop_life h hd).1, fun _ => (startReadInLoop_life h hd).2⟩
    by_cases hstop : f = .stopReadInLoop
    · subst hstop
      cases hok
      exact ⟨(stopReadInLoop_life h hd).1, fun _ => (stopReadInLoop_life h hd).2⟩
    · have ht := runFunctor_inert h hd hstart hstop hok
      exact ⟨h.inert_next ht, fun _ => ht.state.trans hd⟩
  · exact ⟨h.next hd (runFunctor_open h hd hw hok), fun hx => absurd hx hd⟩

/-- A closed connection is not opened again. -/
theorem step_closed {a : Step} (h : Life c) (hd : c.state = .kDisconnected)
    (hok : step c a = .ok t) : Life t ∧ t.state = .kDisconnected := by
  have hl (fs : List Functor) : Life { c with queued := fs } := ⟨h.buffer, h.writing, h.downs⟩
  by_cases hstart : startsRead c a
  · obtain ⟨fs, rfl⟩ := step_startsRead hstart hok
    exact startReadInLoop_life (hl fs) hd
  by_cases hstop : stopsRead c a
  · obtain ⟨fs, rfl⟩ := step_stopsRead hstop hok
    exact stopReadInLoop_life (hl fs) hd
  · have ht := step_inert h hd hstart hstop hok
    exact ⟨h.inert_next ht, ht.state.trans hd⟩

theorem step_life {a : Step} (h : Life c) (he : enabled c a) (hok : step c a = .ok t) : Life t := by
  by_cases hd : c.state = .kDisconnected
  · exact (step_closed h hd hok).1
  · exact h.next hd (step_open h hd he hok)

theorem step_life_closed {a : Step} (h : Life c) (he : enabled c a) (hok : step c a = .ok t) :
    Life t ∧ (c.state = .kDisconnected → t.state = .kDisconnected) :=
  ⟨step_life h he hok, fun hd => (step_closed h hd hok).2⟩

/-- `startReadInLoop` and an effective `stopReadInLoop` hand a closed channel to the
poller. -/
theorem step_touches {a : Step} (hidle : c.channel.isNoneEvent = true)
    (hk : ¬ LeavesClosed c a) (hok : step c a = .ok t) :
    t.channel.isNoneEvent = false ∨ t.channel.updates ≠ c.channel.updates := by
  rw [LeavesClosed, Classical.not_imp, not_and_or, not_not, Classical.not_imp,
    Bool.not_eq_false] at hk
  rcases hk.2 with hstart | ⟨hstop, hr⟩
  · obtain ⟨fs, rfl⟩ := step_startsRead hstart hok
    exact .inl (isNoneEvent_startReadInLoop hidle)
  · obtain ⟨fs, rfl⟩ := step_stopsRead hstop hok
    refine .inr ?_
    rw [updates_stopReadInLoop (c := { c with queued := fs }) hr]
    exact Nat.succ_ne_self _

theorem step_untouched {a : Step} (h : Life c) (hd : c.state = .kDisconnected)
    (hidle : c.channel.isNoneEvent = true) (hk : LeavesClosed c a) (hok : step c a = .ok t) :
    Inert c t := by
  obtain ⟨hstart, hr⟩ := hk hd
  by_cases hstop : stopsRead c a
  · obtain ⟨fs, rfl⟩ := step_stopsRead hstop hok
    have hl : Life { c with queued := fs } := ⟨h.buffer, h.writing, h.downs⟩
    have ht := stopReadInLoop_closed hl hidle (hr hstop)
    exact ⟨ht.state, ht.buffer, ht.upDowns, ht.channel⟩
  · exact step_inert h hd hstart hstop hok

/-- What one step does to the life of a connection that was so far left closed. -/
theorem step_spec {a : Step} (h : Life c) (hidle : c.state = .kDisconnected → StaysClosed c c)
    (he : enabled c a) (hok : step c a = .ok t) :
    Life t ∧ (c.state = .kDisconnected → t.state = .kDisconnected) ∧
      ((c.state = .kDisconnected → StaysClosed c t) ∧
        (t.state = .kDisconnected → StaysClosed t t) ↔ LeavesClosed c a) := by
  refine ⟨step_life h he hok, fun hd => (step_closed h hd hok).2, ?_⟩
  by_cases hd : c.state = .kDisconnected
  · have hnone := (hidle hd).idle
    by_cases hk : LeavesClosed c a
    · have ht := step_untouched h hd hnone hk hok
      have hs : t.state = .kDisconnected := ht.state.trans hd
      have hi : t.channel.isNoneEvent = true := by
        rw [ht.channel]
        exact hnone
      have hdest := connectDestroyed_closed hs hi
      refine ⟨fun _ => hk, fun _ => ⟨fun _ => ?_, fun _ => ?_⟩⟩
      · exact ⟨hs, hi, by rw [ht.channel], hdest⟩
      · exact ⟨hs, hi, rfl, hdest⟩
    · refine ⟨fun hx => ?_, fun hx => absurd hx hk⟩
      have hstay := hx.1 hd
      rcases step_touches hnone hk hok with hi | hu
      · rw [hstay.idle] at hi
        cases hi
      · exact absurd hstay.updates hu
  · refine ⟨fun _ hx => absurd hx hd, fun _ => ⟨fun hx => absurd hx hd, fun hs => ?_⟩⟩
    rcases step_open h hd he hok with ht | ht
    · exact absurd hs ht.state
    · exact ⟨hs, ht.idle, rfl, connectDestroyed_closed hs ht.idle⟩

/-- Once closed, a connection stays closed exactly when no step after the close starts
reading, or stops reading that was still on. -/
theorem closed_stays_closed (writeComplete highWater : Bool) (mark : Nat) (steps : List Step)
    (c : TcpConnection) (h : machine.Run (.new writeComplete highWater mark) steps c) :
    machine.Since (.new writeComplete highWater mark) steps (·.state = .kDisconnected) StaysClosed ↔
      machine.EveryStep (.new writeComplete highWater mark) steps LeavesClosed := by
  apply h.since_iff (I := Life)
  · intro s t u hst htu
    exact ⟨htu.state, htu.idle, htu.updates.trans hst.updates, htu.destroys⟩
  · intro s a t
    exact step_spec
  · exact new_life writeComplete highWater mark
  · intro hd
    cases hd

/-- A half-closed connection that the peer closes stays closed until it is destroyed. -/
theorem closed_stays_closed_sample : ∃ c : TcpConnection,
    machine.Run .new [.connectEstablished, .shutdown true, .handleClose, .forceClose,
      .connectDestroyed] c ∧
    machine.Since .new [.connectEstablished, .shutdown true, .handleClose, .forceClose,
      .connectDestroyed] (·.state = .kDisconnected) StaysClosed := by
  have hr : machine.Run .new [.connectEstablished, .shutdown true, .handleClose, .forceClose,
      .connectDestroyed] _ :=
    .cons trivial rfl (.cons trivial rfl (.cons trivial rfl (.cons trivial rfl
      (.cons trivial rfl (.nil _)))))
  refine ⟨_, hr, (closed_stays_closed false false _ _ _ hr).mpr (Machine.everyStep_of_forall ?_)⟩
  simp [LeavesClosed, startsRead, stopsRead]

/-- A `startRead` of another thread that the loop runs after the close. -/
theorem startRead_reopens : ∃ c d : TcpConnection,
    machine.Run .new [.connectEstablished, .startRead false, .handleClose] c ∧
    c.state = .kDisconnected ∧ machine.Run c [.runFunctor (.accepted 0)] d ∧
    d.channel.isNoneEvent = false ∧ d.channel.updates = c.channel.updates + 1 ∧
    d.connectDestroyed = .error .assertion ∧
    ¬ machine.Since .new [.connectEstablished, .startRead false, .handleClose,
      .runFunctor (.accepted 0)] (·.state = .kDisconnected) StaysClosed := by
  have hr : machine.Run .new [.connectEstablished, .startRead false, .handleClose] _ :=
    .cons trivial rfl (.cons trivial rfl (.cons trivial rfl (.nil _)))
  refine ⟨_, _, hr, rfl, .cons trivial rfl (.nil _), rfl, rfl, rfl, fun h => ?_⟩
  have hs := h _ [.runFunctor (.accepted 0)] [] _ _ rfl hr (.cons trivial rfl (.nil _)) rfl
  exact absurd hs.idle (by decide)

end Muduo.Net.ConnectionLife
