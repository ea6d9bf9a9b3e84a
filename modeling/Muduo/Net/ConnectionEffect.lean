import Muduo.Net.TcpConnection

/-! What the operations of a connection mean for its life: whether they leave it where
it is, establish it or close it. -/
namespace Muduo.Net
open Muduo.Support

/-- The states between UP and DOWN. -/
def StateE.up : StateE → Prop
  | .kConnected | .kDisconnecting => True
  | .kConnecting | .kDisconnected => False

instance StateE.upDecidable : (s : StateE) → Decidable s.up
  | .kConnected | .kDisconnecting => isTrue trivial
  | .kConnecting | .kDisconnected => isFalse id

namespace TcpConnection

/-- What `connected()` answered each time the connection callback ran. -/
def upDowns (c : TcpConnection) : List Bool :=
  c.callbacks.filterMap fun
    | .connection connected => some connected
    | .message | .close => none

/-- How often the close callback was invoked. -/
def closes (c : TcpConnection) : Nat := c.callbacks.count .close

/-- A connection between two operations of its loop: only one that is up has interest
in events. -/
structure Resting (c : TcpConnection) : Prop where
  input : c.inputBuffer.Inv
  output : c.outputBuffer.Inv
  idle : c.channel.isNoneEvent = false → c.state.up

/-- The operation keeps the connection in its stage of life. -/
structure Quiet (c c' : TcpConnection) : Prop where
  state : c'.state = c.state ∨ c.state = .kConnected ∧ c'.state = .kDisconnecting
  upDowns : c'.upDowns = c.upDowns
  closes : c'.closes = c.closes
  queued : ∃ fs, c'.queued = c.queued ++ fs ∧ (c.state = .kConnecting → fs = []) ∧
    ∀ f ∈ fs, f ≠ .connectEstablished ∧ f ≠ .connectDestroyed
  resting : Resting c'

structure Establishes (c c' : TcpConnection) : Prop where
  state : c'.state = .kConnected
  upDowns : c'.upDowns = c.upDowns ++ [true]
  closes : c'.closes = c.closes
  queued : c'.queued = c.queued
  resting : Resting c'

structure Closes (c c' : TcpConnection) : Prop where
  was : c.state.up
  state : c'.state = .kDisconnected
  upDowns : c'.upDowns = c.upDowns ++ [false]
  closes : c'.closes = c.closes + 1
  queued : c'.queued = c.queued
  resting : Resting c'

variable {c c' : TcpConnection}

theorem new_resting (writeComplete highWater : Bool) (mark : Nat) :
    Resting (.new writeComplete highWater mark) :=
  ⟨Buffer.new_inv _, Buffer.new_inv _, by simp [new, Channel.new, Channel.isNoneEvent]⟩

/-- Operations that neither call back nor queue. -/
theorem Quiet.silent (hs : c'.state = c.state ∨ c.state = .kConnected ∧ c'.state = .kDisconnecting)
    (hc : c'.callbacks = c.callbacks) (hq : c'.queued = c.queued) (hr : Resting c') : Quiet c c' where
  state := hs
  upDowns := by rw [TcpConnection.upDowns, TcpConnection.upDowns, hc]
  closes := by rw [TcpConnection.closes, TcpConnection.closes, hc]
  queued := ⟨[], by rw [hq, List.append_nil], fun _ => rfl, List.forall_mem_nil _⟩
  resting := hr

theorem Quiet.refl (h : Resting c) : Quiet c c := .silent (.inl rfl) rfl rfl h

/-- Operations that hand one functor to the loop. -/
theorem Quiet.queue (f : Functor) (hs : c'.state = c.state ∨
      c.state = .kConnected ∧ c'.state = .kDisconnecting) (hc : c'.callbacks = c.callbacks)
    (hq : c'.queued = c.queued ++ [f]) (hu : c.state ≠ .kConnecting)
    (hf : f ≠ .connectEstablished ∧ f ≠ .connectDestroyed) (hr : Resting c') : Quiet c c' where
  state := hs
  upDowns := by rw [TcpConnection.upDowns, TcpConnection.upDowns, hc]
  closes := by rw [TcpConnection.closes, TcpConnection.closes, hc]
  queued := ⟨[f], hq, fun hx => absurd hx hu, List.forall_mem_singleton.mpr hf⟩
  resting := hr

theorem QueuesCallbacks.quiet (h : QueuesCallbacks c c') (hu : c.state ≠ .kConnecting) :
    ∃ fs, c'.queued = c.queued ++ fs ∧ (c.state = .kConnecting → fs = []) ∧
      ∀ f ∈ fs, f ≠ .connectEstablished ∧ f ≠ .connectDestroyed := by
  obtain ⟨fs, hq, hf⟩ := h
  refine ⟨fs, hq, fun hx => absurd hx hu, fun f hm => ?_⟩
  have := hf f hm
  constructor
  · rintro rfl
    exact this
  · rintro rfl
    exact this

/-- Reading stays as it was; writing is switched on only while the connection is up. -/
theorem Resting.sent {wrote pended : Bytes} (h : Resting c) (hu : c.state ≠ .kConnecting)
    (hd : c.state = .kDisconnected → pended = []) (hs : Sent c c' wrote pended) : Quiet c c' where
  state := .inl hs.state
  upDowns := by rw [TcpConnection.upDowns, TcpConnection.upDowns, hs.callbacks]
  closes := by rw [TcpConnection.closes, TcpConnection.closes, hs.callbacks]
  queued := hs.queued.quiet hu
  resting := by
    refine ⟨hs.input ▸ h.input, hs.inv, fun hn => ?_⟩
    rw [hs.state]
    cases hstate : c.state with
    | kConnecting => exact absurd hstate hu
    | kConnected => trivial
    | kDisconnecting => trivial
    | kDisconnected =>
      have hchannel : c.channel.isNoneEvent = false := by
        simpa [Channel.isNoneEvent, hs.writing, hs.reads, hd hstate] using hn
      have := h.idle hchannel
      rwa [hstate] at this

theorem sendInLoop_quiet (h : Resting c) (hu : c.state ≠ .kConnecting) (m : Memory) (data : Int)
    (len : Nat) {w : WriteResult} (hw : w.Within 0 len) :
    ∃ c', c.sendInLoop m data len w = .ok c' ∧ Quiet c c' := by
  obtain ⟨c', hok, hs⟩ := sendInLoop_spec h.output m data len hw
  exact ⟨c', hok, h.sent hu (fun hx => by simp [transfer, hx]) hs⟩

theorem handleWrite_quiet (h : Resting c) {w : WriteResult} (hw : c.channel.isWriting = true →
      ∃ n, w = .accepted n ∧ 1 ≤ n ∧ n ≤ c.outputBuffer.readableBytes) :
    ∃ c', c.handleWrite w = .ok c' ∧ Quiet c c' := by
  cases hc : c.channel.writing with
  | false => exact ⟨c, handleWrite_idle hc w, .refl h⟩
  | true =>
    obtain ⟨n, rfl, hn, hle⟩ := hw hc
    obtain ⟨c', hok, hd⟩ := handleWrite_spec h.output hc hn hle
    have hup : c.state.up := h.idle (by simp [Channel.isNoneEvent, hc])
    have hu : c.state ≠ .kConnecting := by
      intro hx
      rwa [hx] at hup
    refine ⟨c', hok, .inl hd.state, ?_, ?_, hd.queued.quiet hu, hd.input ▸ h.input, hd.inv, ?_⟩
    · rw [TcpConnection.upDowns, TcpConnection.upDowns, hd.callbacks]
    · rw [TcpConnection.closes, TcpConnection.closes, hd.callbacks]
    · intro _
      rw [hd.state]
      exact hup

/-- `shutdownInLoop` touches the socket only. -/
theorem shutdownInLoop_frame (c : TcpConnection) : c.shutdownInLoop =
    { c with socket := c.shutdownInLoop.socket, shutdownInLoopRuns := c.shutdownInLoopRuns + 1 } := by
  unfold shutdownInLoop
  dsimp only
  split <;> rfl

theorem outputDrained_keeps (c : TcpConnection) : c.outputDrained.state = c.state ∧
    c.outputDrained.inputBuffer = c.inputBuffer ∧
      c.outputDrained.outputBuffer = c.outputBuffer := by
  unfold outputDrained
  dsimp only
  split
  · rw [shutdownInLoop_frame]
    split <;> exact ⟨rfl, rfl, rfl⟩
  · split <;> exact ⟨rfl, rfl, rfl⟩

theorem handleWritten_keeps {n : Nat} (hi : c.outputBuffer.Inv) (hok : c.handleWritten n = .ok c') :
    c'.state = c.state ∧ c'.inputBuffer = c.inputBuffer ∧ c'.outputBuffer.Inv := by
  unfold handleWritten at hok
  split at hok
  · obtain ⟨b, hb, hok⟩ := bind_ok.mp hok
    obtain ⟨hle, _⟩ := assert_bind_ok.mp hb
    obtain ⟨b', hb', hinv, _⟩ := Buffer.retrieve_spec hi hle
    rw [hb] at hb'
    cases hb'
    cases hok
    dsimp only
    split
    · obtain ⟨hs, hin, hout⟩ := outputDrained_keeps { c with outputBuffer := b }
      exact ⟨hs, hin, hout ▸ hinv⟩
    · exact ⟨rfl, rfl, hinv⟩
  · cases hok
    exact ⟨rfl, rfl, hi⟩

/-- Whatever `write` answers, a writable event that is handled changes neither the state
nor what was read. -/
theorem handleWrite_keeps {w : WriteResult} (hi : c.outputBuffer.Inv)
    (hok : c.handleWrite w = .ok c') :
    c'.state = c.state ∧ c'.inputBuffer = c.inputBuffer ∧ c'.outputBuffer.Inv := by
  unfold handleWrite at hok
  split at hok
  · cases w with
    | accepted n => exact handleWritten_keeps (c := c.written (c.outputBuffer.readable.take n)) hi hok
    | failed errno => exact handleWritten_keeps hi hok
  · cases hok
    exact ⟨rfl, rfl, hi⟩

theorem shutdown_buffers (c : TcpConnection) : (c.shutdown true).outputBuffer = c.outputBuffer ∧
    (c.shutdown true).inputBuffer = c.inputBuffer := by
  unfold shutdown
  split
  · rw [if_pos rfl, shutdownInLoop_frame]
    exact ⟨rfl, rfl⟩
  · exact ⟨rfl, rfl⟩

theorem shutdownInLoop_quiet (h : Resting c) : Quiet c c.shutdownInLoop := by
  rw [shutdownInLoop_frame]
  exact .silent (.inl rfl) rfl rfl ⟨h.input, h.output, h.idle⟩

theorem shutdown_quiet (h : Resting c) (inLoopThread : Bool) :
    Quiet c (c.shutdown inLoopThread) := by
  unfold shutdown
  split
  · next hc =>
    dsimp only
    split
    · rw [shutdownInLoop_frame]
      exact .silent (.inr ⟨hc, rfl⟩) rfl rfl ⟨h.input, h.output, fun _ => trivial⟩
    · exact .queue .shutdownInLoop (.inr ⟨hc, rfl⟩) rfl rfl (by simp [hc]) (by simp)
        ⟨h.input, h.output, fun _ => trivial⟩
  · exact .refl h

theorem forceClose_quiet (h : Resting c) : Quiet c c.forceClose := by
  unfold forceClose
  split
  · next hc =>
    refine .queue .forceCloseInLoop ?_ rfl rfl ?_ (by simp) ⟨h.input, h.output, fun _ => trivial⟩
    · rcases hc with hc | hc
      · exact .inr ⟨hc, rfl⟩
      · exact .inl hc.symm
    · rcases hc with hc | hc <;> simp [hc]
  · exact .refl h

theorem forceCloseWithDelay_quiet (h : Resting c) : Quiet c c.forceCloseWithDelay := by
  unfold forceCloseWithDelay
  split
  · next hc =>
    refine .silent ?_ rfl rfl ⟨h.input, h.output, fun _ => trivial⟩
    rcases hc with hc | hc
    · exact .inr ⟨hc, rfl⟩
    · exact .inl hc.symm
  · exact .refl h

theorem startReadInLoop_quiet (h : Resting c) (hu : c.state.up) : Quiet c c.startReadInLoop := by
  unfold startReadInLoop
  split
  · exact .silent (.inl rfl) rfl rfl ⟨h.input, h.output, fun _ => hu⟩
  · exact .refl h

theorem stopReadInLoop_quiet (h : Resting c) : Quiet c c.stopReadInLoop := by
  unfold stopReadInLoop
  split
  · refine .silent (.inl rfl) rfl rfl ⟨h.input, h.output, fun hn => h.idle ?_⟩
    simp only [Channel.isNoneEvent, Channel.disableReading, Channel.update] at hn ⊢
    simp only [Bool.not_false, Bool.true_and] at hn
    rw [hn, Bool.and_false]
  · exact .refl h

theorem startRead_quiet (h : Resting c) (hu : c.state.up) (inLoopThread : Bool) :
    Quiet c (c.startRead inLoopThread) := by
  unfold startRead
  split
  · exact startReadInLoop_quiet h hu
  · refine .queue .startReadInLoop (.inl rfl) rfl rfl ?_ (by simp) ⟨h.input, h.output, h.idle⟩
    intro hx
    rwa [hx] at hu

theorem stopRead_quiet (h : Resting c) (hu : c.state.up) (inLoopThread : Bool) :
    Quiet c (c.stopRead inLoopThread) := by
  unfold stopRead
  split
  · exact stopReadInLoop_quiet h
  · refine .queue .stopReadInLoop (.inl rfl) rfl rfl ?_ (by simp) ⟨h.input, h.output, h.idle⟩
    intro hx
    rwa [hx] at hu

theorem send_quiet (h : Resting c) (inLoopThread : Bool) (m : Memory) (data : Int) (len : Nat)
    {w : WriteResult} (hw : w.Within 0 len) :
    ∃ c', c.send inLoopThread m data len w = .ok c' ∧ Quiet c c' := by
  unfold send
  split
  · next hc =>
    have hu : c.state ≠ .kConnecting := by simp [hc]
    split
    · exact sendInLoop_quiet h hu m data len hw
    · exact ⟨_, rfl, .queue (.sendInLoop m data len) (.inl rfl) rfl rfl hu (by simp)
        ⟨h.input, h.output, h.idle⟩⟩
  · exact ⟨c, rfl, .refl h⟩

theorem handleClose_closes (h : Resting c) (hu : c.state.up) :
    ∃ c', c.handleClose = .ok c' ∧ Closes c c' := by
  have ha : c.state = .kConnected ∨ c.state = .kDisconnecting := by
    cases hs : c.state <;> simp [hs, StateE.up] at hu ⊢
  unfold handleClose
  rw [assert_true ha, ok_bind]
  refine ⟨_, rfl, hu, rfl, ?_, ?_, rfl, h.input, h.output, ?_⟩
  · simp [TcpConnection.upDowns, connectionCallback, closeCallback, setState, connected]
  · simp [TcpConnection.closes, connectionCallback, closeCallback, setState]
  · simp [connectionCallback, closeCallback, Channel.disableAll, Channel.update,
      Channel.isNoneEvent]

theorem forceCloseInLoop_effect (h : Resting c) :
    ∃ c', c.forceCloseInLoop = .ok c' ∧ (Quiet c c' ∨ Closes c c') := by
  unfold forceCloseInLoop
  split
  · next hc =>
    have hu : c.state.up := by rcases hc with hc | hc <;> simp [hc, StateE.up]
    obtain ⟨c', hok, he⟩ := handleClose_closes h hu
    exact ⟨c', hok, .inr he⟩
  · exact ⟨c, rfl, .inl (.refl h)⟩

/-- A read closes the connection exactly when the peer has. -/
theorem handleRead_effect (h : Resting c) (hu : c.state.up) (r : ReadResult) :
    ∃ c', c.handleRead r = .ok c' ∧ (Quiet c c' ∨ Closes c c') := by
  cases r with
  | failed errno => exact ⟨c, rfl, .inl (.refl h)⟩
  | data bytes =>
    obtain ⟨b, hok, hi, _⟩ := Buffer.readFd_spec h.input bytes
    have hr : Resting { c with inputBuffer := b } := ⟨hi, h.output, h.idle⟩
    cases bytes with
    | nil =>
      obtain ⟨c', hclose, he⟩ := handleClose_closes hr hu
      refine ⟨c', ?_, .inr ⟨hu, he.state, he.upDowns, he.closes, he.queued, he.resting⟩⟩
      simp only [handleRead, hok, ok_bind, hclose]
    | cons x xs =>
      refine ⟨messageCallback { c with inputBuffer := b }, ?_, .inl ?_⟩
      · simp only [handleRead, hok, ok_bind]
        rfl
      · refine ⟨.inl rfl, ?_, ?_, ⟨[], by simp [messageCallback], fun _ => rfl,
          List.forall_mem_nil _⟩, hi, h.output, h.idle⟩
        · simp [TcpConnection.upDowns, messageCallback]
        · simp [TcpConnection.closes, messageCallback]

theorem connectEstablished_establishes (h : Resting c) (hs : c.state = .kConnecting) :
    ∃ c', c.connectEstablished = .ok c' ∧ Establishes c c' := by
  unfold connectEstablished
  rw [assert_true hs, ok_bind]
  refine ⟨_, rfl, rfl, ?_, ?_, rfl, h.input, h.output, fun _ => trivial⟩
  · simp [TcpConnection.upDowns, connectionCallback, setState, connected]
  · simp [TcpConnection.closes, connectionCallback, setState]

theorem connectDestroyed_quiet (h : Resting c) (hs : c.state = .kDisconnected) :
    ∃ c', c.connectDestroyed = .ok c' ∧ Quiet c c' := by
  have hn : c.channel.isNoneEvent = true := by
    by_contra hx
    have hup := h.idle (Bool.not_eq_true _ ▸ hx)
    rwa [hs] at hup
  have hc : c.state ≠ .kConnected := by simp [hs]
  refine ⟨{ c with channel := { c.channel with addedToLoop := false } }, ?_, ?_⟩
  · unfold connectDestroyed
    simp only [if_neg hc, Channel.remove, assert_true hn, ok_bind]
    rfl
  · exact .silent (.inl rfl) rfl rfl ⟨h.input, h.output, h.idle⟩

/-- Every functor but the two that begin and end a connection. The loop runs it after
the connection is established. -/
theorem runFunctor_effect (h : Resting c) (hu : c.state ≠ .kConnecting) {f : Functor}
    {w : WriteResult} (hf : f ≠ .connectEstablished ∧ f ≠ .connectDestroyed)
    (hread : f = .startReadInLoop → c.state ≠ .kDisconnected)
    (hw : ∀ m data len, f = .sendInLoop m data len → w.Within 0 len) :
    ∃ c', c.runFunctor w f = .ok c' ∧ (Quiet c c' ∨ Closes c c') := by
  cases f with
  | writeCompleteCallback => exact ⟨c, rfl, .inl (.refl h)⟩
  | highWaterMarkCallback len => exact ⟨c, rfl, .inl (.refl h)⟩
  | sendInLoop m data len =>
    obtain ⟨c', hok, hq⟩ := sendInLoop_quiet h hu m data len (hw m data len rfl)
    exact ⟨c', hok, .inl hq⟩
  | shutdownInLoop => exact ⟨_, rfl, .inl (shutdownInLoop_quiet h)⟩
  | forceCloseInLoop => exact forceCloseInLoop_effect h
  | startReadInLoop =>
    have hup : c.state.up := by
      have hd := hread rfl
      cases hs : c.state <;> simp [hs, StateE.up] at hu hd ⊢
    exact ⟨_, rfl, .inl (startReadInLoop_quiet h hup)⟩
  | stopReadInLoop => exact ⟨_, rfl, .inl (stopReadInLoop_quiet h)⟩
  | connectEstablished => exact absurd rfl hf.1
  | connectDestroyed => exact absurd rfl hf.2

end TcpConnection
end Muduo.Net
