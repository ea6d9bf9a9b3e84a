import Muduo.Net.ConnectionEffect
import Muduo.Net.TcpServer

/-! What an operation of a connection, in whatever state it is called, hands to the loop
and to the close callback. -/
namespace Muduo.Net.TcpConnection
open Muduo.Support

structure Buffered (c : TcpConnection) : Prop where
  input : c.inputBuffer.Inv
  output : c.outputBuffer.Inv

/-- The operation queues no call of the connection's life, and comes to the close callback
if it is `closing`. -/
structure Yields (c t : TcpConnection) (closing : Prop) : Prop where
  buffered : t.Buffered
  queued : ∃ fs, t.queued = c.queued ++ fs ∧ ∀ f ∈ fs, f.lifeCall = none
  closes : closing → t.closes = c.closes + 1
  stays : ¬ closing → t.closes = c.closes

variable {c t : TcpConnection}

theorem new_buffered (writeComplete highWater : Bool) (mark : Nat) :
    Buffered (.new writeComplete highWater mark) := ⟨Buffer.new_inv _, Buffer.new_inv _⟩

theorem Yields.silent (h : t.Buffered) (hq : t.queued = c.queued) (hc : t.closes = c.closes) :
    Yields c t False :=
  ⟨h, ⟨[], by rw [hq, List.append_nil], List.forall_mem_nil _⟩, False.elim, fun _ => hc⟩

theorem Yields.refl (h : c.Buffered) : Yields c c False := .silent h rfl rfl

theorem Yields.queue {f : Functor} (h : t.Buffered) (hq : t.queued = c.queued ++ [f])
    (hf : f.lifeCall = none) (hc : t.closes = c.closes) : Yields c t False :=
  ⟨h, ⟨[f], hq, List.forall_mem_singleton.mpr hf⟩, False.elim, fun _ => hc⟩

theorem Yields.congr {p q : Prop} (h : Yields c t p) (hpq : p ↔ q) : Yields c t q :=
  ⟨h.buffered, h.queued, fun hq => h.closes (hpq.mpr hq), fun hq => h.stays (hq ∘ hpq.mp)⟩

theorem QueuesCallbacks.lifeless (h : QueuesCallbacks c t) :
    ∃ fs, t.queued = c.queued ++ fs ∧ ∀ f ∈ fs, f.lifeCall = none := by
  obtain ⟨fs, hq, hf⟩ := h
  refine ⟨fs, hq, fun f hm => ?_⟩
  have hu := hf f hm
  cases f with
  | connectEstablished => exact hu.elim
  | connectDestroyed => exact hu.elim
  | _ => rfl

theorem sendInLoop_yields (h : c.Buffered) {m : Memory} {data : Int} {len : Nat} {w : WriteResult}
    (hw : w.Within 0 len) (hok : c.sendInLoop m data len w = .ok t) : Yields c t False := by
  obtain ⟨t', hok', hs⟩ := sendInLoop_spec h.output m data len hw
  cases hok.symm.trans hok'
  have hc : t.closes = c.closes := congrArg (List.count Callback.close) hs.callbacks
  exact ⟨⟨hs.input ▸ h.input, hs.inv⟩, hs.queued.lifeless, False.elim, fun _ => hc⟩

theorem send_yields (h : c.Buffered) {inLoopThread : Bool} {m : Memory} {data : Int} {len : Nat}
    {w : WriteResult} (hw : w.Within 0 len) (hok : c.send inLoopThread m data len w = .ok t) :
    Yields c t False := by
  rw [send] at hok
  split at hok
  · split at hok
    · exact sendInLoop_yields h hw hok
    · cases hok
      exact .queue ⟨h.input, h.output⟩ rfl rfl rfl
  · cases hok
    exact .refl h

theorem shutdownInLoop_yields (h : c.Buffered) : Yields c c.shutdownInLoop False := by
  rw [shutdownInLoop_frame]
  exact .silent ⟨h.input, h.output⟩ rfl rfl

theorem shutdown_yields (h : c.Buffered) (inLoopThread : Bool) :
    Yields c (c.shutdown inLoopThread) False := by
  rw [shutdown]
  split
  · dsimp only
    split
    · rw [shutdownInLoop_frame]
      exact .silent ⟨h.input, h.output⟩ rfl rfl
    · exact .queue ⟨h.input, h.output⟩ rfl rfl rfl
  · exact .refl h

theorem forceClose_yields (h : c.Buffered) : Yields c c.forceClose False := by
  rw [forceClose]
  split
  · exact .queue ⟨h.input, h.output⟩ rfl rfl rfl
  · exact .refl h

theorem forceCloseWithDelay_yields (h : c.Buffered) : Yields c c.forceCloseWithDelay False := by
  rw [forceCloseWithDelay]
  split
  · exact .silent ⟨h.input, h.output⟩ rfl rfl
  · exact .refl h

theorem startReadInLoop_yields (h : c.Buffered) : Yields c c.startReadInLoop False := by
  rw [startReadInLoop]
  split
  · exact .silent ⟨h.input, h.output⟩ rfl rfl
  · exact .refl h

theorem stopReadInLoop_yields (h : c.Buffered) : Yields c c.stopReadInLoop False := by
  rw [stopReadInLoop]
  split
  · exact .silent ⟨h.input, h.output⟩ rfl rfl
  · exact .refl h

theorem startRead_yields (h : c.Buffered) (inLoopThread : Bool) :
    Yields c (c.startRead inLoopThread) False := by
  rw [startRead]
  split
  · exact startReadInLoop_yields h
  · exact .queue ⟨h.input, h.output⟩ rfl rfl rfl

theorem stopRead_yields (h : c.Buffered) (inLoopThread : Bool) :
    Yields c (c.stopRead inLoopThread) False := by
  rw [stopRead]
  split
  · exact stopReadInLoop_yields h
  · exact .queue ⟨h.input, h.output⟩ rfl rfl rfl

theorem handleClose_yields (h : c.Buffered) (hok : c.handleClose = .ok t) : Yields c t True := by
  obtain ⟨_, hok⟩ := assert_bind_ok.mp hok
  cases hok
  refine ⟨⟨h.input, h.output⟩, ⟨[], (List.append_nil _).symm, List.forall_mem_nil _⟩,
    fun _ => ?_, fun hn => absurd trivial hn⟩
  simp [closes, connectionCallback, closeCallback, setState]

theorem handleRead_yields (h : c.Buffered) {r : ReadResult} (hok : c.handleRead r = .ok t) :
    Yields c t (r = .data []) := by
  cases r with
  | failed errno =>
    cases hok
    exact (Yields.refl h).congr (by simp)
  | data bytes =>
    obtain ⟨b, hb, hi, _⟩ := Buffer.readFd_spec h.input bytes
    simp only [handleRead, hb, ok_bind] at hok
    cases bytes with
    | nil =>
      have hy := handleClose_yields (c := { c with inputBuffer := b }) ⟨hi, h.output⟩ hok
      exact ⟨hy.buffered, hy.queued, fun _ => hy.closes trivial, fun hn => absurd rfl hn⟩
    | cons x xs =>
      cases hok
      have hy : Yields c ({ c with inputBuffer := b }).messageCallback False := by
        refine .silent ⟨hi, h.output⟩ rfl ?_
        simp [closes, messageCallback]
      exact hy.congr (by simp)

theorem handleWrite_yields (h : c.Buffered) {w : WriteResult} (hw : c.channel.isWriting = true →
      ∃ n, w = .accepted n ∧ 1 ≤ n ∧ n ≤ c.outputBuffer.readableBytes)
    (hok : c.handleWrite w = .ok t) : Yields c t False := by
  cases hc : c.channel.writing with
  | false =>
    cases hok.symm.trans (handleWrite_idle hc w)
    exact .refl h
  | true =>
    obtain ⟨n, rfl, hn, hle⟩ := hw hc
    obtain ⟨t', hok', hd⟩ := handleWrite_spec h.output hc hn hle
    cases hok.symm.trans hok'
    have hc : t.closes = c.closes := congrArg (List.count Callback.close) hd.callbacks
    exact ⟨⟨hd.input ▸ h.input, hd.inv⟩, hd.queued.lifeless, False.elim, fun _ => hc⟩

theorem connectEstablished_yields (h : c.Buffered) (hok : c.connectEstablished = .ok t) :
    Yields c t False := by
  obtain ⟨_, hok⟩ := assert_bind_ok.mp hok
  cases hok
  refine .silent ⟨h.input, h.output⟩ rfl ?_
  simp [closes, connectionCallback, setState]

theorem connectDestroyed_yields (h : c.Buffered) (hok : c.connectDestroyed = .ok t) :
    Yields c t False := by
  obtain ⟨ch, _, hok⟩ := bind_ok.mp hok
  split at hok
  · cases hok
    refine .silent ⟨h.input, h.output⟩ rfl ?_
    simp [closes, connectionCallback, setState]
  · cases hok
    exact .silent ⟨h.input, h.output⟩ rfl rfl

/-- The functor goes into `handleClose`. -/
def closesBy (c : TcpConnection) : Functor → Prop
  | .forceCloseInLoop => c.state = .kConnected ∨ c.state = .kDisconnecting
  | .writeCompleteCallback | .highWaterMarkCallback _ | .sendInLoop .. | .shutdownInLoop
  | .startReadInLoop | .stopReadInLoop | .connectEstablished | .connectDestroyed => False

theorem runFunctor_yields (h : c.Buffered) {f : Functor} {w : WriteResult}
    (hw : ∀ m data len, f = .sendInLoop m data len → w.Within 0 len)
    (hok : c.runFunctor w f = .ok t) : Yields c t (c.closesBy f) := by
  cases f with
  | writeCompleteCallback =>
    cases hok
    exact .refl h
  | highWaterMarkCallback len =>
    cases hok
    exact .refl h
  | sendInLoop m data len => exact sendInLoop_yields h (hw m data len rfl) hok
  | shutdownInLoop =>
    cases hok
    exact shutdownInLoop_yields h
  | forceCloseInLoop =>
    rw [runFunctor, forceCloseInLoop] at hok
    split at hok
    · next hu => exact (handleClose_yields h hok).congr (by simp [closesBy, hu])
    · next hu =>
      cases hok
      exact (Yields.refl h).congr (by simpa [closesBy] using hu)
  | startReadInLoop =>
    cases hok
    exact startReadInLoop_yields h
  | stopReadInLoop =>
    cases hok
    exact stopReadInLoop_yields h
  | connectEstablished => exact connectEstablished_yields h hok
  | connectDestroyed => exact connectDestroyed_yields h hok

end Muduo.Net.TcpConnection
