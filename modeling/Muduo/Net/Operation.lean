import Muduo.Net.TcpConnection

/-! The operations of a connection, asked by the user, its loop or its poller, and what
comes of each. -/
namespace Muduo.Net
open Muduo.Support

inductive Operation where
  | send (inLoopThread : Bool) (m : Memory) (data : Int) (len : Nat) (w : WriteResult)
  | handleRead (r : ReadResult)
  | handleWrite (w : WriteResult)
  | handleClose
  | shutdown (inLoopThread : Bool)
  | forceClose | forceCloseWithDelay
  | startRead (inLoopThread : Bool)
  | stopRead (inLoopThread : Bool)
  /-- The loop runs a functor; `w` answers a `write` it makes. -/
  | runFunctor (f : Functor) (w : WriteResult)

def Operation.apply (c : TcpConnection) : Operation → Except Fault TcpConnection
  | .send inLoopThread m data len w => c.send inLoopThread m data len w
  | .handleRead r => c.handleRead r
  | .handleWrite w => c.handleWrite w
  | .handleClose => c.handleClose
  | .shutdown inLoopThread => return c.shutdown inLoopThread
  | .forceClose => return c.forceClose
  | .forceCloseWithDelay => return c.forceCloseWithDelay
  | .startRead inLoopThread => return c.startRead inLoopThread
  | .stopRead inLoopThread => return c.stopRead inLoopThread
  | .runFunctor f w => c.runFunctor w f

/-- `connectDestroyed` is the one operation that calls `channel_->remove()`. -/
def Operation.removesChannel : Operation → Bool
  | .runFunctor .connectDestroyed _ => true
  | _ => false

def Functor.isWriteComplete : Functor → Bool
  | .writeCompleteCallback => true
  | .highWaterMarkCallback _ | .sendInLoop .. | .shutdownInLoop | .forceCloseInLoop
  | .startReadInLoop | .stopReadInLoop | .connectEstablished | .connectDestroyed => false

/-- The `size_t` that `handleWrite` stores. -/
def WriteResult.count : WriteResult → Nat
  | .accepted n => n
  | .failed _ => 0xFFFFFFFFFFFFFFFF

/-- A direct write of `len` bytes takes them all. -/
def TcpConnection.WritesAll (c : TcpConnection) (len : Nat) (w : WriteResult) : Prop :=
  c.writesDirectly = true ∧ ∃ n, w = .accepted n ∧ len ≤ n

/-- The operation writes what is left of the output. -/
def Operation.CompletesOutput (c : TcpConnection) : Operation → Prop
  | .send inLoopThread _ _ len w =>
      inLoopThread = true ∧ c.state = .kConnected ∧ c.WritesAll len w
  | .runFunctor (.sendInLoop _ _ len) w => c.state ≠ .kDisconnected ∧ c.WritesAll len w
  | .handleWrite w => c.channel.isWriting = true ∧ 0 < w.count ∧
      w.count = c.outputBuffer.readableBytes
  | _ => False

namespace TcpConnection

/-- What every operation keeps. The write-complete callback stays wired, and is queued if
`p`; a connection that is down stays down, and reaches its close callback only as it goes
down. -/
structure Outcome (c c' : TcpConnection) (p : Prop) : Prop where
  wired : c'.writeCompleteCallback = c.writeCompleteCallback
  queued : .writeCompleteCallback ∈ c'.queued ↔
    .writeCompleteCallback ∈ c.queued ∨ c.writeCompleteCallback = true ∧ p
  down : c.state = .kDisconnected → c'.state = .kDisconnected
  closes : c.callbacks.count .close < c'.callbacks.count .close →
    c.state ≠ .kDisconnected ∧ c'.state = .kDisconnected

/-- What every operation but `connectDestroyed` keeps: the channel stays in the loop. -/
structure Stays (c c' : TcpConnection) (p : Prop) : Prop extends Outcome c c' p where
  added : c.channel.addedToLoop = true → c'.channel.addedToLoop = true

variable {c c' d : TcpConnection} {p q : Prop}

/-- Operations that touch neither the callbacks nor the queue. -/
theorem Outcome.of_eq (hw : c'.writeCompleteCallback = c.writeCompleteCallback)
    (hq : c'.queued = c.queued) (hs : c.state = .kDisconnected → c'.state = .kDisconnected)
    (hc : c'.callbacks.count .close = c.callbacks.count .close) : Outcome c c' False :=
  ⟨hw, by simp [hq], hs, fun hlt => absurd hlt (by rw [hc]; exact Nat.lt_irrefl _)⟩

theorem Outcome.closes_trans (h : Outcome c c' p) (h' : Outcome c' d q)
    (hlt : c.callbacks.count .close < d.callbacks.count .close) :
    c.state ≠ .kDisconnected ∧ d.state = .kDisconnected := by
  by_cases hfirst : c.callbacks.count .close < c'.callbacks.count .close
  · exact ⟨(h.closes hfirst).1, h'.down (h.closes hfirst).2⟩
  · obtain ⟨hup, hdown⟩ := h'.closes (by omega)
    exact ⟨fun hc => hup (h.down hc), hdown⟩

theorem Stays.of_eq (hw : c'.writeCompleteCallback = c.writeCompleteCallback)
    (hq : c'.queued = c.queued) (hs : c.state = .kDisconnected → c'.state = .kDisconnected)
    (hc : c'.callbacks.count .close = c.callbacks.count .close)
    (ha : c.channel.addedToLoop = true → c'.channel.addedToLoop = true) : Stays c c' False :=
  ⟨.of_eq hw hq hs hc, ha⟩

theorem Stays.congr (h : Stays c c' p) (hpq : p ↔ q) : Stays c c' q :=
  ⟨⟨h.wired, by rw [h.queued, hpq], h.down, h.closes⟩, h.added⟩

theorem Stays.refl (hp : ¬ p) : Stays c c p :=
  (of_eq rfl rfl id rfl id).congr (iff_of_false id hp)

theorem Stays.trans (h : Stays c c' p) (h' : Stays c' d False) : Stays c d p :=
  ⟨⟨h'.wired.trans h.wired, by rw [h'.queued, h.queued]; simp, h'.down ∘ h.down,
    h.closes_trans h'.toOutcome⟩, h'.added ∘ h.added⟩

theorem Stays.after (h : Stays c c' False) (h' : Stays c' d p) : Stays c d p :=
  ⟨⟨h'.wired.trans h.wired, by rw [h'.queued, h.queued, h.wired]; simp, h'.down ∘ h.down,
    h.closes_trans h'.toOutcome⟩, h'.added ∘ h.added⟩

theorem Stays.queueInLoop {f : Functor} (hf : f.isWriteComplete = false) :
    Stays c (c.queueInLoop f) False := by
  have hne : Functor.writeCompleteCallback ≠ f := by
    intro h
    rw [← h] at hf
    cases hf
  exact ⟨⟨rfl, by simp [TcpConnection.queueInLoop, hne], id,
    fun hlt => absurd hlt (Nat.lt_irrefl _)⟩, id⟩

theorem Stays.writeComplete [Decidable p] : Stays c
    (if p ∧ c.writeCompleteCallback then c.queueInLoop .writeCompleteCallback else c) p := by
  split
  · next h =>
    exact ⟨⟨rfl, by simp [TcpConnection.queueInLoop, h], id,
      fun hlt => absurd hlt (Nat.lt_irrefl _)⟩, id⟩
  · next h =>
    refine ⟨⟨rfl, ?_, id, fun hlt => absurd hlt (Nat.lt_irrefl _)⟩, id⟩
    rw [or_iff_left]
    exact fun hp => h ⟨hp.2, hp.1⟩

theorem up_ne (hs : c.state = .kConnected ∨ c.state = .kDisconnecting) :
    c.state ≠ .kDisconnected := by
  rcases hs with hs | hs <;> simp [hs]

/-- `setState(kDisconnecting)` of a connection that is up. -/
theorem Stays.disconnecting (hc : c.state ≠ .kDisconnected) :
    Stays c (c.setState .kDisconnecting) False := .of_eq rfl rfl (fun h => absurd h hc) rfl id

theorem noteHighWaterMark_stays (remaining : Nat) :
    Stays c (c.noteHighWaterMark remaining) False := by
  unfold noteHighWaterMark
  dsimp only
  split
  · exact .queueInLoop rfl
  · exact .refl id

theorem bufferRest_stays {m : Memory} {data nwrote : Int} {remaining : Nat}
    (h : c.bufferRest m data nwrote remaining = .ok c') : Stays c c' False := by
  obtain ⟨b, _, h⟩ := bind_ok.mp h
  dsimp only at h
  refine (noteHighWaterMark_stays remaining).trans ?_
  split at h
  · cases h
    exact .of_eq rfl rfl id rfl fun _ => rfl
  · cases h
    exact .of_eq rfl rfl id rfl id

theorem writeDirectly_stays (m : Memory) (data : Int) (len : Nat) (w : WriteResult) :
    Stays c (c.writeDirectly m data len w).1 (∃ n, w = .accepted n ∧ len ≤ n) := by
  cases w with
  | accepted n =>
    have hall : len - n = 0 ↔ ∃ k, WriteResult.accepted n = .accepted k ∧ len ≤ k := by
      simp [Nat.sub_eq_zero_iff_le]
    have hw : Stays c (c.written (m.bytes data n)) False := .of_eq rfl rfl id rfl id
    exact (hw.after .writeComplete).congr hall
  | failed errno => exact .refl (by simp)

theorem sendInLoop_stays {m : Memory} {data : Int} {len : Nat} {w : WriteResult}
    (h : c.sendInLoop m data len w = .ok c') :
    Stays c c' (c.state ≠ .kDisconnected ∧ c.WritesAll len w) := by
  have finish : ∀ {d : TcpConnection} {nwrote : Int} {remaining : Nat} {faultError : Bool},
      (do
        assert (remaining ≤ len)
        if !faultError && remaining > 0 then d.bufferRest m data nwrote remaining
        else return d) = Except.ok c' → Stays d c' False := by
    intro d nwrote remaining faultError hok
    obtain ⟨_, hok⟩ := assert_bind_ok.mp hok
    split at hok
    · exact bufferRest_stays hok
    · cases hok
      exact .refl id
  unfold sendInLoop at h
  by_cases hs : c.state = .kDisconnected
  · rw [if_pos hs] at h
    cases h
    exact .refl fun hp => hp.1 hs
  rw [if_neg hs] at h
  by_cases hd : c.writesDirectly = true
  · rw [if_pos hd] at h
    refine ((writeDirectly_stays m data len w).trans (finish h)).congr ?_
    simp [WritesAll, hs, hd]
  · rw [if_neg hd] at h
    exact (finish h).congr (iff_of_false id fun hp => hd hp.2.1)

theorem shutdownInLoop_stays : Stays c c.shutdownInLoop False := by
  unfold shutdownInLoop
  dsimp only
  split <;> exact .of_eq rfl rfl id rfl id

theorem outputDrained_stays : Stays c c.outputDrained True := by
  have hend : ∀ d : TcpConnection,
      Stays d (if d.state = .kDisconnecting then d.shutdownInLoop else d) False := by
    intro d
    split
    · exact shutdownInLoop_stays
    · exact .refl id
  have hchannel : Stays c { c with channel := c.channel.disableWriting } False :=
    .of_eq rfl rfl id rfl fun _ => rfl
  have hcall := (hchannel.after (.writeComplete (p := True))).trans (hend _)
  simp only [true_and] at hcall
  exact hcall

theorem retrieve_empties {b b' : Buffer} {n : Nat} (h : b.retrieve n = .ok b') :
    b'.readableBytes = 0 ↔ n = b.readableBytes := by
  obtain ⟨hle, h⟩ := assert_bind_ok.mp h
  split at h
  · cases h
    simp only [Buffer.readableBytes] at *
    omega
  · cases h
    simp only [Buffer.readableBytes, Buffer.retrieveAll] at *
    omega

theorem handleWritten_stays {n : Nat} (h : c.handleWritten n = .ok c') :
    Stays c c' (0 < n ∧ n = c.outputBuffer.readableBytes) := by
  unfold handleWritten at h
  split at h
  · next hn =>
    obtain ⟨b, hb, h⟩ := bind_ok.mp h
    have hempty := retrieve_empties hb
    have hkeep : Stays c { c with outputBuffer := b } False := .of_eq rfl rfl id rfl id
    cases h
    dsimp only
    split
    · next hz =>
      exact (hkeep.after outputDrained_stays).congr (iff_of_true trivial ⟨hn, hempty.mp hz⟩)
    · next hz => exact hkeep.congr (iff_of_false id fun hp => hz (hempty.mpr hp.2))
  · next hn =>
    cases h
    exact .refl fun hp => hn hp.1

theorem handleWrite_stays {w : WriteResult} (h : c.handleWrite w = .ok c') :
    Stays c c' (Operation.CompletesOutput c (.handleWrite w)) := by
  unfold handleWrite at h
  split at h
  · next hw =>
    cases w with
    | accepted n =>
      have hwritten : Stays c (c.written (c.outputBuffer.readable.take n)) False :=
        .of_eq rfl rfl id rfl id
      exact (hwritten.after (handleWritten_stays h)).congr (iff_and_self.mpr fun _ => hw)
    | failed errno => exact (handleWritten_stays h).congr (iff_and_self.mpr fun _ => hw)
  · next hw =>
    cases h
    exact .refl fun hp => hw hp.1

theorem handleClose_stays (h : c.handleClose = .ok c') : Stays c c' False := by
  obtain ⟨hup, h⟩ := assert_bind_ok.mp h
  cases h
  refine ⟨⟨rfl, ?_, fun _ => rfl, fun _ => ⟨?_, rfl⟩⟩, fun _ => rfl⟩
  · simp [closeCallback, connectionCallback, setState]
  · exact up_ne hup

theorem handleRead_stays {r : ReadResult} (h : c.handleRead r = .ok c') :
    Stays c c' False := by
  obtain ⟨b, _, h⟩ := bind_ok.mp h
  have hread : Stays c { c with inputBuffer := b } False := .of_eq rfl rfl id rfl id
  dsimp only at h
  split at h
  · exact hread.trans (handleClose_stays h)
  · cases h
    exact .of_eq rfl rfl id (by simp [messageCallback]) id
  · cases h
    exact hread

theorem shutdown_stays (inLoopThread : Bool) : Stays c (c.shutdown inLoopThread) False := by
  unfold shutdown
  split
  · next hs =>
    have hstate := Stays.disconnecting (c := c) (by simp [hs])
    dsimp only
    split
    · exact hstate.trans shutdownInLoop_stays
    · exact hstate.trans (.queueInLoop rfl)
  · exact .refl id

theorem forceClose_stays : Stays c c.forceClose False := by
  unfold forceClose
  split
  · next hs => exact (Stays.disconnecting (up_ne hs)).trans (.queueInLoop rfl)
  · exact .refl id

theorem forceCloseInLoop_stays (h : c.forceCloseInLoop = .ok c') : Stays c c' False := by
  unfold forceCloseInLoop at h
  split at h
  · exact handleClose_stays h
  · cases h
    exact .refl id

theorem forceCloseWithDelay_stays : Stays c c.forceCloseWithDelay False := by
  unfold forceCloseWithDelay
  split
  · next hs => exact (Stays.disconnecting (up_ne hs)).trans (.of_eq rfl rfl id rfl id)
  · exact .refl id

theorem startReadInLoop_stays : Stays c c.startReadInLoop False := by
  unfold startReadInLoop
  split
  · exact .of_eq rfl rfl id rfl fun _ => rfl
  · exact .refl id

theorem stopReadInLoop_stays : Stays c c.stopReadInLoop False := by
  unfold stopReadInLoop
  split
  · exact .of_eq rfl rfl id rfl fun _ => rfl
  · exact .refl id

theorem startRead_stays (inLoopThread : Bool) :
    Stays c (c.startRead inLoopThread) False := by
  cases inLoopThread with
  | true => exact startReadInLoop_stays
  | false => exact .queueInLoop rfl

theorem stopRead_stays (inLoopThread : Bool) : Stays c (c.stopRead inLoopThread) False := by
  cases inLoopThread with
  | true => exact stopReadInLoop_stays
  | false => exact .queueInLoop rfl

theorem send_stays {inLoopThread : Bool} {m : Memory} {data : Int} {len : Nat} {w : WriteResult}
    (h : c.send inLoopThread m data len w = .ok c') :
    Stays c c' (Operation.CompletesOutput c (.send inLoopThread m data len w)) := by
  unfold send at h
  split at h
  · next hs =>
    split at h
    · next hin =>
      refine (sendInLoop_stays h).congr ?_
      simp [Operation.CompletesOutput, hs, hin]
    · next hout =>
      have hqueue : Stays c (c.queueInLoop (.sendInLoop m data len)) False := .queueInLoop rfl
      cases h
      exact hqueue.congr (iff_of_false id fun hp => hout hp.1)
  · next hs =>
    cases h
    exact .refl fun hp => hs hp.2.1

theorem connectEstablished_stays (h : c.connectEstablished = .ok c') : Stays c c' False := by
  obtain ⟨hs, h⟩ := assert_bind_ok.mp h
  cases h
  refine .of_eq rfl rfl (fun hdown => ?_) (by simp [connectionCallback, setState]) fun _ => rfl
  rw [hs] at hdown
  cases hdown

theorem connectDestroyed_outcome (h : c.connectDestroyed = .ok c') : Outcome c c' False := by
  obtain ⟨_, _, h⟩ := bind_ok.mp h
  cases h
  split
  · exact .of_eq rfl rfl (fun _ => rfl) (by simp [connectionCallback, setState])
  · exact .of_eq rfl rfl id rfl

theorem runFunctor_stays {f : Functor} {w : WriteResult}
    (hf : Operation.removesChannel (.runFunctor f w) = false) (h : c.runFunctor w f = .ok c') :
    Stays c c' (Operation.CompletesOutput c (.runFunctor f w)) := by
  cases f with
  | writeCompleteCallback | highWaterMarkCallback =>
    cases h
    exact .refl id
  | sendInLoop m data len => exact sendInLoop_stays h
  | shutdownInLoop =>
    cases h
    exact shutdownInLoop_stays
  | forceCloseInLoop => exact forceCloseInLoop_stays h
  | startReadInLoop =>
    cases h
    exact startReadInLoop_stays
  | stopReadInLoop =>
    cases h
    exact stopReadInLoop_stays
  | connectEstablished => exact connectEstablished_stays h
  | connectDestroyed => cases hf

end TcpConnection

theorem Operation.apply_stays {c c' : TcpConnection} {o : Operation} (ho : o.removesChannel = false)
    (h : o.apply c = .ok c') : c.Stays c' (o.CompletesOutput c) := by
  cases o with
  | send inLoopThread m data len w => exact TcpConnection.send_stays h
  | handleRead r => exact TcpConnection.handleRead_stays h
  | handleWrite w => exact TcpConnection.handleWrite_stays h
  | handleClose => exact TcpConnection.handleClose_stays h
  | shutdown inLoopThread =>
    cases h
    exact TcpConnection.shutdown_stays inLoopThread
  | forceClose =>
    cases h
    exact TcpConnection.forceClose_stays
  | forceCloseWithDelay =>
    cases h
    exact TcpConnection.forceCloseWithDelay_stays
  | startRead inLoopThread =>
    cases h
    exact TcpConnection.startRead_stays inLoopThread
  | stopRead inLoopThread =>
    cases h
    exact TcpConnection.stopRead_stays inLoopThread
  | runFunctor f w => exact TcpConnection.runFunctor_stays ho h

/-- An operation queues the write-complete callback exactly when there is one and the
operation writes what is left of the output. -/
theorem Operation.apply_outcome {c c' : TcpConnection} {o : Operation} (h : o.apply c = .ok c') :
    c.Outcome c' (o.CompletesOutput c) := by
  cases ho : o.removesChannel with
  | false => exact (Operation.apply_stays ho h).toOutcome
  | true =>
    unfold Operation.removesChannel at ho
    split at ho
    · exact TcpConnection.connectDestroyed_outcome h
    · cases ho

end Muduo.Net
