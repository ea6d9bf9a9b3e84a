import Muduo.Net.TcpConnection

/-! When a connection is interested in writing, and when it half-closes. -/
namespace Muduo.Net.WriteInterest
open Muduo.Support

/-- What the loop thread may do to a connection. A delayed `forceClose` is a later
`forceClose`; the functor of either runs at any later time. -/
inductive LoopStep where
  | connectEstablished
  | sendInLoop (m : Memory) (data : Int) (len : Nat) (w : WriteResult)
  | handleWrite (w : WriteResult)
  | shutdown | forceClose | forceCloseWithDelay | forceCloseInLoop
  | startRead | stopRead
  | handleRead (r : ReadResult)
  | handleClose

/-- Only the kernel's answers are constrained. -/
def enabled (c : TcpConnection) : LoopStep → Prop
  | .sendInLoop _ _ len w => w.Within 0 len
  | .handleWrite w => c.channel.isWriting = true →
      ∃ n, w = .accepted n ∧ 1 ≤ n ∧ n ≤ c.outputBuffer.readableBytes
  | _ => True

def step (c : TcpConnection) : LoopStep → Except Fault TcpConnection
  | .connectEstablished => c.connectEstablished
  | .sendInLoop m data len w => c.sendInLoop m data len w
  | .handleWrite w => c.handleWrite w
  | .shutdown => return c.shutdown true
  | .forceClose => return c.forceClose
  | .forceCloseWithDelay => return c.forceCloseWithDelay
  | .forceCloseInLoop => c.forceCloseInLoop
  | .startRead => return c.startRead true
  | .stopRead => return c.stopRead true
  | .handleRead r => c.handleRead r
  | .handleClose => c.handleClose

def machine : Machine TcpConnection LoopStep := ⟨enabled, step⟩

instance enabledDecidable (c : TcpConnection) : (a : LoopStep) → Decidable (machine.enabled c a)
  | .sendInLoop _ _ len w => inferInstanceAs (Decidable (w.Within 0 len))
  | .handleWrite w => inferInstanceAs (Decidable (c.channel.isWriting = true →
      ∃ n, w = .accepted n ∧ 1 ≤ n ∧ n ≤ c.outputBuffer.readableBytes))
  | .connectEstablished | .shutdown | .forceClose | .forceCloseWithDelay | .forceCloseInLoop
  | .startRead | .stopRead | .handleRead _ | .handleClose => inferInstanceAs (Decidable True)

structure Interested (c : TcpConnection) : Prop where
  buffer : c.outputBuffer.Inv
  interest : c.state ≠ .kDisconnected → (c.channel.writing = true ↔ c.outputBuffer.readable ≠ [])
  down : c.state = .kDisconnected → c.channel.writing = false
  empty : ∀ rest ∈ c.socket.shutdownWrites, rest = []
  ran : 0 < c.shutdownInLoopRuns → c.state = .kDisconnecting ∨ c.state = .kDisconnected
  issued : 0 < c.shutdownInLoopRuns → c.state = .kDisconnecting →
    c.outputBuffer.readable = [] → c.socket.shutdownWrites ≠ []

variable {c c' : TcpConnection}

theorem new_interested (writeComplete highWater : Bool) (mark : Nat) :
    Interested (.new writeComplete highWater mark) where
  buffer := Buffer.new_inv _
  interest := fun _ => by simp [TcpConnection.new, Channel.new]
  down := fun h => nomatch h
  empty := fun _ h => nomatch h
  ran := fun h => nomatch h
  issued := fun h => nomatch h

/-- The output side is untouched, and the state moves only before any half-close. -/
structure SameOutput (c c' : TcpConnection) : Prop where
  buffer : c'.outputBuffer = c.outputBuffer
  writing : c'.channel.writing = c.channel.writing
  socket : c'.socket = c.socket
  runs : c'.shutdownInLoopRuns = c.shutdownInLoopRuns
  state : c'.state = c.state ∨
    (c'.state ≠ .kDisconnected ∧ (c.state = .kConnecting ∨ c.state = .kConnected))

theorem Interested.same (h : Interested c) (hs : SameOutput c c') : Interested c' := by
  have hstate : 0 < c.shutdownInLoopRuns → c'.state = c.state := by
    intro hr
    rcases hs.state with he | ⟨_, hc⟩
    · exact he
    · rcases h.ran hr with hd | hd <;> rw [hd] at hc <;> simp at hc
  constructor
  case buffer => rw [hs.buffer]; exact h.buffer
  case interest =>
    intro hl
    rw [hs.buffer, hs.writing]
    apply h.interest
    rcases hs.state with he | ⟨_, hc⟩
    · rw [← he]
      exact hl
    · rcases hc with hc | hc <;> rw [hc] <;> decide
  case down =>
    intro hd
    rw [hs.writing]
    rcases hs.state with he | ⟨hl, _⟩
    · exact h.down (by rw [← he]; exact hd)
    · exact absurd hd hl
  case empty => rw [hs.socket]; exact h.empty
  case ran =>
    rw [hs.runs]
    intro hr
    rw [hstate hr]
    exact h.ran hr
  case issued =>
    rw [hs.runs, hs.buffer, hs.socket]
    intro hr hd
    exact h.issued hr (by rw [← hstate hr]; exact hd)

theorem Interested.sent {wrote pended : Bytes} (h : Interested c)
    (hd : c.state = .kDisconnected → pended = []) (hs : TcpConnection.Sent c c' wrote pended) :
    Interested c' := by
  constructor
  case buffer => exact hs.inv
  case interest =>
    intro hl
    rw [hs.state] at hl
    rw [hs.writing, hs.readable, Bool.or_eq_true, h.interest hl]
    cases pended <;> simp
  case down =>
    intro hx
    rw [hs.state] at hx
    rw [hs.writing, h.down hx, hd hx]
    rfl
  case empty => rw [hs.shutdownWrites]; exact h.empty
  case ran => rw [hs.runs, hs.state]; exact h.ran
  case issued =>
    rw [hs.runs, hs.state, hs.readable, hs.shutdownWrites]
    intro hr hx he
    exact h.issued hr hx (List.append_eq_nil_iff.mp he).1

theorem Interested.drained {n : Nat} (h : Interested c) (hw : c.channel.writing = true)
    (hd : TcpConnection.Drained c c' n) : Interested c' := by
  have hlive : c.state ≠ .kDisconnected := by
    intro hx
    rw [h.down hx] at hw
    cases hw
  have hne := (h.interest hlive).mp hw
  constructor
  case buffer => exact hd.inv
  case interest => exact fun _ => hd.writing
  case down => exact fun hx => absurd (hd.state ▸ hx) hlive
  case empty =>
    rcases hd.closes with ⟨_, _, hs, _⟩ | ⟨_, hs, _⟩
    · rw [hs]
      intro rest hr
      rcases List.mem_append.mp hr with hr | hr
      · exact h.empty rest hr
      · exact List.mem_singleton.mp hr
    · rw [hs]
      exact h.empty
  case ran =>
    rw [hd.state]
    rcases hd.closes with ⟨_, hx, _⟩ | ⟨_, _, hr⟩
    · exact fun _ => .inl hx
    · rw [hr]
      exact h.ran
  case issued =>
    rw [hd.state]
    rcases hd.closes with ⟨_, _, hs, _⟩ | ⟨hor, _, _⟩
    · intro _ _ _
      rw [hs]
      simp
    · intro _ hx he
      rcases hor with hne' | hns
      · exact absurd he hne'
      · exact absurd hx hns

theorem Interested.closed (h : Interested c) (hok : c.handleClose = .ok c') : Interested c' := by
  obtain ⟨_, hok⟩ := assert_bind_ok.mp hok
  cases hok
  exact ⟨h.buffer, fun hl => absurd rfl hl, fun _ => rfl, h.empty, fun _ => .inr rfl,
    fun _ hx => nomatch hx⟩

/-- In the loop thread `shutdown()` runs its functor at once: with nothing pending it
half-closes, otherwise the last `handleWrite` will. -/
theorem Interested.shutdown (h : Interested c) : Interested (c.shutdown true) := by
  rw [TcpConnection.shutdown]
  split
  · rename_i hc
    have hi := h.interest (by rw [hc]; decide)
    cases hw : c.channel.writing with
    | true =>
      have hne := hi.mp hw
      constructor <;> simp [TcpConnection.shutdownInLoop, TcpConnection.setState, Channel.isWriting,
        hw, hne, h.buffer]
      exact h.empty
    | false =>
      have he : c.outputBuffer.readable = [] := by
        by_contra hne
        rw [hi.mpr hne] at hw
        cases hw
      constructor <;> simp [TcpConnection.shutdownInLoop, TcpConnection.setState, Channel.isWriting,
        TcpConnection.shutdownWrite, hw, he, h.buffer, or_imp]
      exact h.empty
  · exact h

theorem forceClose_same (c : TcpConnection) : SameOutput c c.forceClose := by
  rw [TcpConnection.forceClose]
  split
  · rename_i hc
    refine ⟨rfl, rfl, rfl, rfl, ?_⟩
    rcases hc with hc | hc
    · exact .inr ⟨(fun hx => nomatch hx), .inr hc⟩
    · exact .inl hc.symm
  · exact ⟨rfl, rfl, rfl, rfl, .inl rfl⟩

theorem forceCloseWithDelay_same (c : TcpConnection) : SameOutput c c.forceCloseWithDelay := by
  rw [TcpConnection.forceCloseWithDelay]
  split
  · rename_i hc
    refine ⟨rfl, rfl, rfl, rfl, ?_⟩
    rcases hc with hc | hc
    · exact .inr ⟨(fun hx => nomatch hx), .inr hc⟩
    · exact .inl hc.symm
  · exact ⟨rfl, rfl, rfl, rfl, .inl rfl⟩

theorem startRead_same (c : TcpConnection) : SameOutput c (c.startRead true) := by
  rw [TcpConnection.startRead, if_pos rfl, TcpConnection.startReadInLoop]
  split <;> exact ⟨rfl, rfl, rfl, rfl, .inl rfl⟩

theorem stopRead_same (c : TcpConnection) : SameOutput c (c.stopRead true) := by
  rw [TcpConnection.stopRead, if_pos rfl, TcpConnection.stopReadInLoop]
  split <;> exact ⟨rfl, rfl, rfl, rfl, .inl rfl⟩

/-- A read either reports data or closes the connection. -/
theorem Interested.read (h : Interested c) {r : ReadResult} (hok : c.handleRead r = .ok c') :
    Interested c' := by
  obtain ⟨b, _, hok⟩ := bind_ok.mp hok
  have hb : Interested { c with inputBuffer := b } := h.same ⟨rfl, rfl, rfl, rfl, .inl rfl⟩
  match r, hok with
  | .data [], hok => exact hb.closed hok
  | .data (_ :: _), hok =>
    cases hok
    exact hb.same ⟨rfl, rfl, rfl, rfl, .inl rfl⟩
  | .failed _, hok =>
    cases hok
    exact hb

theorem step_keep (c : TcpConnection) (a : LoopStep) (c' : TcpConnection) (h : Interested c)
    (he : machine.enabled c a) (hok : machine.step c a = .ok c') : Interested c' := by
  cases a with
  | connectEstablished =>
    obtain ⟨hc, hok⟩ := assert_bind_ok.mp hok
    cases hok
    exact h.same ⟨rfl, rfl, rfl, rfl, .inr ⟨(fun hx => nomatch hx), .inl hc⟩⟩
  | sendInLoop m data len w =>
    obtain ⟨d, hd, hs⟩ := TcpConnection.sendInLoop_spec h.buffer m data len he
    simp only [machine, step, hd] at hok
    cases hok
    exact h.sent (fun hx => by simp [TcpConnection.transfer, hx]) hs
  | handleWrite w =>
    cases hw : c.channel.writing with
    | false =>
      simp only [machine, step, TcpConnection.handleWrite_idle hw] at hok
      cases hok
      exact h
    | true =>
      obtain ⟨n, rfl, hn, hle⟩ := he hw
      obtain ⟨d, hd, hs⟩ := TcpConnection.handleWrite_spec h.buffer hw hn hle
      simp only [machine, step, hd] at hok
      cases hok
      exact h.drained hw hs
  | shutdown =>
    cases hok
    exact h.shutdown
  | forceClose =>
    cases hok
    exact h.same (forceClose_same c)
  | forceCloseWithDelay =>
    cases hok
    exact h.same (forceCloseWithDelay_same c)
  | forceCloseInLoop =>
    simp only [machine, step, TcpConnection.forceCloseInLoop] at hok
    split at hok
    · exact h.closed hok
    · cases hok
      exact h
  | startRead =>
    cases hok
    exact h.same (startRead_same c)
  | stopRead =>
    cases hok
    exact h.same (stopRead_same c)
  | handleRead r => exact h.read hok
  | handleClose => exact h.closed hok

/-- While a connection is up it asks to write exactly while output is pending. So no
half-close ever overtakes pending output, and a half-close that was requested has been
issued as soon as nothing is pending. -/
theorem writing_iff_pending (writeComplete highWater : Bool) (mark : Nat) (steps : List LoopStep)
    (c : TcpConnection) (h : machine.Run (.new writeComplete highWater mark) steps c) :
    (c.state = .kConnected ∨ c.state = .kDisconnecting →
      (c.channel.isWriting = true ↔ c.outputBuffer.readable ≠ [])) ∧
    (∀ pending ∈ c.socket.shutdownWrites, pending = []) ∧
    (0 < c.shutdownInLoopRuns → c.state = .kDisconnecting → c.outputBuffer.readable = [] →
      c.socket.shutdownWrites ≠ []) := by
  have hi := h.invariant step_keep (new_interested writeComplete highWater mark)
  refine ⟨fun hc => hi.interest ?_, hi.empty, hi.issued⟩
  rcases hc with hc | hc <;> rw [hc] <;> decide

/-- Of three bytes the kernel takes one; `shutdown()` waits for the other two, and the write
that drains them issues the half-close. -/
theorem writing_iff_pending_sample : ∃ c d : TcpConnection,
    machine.Run .new [.connectEstablished, .sendInLoop (fun _ => 7) 0 3 (.accepted 1),
      .shutdown] c ∧
    c.channel.isWriting = true ∧ c.socket.shutdownWrites = [] ∧
    machine.Run .new [.connectEstablished, .sendInLoop (fun _ => 7) 0 3 (.accepted 1),
      .shutdown, .handleWrite (.accepted 2)] d ∧
    d.channel.isWriting = false ∧ d.socket.shutdownWrites ≠ [] := by
  obtain ⟨c, hc, he⟩ := machine.exists_run .new [.connectEstablished,
    .sendInLoop (fun _ => 7) 0 3 (.accepted 1), .shutdown]
    (fun c => (c.state, c.outputBuffer.readable, c.socket.shutdownWrites))
    (.kDisconnecting, [7, 7], []) (by decide +kernel)
  obtain ⟨d, hd, hf⟩ := machine.exists_run .new [.connectEstablished,
    .sendInLoop (fun _ => 7) 0 3 (.accepted 1), .shutdown, .handleWrite (.accepted 2)]
    (fun c => (c.state, c.outputBuffer.readable, c.shutdownInLoopRuns))
    (.kDisconnecting, [], 2) (by decide +kernel)
  obtain ⟨hcs, hcp⟩ := Prod.mk.inj he
  obtain ⟨hcp, hcw⟩ := Prod.mk.inj hcp
  obtain ⟨hds, hdp⟩ := Prod.mk.inj hf
  obtain ⟨hdp, hdr⟩ := Prod.mk.inj hdp
  have hpend := (writing_iff_pending false false _ _ c hc).1 (.inr hcs)
  obtain ⟨hdrained, _, hissued⟩ := writing_iff_pending false false _ _ d hd
  refine ⟨c, d, hc, hpend.mpr ?_, hcw, hd, ?_, hissued ?_ hds hdp⟩
  · rw [hcp]
    decide
  · rw [← Bool.not_eq_true, hdrained (.inr hds), hdp]
    exact fun hne => hne rfl
  · rw [hdr]
    decide

end Muduo.Net.WriteInterest
