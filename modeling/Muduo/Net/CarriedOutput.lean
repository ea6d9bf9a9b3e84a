import Muduo.Net.OutputStream

/-! A connection that has been given bytes to send, and perhaps the order to close behind
them, when no write fails. -/
namespace Muduo.Net
open Muduo.Support

/-- What the socket has taken and the buffer holds is all of `sent`; the rest is waited for;
and the stream is closed behind the last byte, if it is to be closed. -/
structure Carries (sent : Bytes) (closing : Bool) (c : TcpConnection) : Prop where
  inv : c.outputBuffer.Inv
  output : c.socket.accepted ++ c.outputBuffer.readable = sent
  writing : c.channel.writing = true ↔ c.outputBuffer.readable ≠ []
  state : c.state = if closing then .kDisconnecting else .kConnected
  shutdown : c.socket.shutdownWrites =
    if closing ∧ c.outputBuffer.readable = [] then [[]] else []

/-- `write` of the connection's buffered output takes at least a byte. -/
def Writes (c : TcpConnection) (w : WriteResult) : Prop := c.channel.isWriting = true →
  ∃ n, w = .accepted n ∧ 1 ≤ n ∧ n ≤ c.outputBuffer.readableBytes

namespace Carries
variable {sent : Bytes} {closing : Bool} {c : TcpConnection}

/-- A message of an open connection goes out behind the bytes before it. -/
theorem send (h : Carries sent false c) {m : Memory} {data : Int} {message : Bytes}
    {w : WriteResult} (hm : m.bytes data message.length = message)
    (hw : w.Within 0 message.length) (hok : ∃ n, w = .accepted n) :
    ∃ c', c.send true m data message.length w = .ok c' ∧ Carries (sent ++ message) false c' ∧
      c'.inputBuffer = c.inputBuffer ∧ c'.channel.reading = c.channel.reading := by
  have hstate : c.state = .kConnected := h.state
  obtain ⟨c', hsend, hs⟩ := TcpConnection.sendInLoop_spec h.inv m data message.length hw
  obtain ⟨n, rfl⟩ := hok
  have henabled : OutputStream.enabled ⟨c, []⟩
      (.sendInLoop m data message.length (.accepted n)) := ⟨hw, fun e he => by cases he⟩
  have hbefore : ¬ OutputStream.ReadsBefore ⟨c, []⟩
      (.sendInLoop m data message.length (.accepted n)) := by
    rintro ⟨_, ⟨e, he⟩, _⟩
    cases he
  have hlive : c.state ≠ .kDisconnected := by
    rw [hstate]
    decide
  have hmoved := (OutputStream.transfer_eq_iff hlive henabled).mpr hbefore
  have houtput := OutputStream.send_output (s := ⟨c, []⟩) h.inv _ _ _ _ hs
  rw [hmoved, hm] at houtput
  refine ⟨c', ?_, ⟨hs.inv, ?_, ?_, hs.state.trans hstate, hs.shutdownWrites.trans h.shutdown⟩,
    hs.input, hs.reads⟩
  · rw [TcpConnection.send, if_pos hstate, if_pos rfl, hsend]
  · rw [houtput, ← h.output]
    rfl
  · rw [hs.writing, hs.readable, Bool.or_eq_true, h.writing, Bool.not_eq_true',
      List.isEmpty_eq_false_iff, ← not_and_or, ne_eq, List.append_eq_nil_iff]

/-- `shutdown` closes the stream at once if all output is with the kernel. -/
theorem shut (h : Carries sent false c) : Carries sent true (c.shutdown true) := by
  have hs : c.state = .kConnected := h.state
  have hopen : c.socket.shutdownWrites = [] := h.shutdown
  by_cases hp : c.outputBuffer.readable = []
  · have hidle : c.channel.writing = false := Bool.eq_false_iff.mpr fun hw => h.writing.mp hw hp
    have hshut : c.shutdown true = { c with
        state := .kDisconnecting
        socket := ⟨c.socket.accepted, [[]]⟩
        shutdownInLoopRuns := c.shutdownInLoopRuns + 1 } := by
      simp [TcpConnection.shutdown, hs, TcpConnection.setState, TcpConnection.shutdownInLoop,
        Channel.isWriting, hidle, TcpConnection.shutdownWrite, hopen, hp]
    rw [hshut]
    exact ⟨h.inv, h.output, h.writing, rfl, (if_pos ⟨rfl, hp⟩).symm⟩
  · have hshut : c.shutdown true = { c with
        state := .kDisconnecting
        shutdownInLoopRuns := c.shutdownInLoopRuns + 1 } := by
      simp [TcpConnection.shutdown, hs, TcpConnection.setState, TcpConnection.shutdownInLoop,
        Channel.isWriting, h.writing.mpr hp]
    rw [hshut]
    exact ⟨h.inv, h.output, h.writing, rfl, hopen.trans (if_neg fun h => hp h.2).symm⟩

/-- What the connection reads and whom it tells of it. -/
theorem read (h : Carries sent closing c) (inputBuffer : Buffer) (callbacks : List Callback) :
    Carries sent closing { c with inputBuffer, callbacks } :=
  ⟨h.inv, h.output, h.writing, h.state, h.shutdown⟩

/-- A writable event sends on what is pending. -/
theorem written (h : Carries sent closing c) {w : WriteResult} (hw : Writes c w) :
    ∃ c', c.handleWrite w = .ok c' ∧ Carries sent closing c' ∧
      c'.inputBuffer = c.inputBuffer ∧ c'.channel.reading = c.channel.reading := by
  cases hwriting : c.channel.writing with
  | false => exact ⟨c, TcpConnection.handleWrite_idle hwriting w, h, rfl, rfl⟩
  | true =>
    obtain ⟨n, rfl, hn, hle⟩ := hw hwriting
    obtain ⟨c', hok, hd⟩ := TcpConnection.handleWrite_spec h.inv hwriting hn hle
    have hpending : c.outputBuffer.readable ≠ [] := h.writing.mp hwriting
    have hbefore : c.socket.shutdownWrites = [] := by
      rw [h.shutdown, if_neg fun hx => hpending hx.2]
    have hclosing : c.state = .kDisconnecting ↔ closing = true := by
      rw [h.state]
      cases closing <;> simp
    refine ⟨c', hok, ⟨hd.inv, ?_, hd.writing, hd.state.trans h.state, ?_⟩, hd.input, hd.reads⟩
    · rw [hd.accepted, hd.readable, List.append_assoc, List.take_append_drop, h.output]
    · rcases hd.closes with ⟨hempty, hstate, hshut, _⟩ | ⟨hnot, hshut, _⟩
      · rw [hshut, hbefore, if_pos ⟨hclosing.mp hstate, hempty⟩, List.nil_append]
      · rw [hshut, hbefore, if_neg]
        rintro ⟨hc, hempty⟩
        rcases hnot with hp | hs
        · exact hp hempty
        · exact hs (hclosing.mpr hc)

/-- A connection that is established. -/
theorem established {writeComplete highWater : Bool} {mark : Nat}
    (hok : (TcpConnection.new writeComplete highWater mark).connectEstablished = .ok c) :
    Carries [] false c ∧ c.inputBuffer = .new ∧ c.channel.reading = true := by
  cases hok
  have hempty : (TcpConnection.new writeComplete highWater mark).outputBuffer.readable = [] :=
    Buffer.new_readable _
  exact ⟨⟨Buffer.new_inv _, hempty, iff_of_false Bool.false_ne_true fun hp => hp hempty, rfl,
    rfl⟩, rfl, rfl⟩

end Carries
end Muduo.Net
