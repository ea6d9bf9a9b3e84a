import Muduo.Net.TcpConnection

/-! What a connection hands to the kernel, against what it was asked to send. -/
namespace Muduo.Net.OutputStream
open Muduo.Support

/-- A call in the loop thread, with the kernel's answer to its `write`. -/
inductive Call where
  | sendInLoop (m : Memory) (data : Int) (len : Nat) (w : WriteResult)
  | handleWrite (w : WriteResult)

/-- A connection and the concatenation of all messages passed to `sendInLoop`. -/
structure Stream where
  conn : TcpConnection
  passed : Bytes

/-- A direct write takes up to the whole message or fails without the peer being gone;
a write of buffered output takes at least one byte. -/
def enabled (s : Stream) : Call → Prop
  | .sendInLoop _ _ len w => w.Within 0 len ∧ ∀ e, w = .failed e → e ≠ .EPIPE ∧ e ≠ .ECONNRESET
  | .handleWrite w => s.conn.channel.isWriting = true →
      ∃ n, w = .accepted n ∧ 1 ≤ n ∧ n ≤ s.conn.outputBuffer.readableBytes

def step (s : Stream) : Call → Except Fault Stream
  | .sendInLoop m data len w => do
      return ⟨← s.conn.sendInLoop m data len w, s.passed ++ m.bytes data len⟩
  | .handleWrite w => do return { s with conn := ← s.conn.handleWrite w }

def machine : Machine Stream Call := ⟨enabled, step⟩

/-- A connection that is not down and has not been asked to send anything. -/
structure Fresh (c : TcpConnection) : Prop where
  inv : c.outputBuffer.Inv
  live : c.state ≠ .kDisconnected
  unsent : c.socket.accepted = []
  unbuffered : c.outputBuffer.readable = []

def Stream.output (s : Stream) : Bytes := s.conn.socket.accepted ++ s.conn.outputBuffer.readable

/-- The kernel has or will get exactly the bytes passed so far. -/
def Intact (s : Stream) : Prop := s.output = s.passed

/-- The defect: the direct write of this message fails, and the bytes one place in
front of the message differ from the message. -/
def ReadsBefore (s : Stream) : Call → Prop
  | .sendInLoop m data len w => s.conn.writesDirectly = true ∧ (∃ e, w = .failed e) ∧
      m.bytes (data - 1) len ≠ m.bytes data len
  | .handleWrite _ => False

private def Live (s : Stream) : Prop :=
  s.conn.outputBuffer.Inv ∧ s.conn.state ≠ .kDisconnected

variable {c : TcpConnection}

theorem transfer_wrote_nil (h : c.writesDirectly = false) (m : Memory) (data : Int)
    (len : Nat) (w : WriteResult) : (c.transfer m data len w).1 = [] := by
  unfold TcpConnection.transfer
  split
  · rfl
  · simp [h]

/-- A send appends to the output exactly what it moves, since it writes directly
only when nothing is buffered. -/
theorem send_output {s : Stream} (hi : s.conn.outputBuffer.Inv) (m : Memory) (data : Int)
    (len : Nat) (w : WriteResult) {c' : TcpConnection}
    (hs : TcpConnection.Sent s.conn c' (s.conn.transfer m data len w).1
      (s.conn.transfer m data len w).2) :
    c'.socket.accepted ++ c'.outputBuffer.readable =
      s.output ++ ((s.conn.transfer m data len w).1 ++ (s.conn.transfer m data len w).2) := by
  rw [hs.accepted, hs.readable, Stream.output]
  cases hd : s.conn.writesDirectly with
  | true =>
    have he : s.conn.outputBuffer.readable = [] := by
      rw [Buffer.readable_eq_nil hi]
      simp only [TcpConnection.writesDirectly, Bool.and_eq_true, decide_eq_true_eq] at hd
      exact hd.2
    rw [he]
    simp
  | false =>
    rw [transfer_wrote_nil hd]
    simp

theorem transfer_eq_iff {s : Stream} (hl : s.conn.state ≠ .kDisconnected) {m : Memory}
    {data : Int} {len : Nat} {w : WriteResult} (he : enabled s (.sendInLoop m data len w)) :
    (s.conn.transfer m data len w).1 ++ (s.conn.transfer m data len w).2 = m.bytes data len ↔
      ¬ ReadsBefore s (.sendInLoop m data len w) := by
  unfold TcpConnection.transfer ReadsBefore
  rw [if_neg hl]
  cases hd : s.conn.writesDirectly with
  | false => simp
  | true =>
    cases w with
    | accepted n =>
      have hn := (he.1 n rfl).2
      simp [← Memory.bytes_add, Nat.add_sub_cancel' hn]
    | failed e =>
      have hf : ¬ (e = .EPIPE ∨ e = .ECONNRESET) := by
        rw [not_or]
        exact he.2 e rfl
      simp [hf]

private theorem step_keep (s : Stream) (a : Call) (t : Stream) (hi : Live s) (hp : Intact s)
    (he : machine.enabled s a) (hs : machine.step s a = .ok t) :
    Live t ∧ (Intact t ↔ ¬ ReadsBefore s a) := by
  cases a with
  | sendInLoop m data len w =>
    obtain ⟨c', hok, hsent⟩ := TcpConnection.sendInLoop_spec hi.1 m data len he.1
    simp only [machine, step, hok, ok_bind] at hs
    cases hs
    refine ⟨⟨hsent.inv, by rw [hsent.state]; exact hi.2⟩, ?_⟩
    rw [← transfer_eq_iff hi.2 he, Intact, Stream.output]
    dsimp only
    rw [send_output hi.1 m data len w hsent, hp, List.append_cancel_left_eq]
  | handleWrite w =>
    cases hw : s.conn.channel.writing with
    | false =>
      simp only [machine, step, TcpConnection.handleWrite_idle hw, ok_bind] at hs
      cases hs
      exact ⟨hi, by simp [ReadsBefore, hp]⟩
    | true =>
      obtain ⟨n, rfl, hn, hle⟩ := he hw
      obtain ⟨c', hok, hd⟩ := TcpConnection.handleWrite_spec hi.1 hw hn hle
      simp only [machine, step, hok, ok_bind] at hs
      cases hs
      refine ⟨⟨hd.inv, by rw [hd.state]; exact hi.2⟩, ?_⟩
      have hsame : c'.socket.accepted ++ c'.outputBuffer.readable = s.output := by
        rw [hd.accepted, hd.readable, List.append_assoc, List.take_append_drop, Stream.output]
      simp only [ReadsBefore, not_false_eq_true, iff_true]
      exact hsame.trans hp

/-- The output stream is intact after every step of a run exactly when no direct
write fails under a message that differs from its own shift by one byte. -/
theorem stream_intact_iff (c : TcpConnection) (calls : List Call) (s : Stream) (hc : Fresh c)
    (h : machine.Run ⟨c, []⟩ calls s) :
    machine.Throughout ⟨c, []⟩ calls Intact ↔
      machine.EveryStep ⟨c, []⟩ calls fun t a => ¬ ReadsBefore t a :=
  h.throughout_iff step_keep ⟨hc.inv, hc.live⟩ (by simp [Intact, Stream.output, hc.unsent, hc.unbuffered])

theorem new_fresh (writeComplete highWater : Bool) (mark : Nat) :
    Fresh (.new writeComplete highWater mark) :=
  ⟨Buffer.new_inv _, by simp [TcpConnection.new], rfl, Buffer.new_readable _⟩

private theorem single_send {c : TcpConnection} (hc : Fresh c) (m : Memory) (data : Int)
    (len : Nat) (w : WriteResult) (he : enabled ⟨c, []⟩ (.sendInLoop m data len w)) :
    ∃ s, machine.Run ⟨c, []⟩ [.sendInLoop m data len w] s ∧ s.passed = m.bytes data len ∧
      s.output = (c.transfer m data len w).1 ++ (c.transfer m data len w).2 := by
  obtain ⟨c', hok, hs⟩ := TcpConnection.sendInLoop_spec hc.inv m data len he.1
  refine ⟨⟨c', m.bytes data len⟩, .singleton he ?_, rfl, ?_⟩
  · simp only [machine, step, hok, ok_bind]
    rfl
  · rw [Stream.output, hs.accepted, hs.readable, hc.unsent, hc.unbuffered]
    rfl

/-- The message "hi" at address 0, behind an "X". -/
def sampleMemory : Memory := fun p => if p = 0 then 104 else if p = 1 then 105 else 88

/-- A socket that takes one byte of "hi" leaves the stream intact. -/
theorem partial_write_intact : ∃ s,
    machine.Run ⟨.new, []⟩ [.sendInLoop sampleMemory 0 2 (.accepted 1)] s ∧
    machine.Throughout ⟨.new, []⟩ [.sendInLoop sampleMemory 0 2 (.accepted 1)] Intact := by
  have he : enabled ⟨.new, []⟩ (.sendInLoop sampleMemory 0 2 (.accepted 1)) :=
    ⟨fun n hn => by cases hn; decide, fun e h => nomatch h⟩
  obtain ⟨s, hr, _⟩ := single_send (new_fresh false false _) sampleMemory 0 2 (.accepted 1) he
  refine ⟨s, hr, (stream_intact_iff .new _ s (new_fresh false false _) hr).mpr ?_⟩
  intro pre a suf t hsplit _
  cases pre with
  | nil =>
    cases hsplit
    rintro ⟨_, ⟨e, h⟩, _⟩
    cases h
  | cons b pre => simp at hsplit

/-- A full socket: the message "hi" is buffered as "Xh". -/
theorem wouldBlock_shifts_message : ∃ s,
    machine.Run ⟨.new, []⟩ [.sendInLoop sampleMemory 0 2 (.failed .EWOULDBLOCK)] s ∧
    s.passed = [104, 105] ∧ s.output = [88, 104] ∧ ¬ Intact s := by
  have he : enabled ⟨.new, []⟩ (.sendInLoop sampleMemory 0 2 (.failed .EWOULDBLOCK)) :=
    ⟨fun n h => (nomatch h), fun e h => by cases h; decide⟩
  obtain ⟨s, hr, hp, ho⟩ := single_send (new_fresh false false _) sampleMemory 0 2 _ he
  have hp' : s.passed = [104, 105] := hp.trans (by decide)
  have ho' : s.output = [88, 104] := ho.trans rfl
  refine ⟨s, hr, hp', ho', ?_⟩
  rw [Intact, hp', ho']
  decide

end Muduo.Net.OutputStream
