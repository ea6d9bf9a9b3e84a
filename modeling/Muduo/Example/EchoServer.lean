import Muduo.Net.CarriedOutput

/-! The server of `example/EchoServer.cpp` on one of its connections. -/
namespace Muduo.Example
open Muduo.Net Muduo.Support

/-- A connection of the server, and what its peer has sent so far. -/
structure EchoServer where
  conn : TcpConnection
  received : Bytes

namespace EchoServer

def new : EchoServer := ⟨.new, []⟩

/-- `onMessage`, with the memory of `msg` and the kernel's answer to a direct write. -/
def onMessage (c : TcpConnection) (m : Memory) (data : Int) (w : WriteResult) :
    Except Fault TcpConnection := do
  let (msg, inputBuffer) ← c.inputBuffer.retrieveAllAsString
  { c with inputBuffer }.send true m data msg.length w

/-- What the poller dispatches to the connection. -/
inductive Step where
  | connectEstablished
  | handleRead (r : ReadResult) (m : Memory) (data : Int) (w : WriteResult)
  | handleWrite (w : WriteResult)

def handleRead (s : EchoServer) (m : Memory) (data : Int) (w : WriteResult) :
    ReadResult → Except Fault EchoServer
  | .data [] => do return { s with conn := ← s.conn.handleRead (.data []) }
  | .data (b :: bs) => do
      let conn ← s.conn.handleRead (.data (b :: bs))
      return ⟨← onMessage conn m data w, s.received ++ b :: bs⟩
  | .failed errno => do return { s with conn := ← s.conn.handleRead (.failed errno) }

/-- The memory holds the message, and `write` takes no more than it. -/
def Holds (m : Memory) (data : Int) (w : WriteResult) (msg : Bytes) : Prop :=
  m.bytes data msg.length = msg ∧ w.Within 0 msg.length

def enabled (s : EchoServer) : Step → Prop
  | .connectEstablished => s.conn.state = .kConnecting
  | .handleRead (.data bytes) m data w => s.conn.channel.isReading = true ∧
      Holds m data w (s.conn.inputBuffer.readable ++ bytes)
  | .handleRead (.failed _) _ _ _ => s.conn.channel.isReading = true
  | .handleWrite w => s.conn.channel.isWriting = true ∧
      w.Within 0 s.conn.outputBuffer.readableBytes

def step (s : EchoServer) : Step → Except Fault EchoServer
  | .connectEstablished => do return { s with conn := ← s.conn.connectEstablished }
  | .handleRead r m data w => s.handleRead m data w r
  | .handleWrite w => do return { s with conn := ← s.conn.handleWrite w }

def machine : Machine EchoServer Step := ⟨enabled, step⟩

instance (m : Memory) (data : Int) (w : WriteResult) (msg : Bytes) :
    Decidable (Holds m data w msg) :=
  inferInstanceAs (Decidable (m.bytes data msg.length = msg ∧ w.Within 0 msg.length))

instance enabledDecidable (s : EchoServer) : (a : Step) → Decidable (machine.enabled s a)
  | .connectEstablished => inferInstanceAs (Decidable (s.conn.state = .kConnecting))
  | .handleRead (.data bytes) m data w => inferInstanceAs (Decidable
      (s.conn.channel.isReading = true ∧ Holds m data w (s.conn.inputBuffer.readable ++ bytes)))
  | .handleRead (.failed _) _ _ _ =>
      inferInstanceAs (Decidable (s.conn.channel.isReading = true))
  | .handleWrite w => inferInstanceAs (Decidable (s.conn.channel.isWriting = true ∧
      w.Within 0 s.conn.outputBuffer.readableBytes))

/-- No write fails, and one of buffered output takes at least a byte. -/
def Healthy (s : EchoServer) : Step → Prop
  | .connectEstablished => True
  | .handleRead r _ _ w => r ≠ .data [] → (∃ bytes, r = .data bytes) → ∃ n, w = .accepted n
  | .handleWrite w => Writes s.conn w

theorem not_healthy_failed (s : EchoServer) (b : Byte) (bs : Bytes) (m : Memory) (data : Int)
    (errno : Errno) : ¬ Healthy s (.handleRead (.data (b :: bs)) m data (.failed errno)) := by
  intro h
  obtain ⟨n, hn⟩ := h (by simp) ⟨_, rfl⟩
  cases hn

instance healthyDecidable (s : EchoServer) : (a : Step) → Decidable (Healthy s a)
  | .connectEstablished => inferInstanceAs (Decidable True)
  | .handleRead (.data []) _ _ _ => isTrue fun h => absurd rfl h
  | .handleRead (.failed _) _ _ (.accepted n) => isTrue fun _ _ => ⟨n, rfl⟩
  | .handleRead (.failed _) _ _ (.failed _) => isTrue fun _ ⟨_, h⟩ => ReadResult.noConfusion h
  | .handleRead (.data (_ :: _)) _ _ (.accepted n) => isTrue fun _ _ => ⟨n, rfl⟩
  | .handleRead (.data (b :: bs)) m data (.failed errno) =>
      isFalse (not_healthy_failed s b bs m data errno)
  | .handleWrite w => inferInstanceAs (Decidable (s.conn.channel.isWriting = true →
      ∃ n, w = .accepted n ∧ 1 ≤ n ∧ n ≤ s.conn.outputBuffer.readableBytes))

/-- Where a connection stands in its life. -/
inductive Phase (s : EchoServer) : Prop where
  | connecting (fresh : s = new)
  | up (output : Carries s.received false s.conn) (input : s.conn.inputBuffer.Inv)
      (taken : s.conn.inputBuffer.readable = []) (reading : s.conn.channel.reading = true)
  | down (state : s.conn.state = .kDisconnected) (output : s.conn.socket.accepted <+: s.received)
      (quiet : s.conn.channel.isNoneEvent = true)

/-- What a connection that is up has been sent is on its way back, whole and in order: with
the kernel, or pending and waited for. Of what one that is down was sent, the kernel has a
beginning, and nothing more will follow. -/
structure Echoes (s : EchoServer) : Prop where
  up : s.conn.state = .kConnected →
    s.conn.socket.accepted ++ s.conn.outputBuffer.readable = s.received ∧
      (s.conn.channel.isWriting = true ↔ s.conn.outputBuffer.readable ≠ []) ∧
      ∃ c, s.conn.handleWrite (.accepted s.conn.outputBuffer.readableBytes) = .ok c ∧
        c.socket.accepted = s.received
  down : s.conn.state = .kDisconnected →
    s.conn.socket.accepted <+: s.received ∧ s.conn.channel.isNoneEvent = true

variable {s t : EchoServer} {c : TcpConnection} {received bytes : Bytes} {m : Memory} {data : Int}
  {w : WriteResult}

/-- The whole message is taken out of the buffer and sent. -/
theorem onMessage_spec (h : Carries received false c) (hi : c.inputBuffer.Inv)
    (hr : c.channel.reading = true) (hm : Holds m data w c.inputBuffer.readable)
    (hw : ∃ n, w = .accepted n) :
    ∃ c', onMessage c m data w = .ok c' ∧
      Carries (received ++ c.inputBuffer.readable) false c' ∧ c'.inputBuffer.Inv ∧
      c'.inputBuffer.readable = [] ∧ c'.channel.reading = true := by
  obtain ⟨b, hb, hbi, hbr, _⟩ :=
    Buffer.retrieveAsString_spec hi (Nat.le_of_eq (Buffer.readable_length hi))
  rw [List.take_length, Buffer.readable_length hi] at hb
  rw [List.drop_length] at hbr
  obtain ⟨c', hok, hc, hin, hreads⟩ := (h.read b c.callbacks).send hm.1 hm.2 hw
  refine ⟨c', ?_, hc, ?_, ?_, hreads.trans hr⟩
  · rw [onMessage, Buffer.retrieveAllAsString, hb, ok_bind]
    exact hok
  · rw [hin]
    exact hbi
  · rw [hin]
    exact hbr

/-- A read on a connection that is up. -/
theorem handleRead_data {b : Byte} {bs : Bytes} (h : Carries s.received false s.conn)
    (hi : s.conn.inputBuffer.Inv) (he : s.conn.inputBuffer.readable = [])
    (hr : s.conn.channel.reading = true)
    (hm : Holds m data w (s.conn.inputBuffer.readable ++ b :: bs)) (hw : ∃ n, w = .accepted n) :
    ∃ t, s.handleRead m data w (.data (b :: bs)) = .ok t ∧ Phase t ∧
      t.conn.state = .kConnected ∧ t.received = s.received ++ b :: bs := by
  obtain ⟨buf, hbuf, hinv, hread⟩ := Buffer.readFd_spec hi (b :: bs)
  rw [← hread] at hm
  rw [he, List.nil_append] at hread
  obtain ⟨c', hok, hc, hinv', hempty, hreading⟩ := onMessage_spec
    (h.read buf (s.conn.callbacks ++ [.message])) hinv hr hm hw
  refine ⟨⟨c', s.received ++ b :: bs⟩, ?_, .up (hread ▸ hc) hinv' hempty hreading, hc.state,
    rfl⟩
  have hconn : s.conn.handleRead (.data (b :: bs)) = .ok { s.conn with
      inputBuffer := buf
      callbacks := s.conn.callbacks ++ [.message] } := by
    rw [TcpConnection.handleRead, hbuf]
    rfl
  rw [handleRead, hconn, ok_bind, hok]
  rfl

/-- The peer closes. -/
theorem handleRead_eof (h : Carries s.received false s.conn) (hi : s.conn.inputBuffer.Inv)
    (m : Memory) (data : Int) (w : WriteResult) :
    ∃ t, s.handleRead m data w (.data []) = .ok t ∧ Phase t := by
  obtain ⟨buf, hbuf, hinv, _⟩ := Buffer.readFd_spec hi []
  have hstate : s.conn.state = .kConnected := h.state
  have hconn : ∃ c, s.conn.handleRead (.data []) = .ok c ∧ c.state = .kDisconnected ∧
      c.socket = s.conn.socket ∧ c.channel.isNoneEvent = true := by
    simp only [TcpConnection.handleRead, hbuf, ok_bind, TcpConnection.handleClose]
    rw [assert_bind_true (.inl hstate)]
    exact ⟨_, rfl, rfl, rfl, rfl⟩
  obtain ⟨c, hok, hdown, hsocket, hquiet⟩ := hconn
  refine ⟨⟨c, s.received⟩, ?_, .down hdown ?_ hquiet⟩
  · rw [handleRead, hok]
    rfl
  · rw [hsocket, ← h.output]
    exact List.prefix_append _ _

theorem step_phase {a : Step} (h : Phase s) (he : machine.enabled s a) (hh : Healthy s a) :
    ∃ t, machine.step s a = .ok t ∧ Phase t := by
  cases h with
  | connecting fresh =>
    subst fresh
    cases a with
    | connectEstablished =>
      obtain ⟨hc, hin, hreading⟩ := Carries.established (c := { TcpConnection.new with
        state := .kConnected
        channel := TcpConnection.new.channel.enableReading
        callbacks := [.connection true] }) rfl
      exact ⟨_, rfl, .up hc (hin ▸ Buffer.new_inv _) (hin ▸ Buffer.new_readable _) hreading⟩
    | handleRead r m data w =>
      cases r with
      | data bytes => exact absurd he.1 (by decide)
      | failed errno => exact absurd he Bool.false_ne_true
    | handleWrite w => exact absurd he.1 (by decide)
  | up output input taken reading =>
    cases a with
    | connectEstablished =>
      have hstate : s.conn.state = .kConnecting := he
      rw [output.state] at hstate
      cases hstate
    | handleRead r m data w =>
      cases r with
      | data bytes =>
        cases bytes with
        | nil => exact handleRead_eof output input m data w
        | cons b bs =>
          obtain ⟨t, hok, hphase, _⟩ :=
            handleRead_data output input taken reading he.2 (hh (by simp) ⟨_, rfl⟩)
          exact ⟨t, hok, hphase⟩
      | failed errno =>
        refine ⟨s, ?_, .up output input taken reading⟩
        rfl
    | handleWrite w =>
      obtain ⟨c, hok, hc, hin, hreads⟩ := output.written hh
      refine ⟨⟨c, s.received⟩, ?_, .up hc (hin ▸ input) (hin ▸ taken) (hreads.trans reading)⟩
      simp only [machine, step, hok, ok_bind]
      rfl
  | down state output quiet =>
    have hreading : s.conn.channel.isReading = false ∧ s.conn.channel.isWriting = false := by
      simpa [Channel.isNoneEvent, Channel.isReading, Channel.isWriting] using quiet
    cases a with
    | connectEstablished =>
      have hstate : s.conn.state = .kConnecting := he
      rw [state] at hstate
      cases hstate
    | handleRead r m data w =>
      cases r with
      | data bytes => exact absurd he.1 (by rw [hreading.1]; decide)
      | failed errno => exact absurd he (by simp [machine, enabled, hreading.1])
    | handleWrite w => exact absurd he.1 (by rw [hreading.2]; decide)

/-- One more writable event is enough. -/
theorem drained (h : Carries received false c) :
    ∃ c', c.handleWrite (.accepted c.outputBuffer.readableBytes) = .ok c' ∧
      c'.socket.accepted = received := by
  cases hwriting : c.channel.writing with
  | false =>
    have hempty : c.outputBuffer.readable = [] := by
      by_contra hne
      rw [h.writing.mpr hne] at hwriting
      cases hwriting
    refine ⟨c, TcpConnection.handleWrite_idle hwriting _, ?_⟩
    rw [← h.output, hempty, List.append_nil]
  | true =>
    have hne : c.outputBuffer.readableBytes ≠ 0 :=
      fun hz => h.writing.mp hwriting ((Buffer.readable_eq_nil h.inv).mpr hz)
    obtain ⟨c', hok, hd⟩ := TcpConnection.handleWrite_spec h.inv hwriting
      (Nat.pos_of_ne_zero hne) (Nat.le_refl _)
    refine ⟨c', hok, ?_⟩
    rw [hd.accepted, ← Buffer.readable_length h.inv, List.take_length, h.output]

theorem Phase.echoed (h : Phase s) : Echoes s := by
  cases h with
  | connecting fresh =>
    subst fresh
    exact ⟨fun hs => StateE.noConfusion hs, fun hs => StateE.noConfusion hs⟩
  | up output input taken reading =>
    refine ⟨fun _ => ⟨output.output, output.writing, drained output⟩, fun hs => ?_⟩
    rw [output.state] at hs
    cases hs
  | down state output quiet =>
    refine ⟨fun hs => ?_, fun _ => ⟨output, quiet⟩⟩
    rw [state] at hs
    cases hs

/-- Along every run in which no write fails, whatever the sizes of the reads and writes, the
server echoes what it is sent; and it takes every step that the poller dispatches. -/
theorem echoes {as : List Step} (hr : machine.Run new as s)
    (hh : machine.EveryStep new as Healthy) :
    Echoes s ∧ ∀ a, machine.enabled s a → Healthy s a → ∃ t, machine.step s a = .ok t := by
  have hphase : Phase s := by
    refine hr.invariant_of_everyStep (I := Phase) ?_ hh (.connecting rfl)
    intro s a t hi he hk hok
    obtain ⟨t', hok', ht⟩ := step_phase hi he hk
    cases hok.symm.trans hok'
    exact ht
  refine ⟨hphase.echoed, fun a he hk => ?_⟩
  obtain ⟨t, hok, _⟩ := step_phase hphase he hk
  exact ⟨t, hok⟩

/-- "hi" in memory. -/
def hi : Memory := fun p => if p = 0 then 104 else 105

/-- The kernel takes one of two bytes, then the other; then the peer closes. -/
theorem echoes_sample : ∃ s, machine.Run new [.connectEstablished,
    .handleRead (.data [104, 105]) hi 0 (.accepted 1), .handleWrite (.accepted 1),
    .handleRead (.data []) hi 0 (.accepted 0)] s ∧ Echoes s ∧ s.received = [104, 105] := by
  obtain ⟨s, hr, hs⟩ := (machine.restrict Healthy).exists_run new [.connectEstablished,
    .handleRead (.data [104, 105]) hi 0 (.accepted 1), .handleWrite (.accepted 1),
    .handleRead (.data []) hi 0 (.accepted 0)] received [104, 105] (by decide +kernel)
  obtain ⟨hr, hh⟩ := Machine.run_restrict.mp hr
  exact ⟨s, hr, (echoes hr hh).1, hs⟩

end EchoServer
end Muduo.Example
