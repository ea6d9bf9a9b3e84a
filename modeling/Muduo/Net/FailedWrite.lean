import Muduo.Net.ServerTeardown

/-! `handleWrite` when `write` fails: the -1 it returns becomes the largest `size_t`. -/
namespace Muduo.Net
open Muduo.Support

/-- `retrieve(len)` of a build without assertions. -/
def Buffer.retrieveUnasserted (b : Buffer) (len : Nat) : Buffer :=
  if len < b.readableBytes then { b with readerIndex := b.readerIndex + len } else b.retrieveAll

namespace TcpConnection

/-- `handleWritten` of a build without assertions. -/
def handleWrittenUnasserted (c : TcpConnection) (n : Nat) : TcpConnection :=
  if n > 0 then
    let c := { c with outputBuffer := c.outputBuffer.retrieveUnasserted n }
    if c.outputBuffer.readableBytes = 0 then c.outputDrained else c
  else c

/-- `handleWrite()` of a build without assertions, when `write` fails. -/
def handleWriteUnasserted (c : TcpConnection) : TcpConnection :=
  if c.channel.isWriting then c.handleWrittenUnasserted 0xFFFFFFFFFFFFFFFF else c

/-- A later writable event finds in `t` what this one found in `c`. -/
structure Untouched (c t : TcpConnection) : Prop where
  readable : t.outputBuffer.readable = c.outputBuffer.readable
  reading : t.channel.reading = c.channel.reading
  writing : t.channel.writing = c.channel.writing
  state : t.state = c.state
  queued : t.queued = c.queued
  shutdownWrites : t.socket.shutdownWrites = c.socket.shutdownWrites

variable {c t : TcpConnection}

theorem retrieve_unasserted {b b' : Buffer} {len : Nat} (h : b.retrieve len = .ok b') :
    b' = b.retrieveUnasserted len := by
  obtain ⟨_, h⟩ := assert_bind_ok.mp h
  rw [Buffer.retrieveUnasserted]
  split at h
  · next hlt =>
    cases h
    rw [if_pos hlt]
  · next hge =>
    cases h
    rw [if_neg hge]

theorem handleWritten_unasserted {n : Nat} (h : c.handleWritten n = .ok t) :
    t = c.handleWrittenUnasserted n := by
  unfold handleWritten at h
  unfold handleWrittenUnasserted
  split at h
  · next hn =>
    obtain ⟨b, hb, h⟩ := bind_ok.mp h
    cases h
    rw [if_pos hn, ← retrieve_unasserted hb]
  · next hn =>
    cases h
    rw [if_neg hn]

@[simp] theorem outputDrained_writing (c : TcpConnection) :
    c.outputDrained.channel.writing = false := by
  unfold outputDrained
  dsimp only
  split
  · rw [shutdownInLoop_frame]
    split <;> rfl
  · split <;> rfl

/-- Any positive count takes bytes from the buffer, or the channel's interest. -/
theorem handleWrittenUnasserted_touches (h : c.outputBuffer.Inv) (hw : c.channel.writing = true)
    {n : Nat} (hn : n > 0) : ¬ Untouched c (c.handleWrittenUnasserted n) := by
  intro hu
  unfold handleWrittenUnasserted at hu
  rw [if_pos hn] at hu
  dsimp only at hu
  split at hu
  · have hwriting := hu.writing
    rw [outputDrained_writing, hw] at hwriting
    cases hwriting
  · next hne =>
    have hlt : n < c.outputBuffer.readableBytes := by
      by_contra hge
      apply hne
      rw [Buffer.retrieveUnasserted, if_neg hge]
      rfl
    obtain ⟨b, hok, _, hr, _⟩ := Buffer.retrieve_spec h (Nat.le_of_lt hlt)
    have hreadable : c.outputBuffer.readable.drop n = c.outputBuffer.readable := by
      rw [← hr, retrieve_unasserted hok]
      exact hu.readable
    have hlen := congrArg List.length hreadable
    rw [List.length_drop, Buffer.readable_length h] at hlen
    omega

/-- In no reachable state that waits to write does a failed `write` leave the connection
as it was: with assertions compiled in none is left to retry, and without them the whole
output is taken for written. -/
theorem failed_write_never_harmless (h : ServerTeardown.Reachable c)
    (hw : c.channel.isWriting = true) (errno : Errno) :
    (¬ ∃ t, c.handleWrite (.failed errno) = .ok t ∧ Untouched c t) ∧
      ¬ Untouched c c.handleWriteUnasserted := by
  have htouch := handleWrittenUnasserted_touches (n := 0xFFFFFFFFFFFFFFFF) h.life.buffer hw
    (by decide)
  constructor
  · rintro ⟨t, hok, hu⟩
    rw [handleWrite, if_pos hw] at hok
    rw [handleWritten_unasserted hok] at hu
    exact htouch hu
  · rw [handleWriteUnasserted, if_pos hw]
    exact htouch

/-- The count of -1 fails the assertion of `retrieve`. -/
theorem handleWrite_asserts (hw : c.channel.isWriting = true)
    (hlt : c.outputBuffer.readableBytes < 0xFFFFFFFFFFFFFFFF) (errno : Errno) :
    c.handleWrite (.failed errno) = .error .assertion := by
  have hr : c.outputBuffer.retrieve 0xFFFFFFFFFFFFFFFF = .error .assertion := by
    rw [Buffer.retrieve, assert, if_neg (Nat.not_le.mpr hlt)]
    rfl
  rw [handleWrite, if_pos hw, handleWritten, if_pos (by decide), hr]
  rfl

/-- A message of two bytes, of which the kernel has taken none yet. -/
theorem unsent_message : ∃ c : TcpConnection,
    ConnectionLife.machine.Run .new
      [.connectEstablished, .send true (fun _ => 104) 0 2 (.accepted 0)] c ∧
    c.channel.isWriting = true ∧ c.outputBuffer.readableBytes = 2 := by
  have hup : ConnectionLife.machine.step .new .connectEstablished = .ok _ := rfl
  have hw : (WriteResult.accepted 0).Within 0 2 := by decide
  obtain ⟨c, hok, hs⟩ := sendInLoop_spec (c := { TcpConnection.new with
      state := .kConnected
      channel := TcpConnection.new.channel.enableReading
      callbacks := [.connection true] }) (Buffer.new_inv _) (fun _ => 104) 0 2 hw
  refine ⟨c, .cons trivial hup (.cons hw hok (.nil c)), ?_, ?_⟩
  · exact hs.writing
  · rw [← Buffer.readable_length hs.inv, hs.readable]
    rfl

theorem failed_write_sample : ∃ c : TcpConnection, c.channel.isWriting = true ∧
    (¬ ∃ t, c.handleWrite (.failed .EWOULDBLOCK) = .ok t ∧ Untouched c t) ∧
      ¬ Untouched c c.handleWriteUnasserted := by
  obtain ⟨c, hr, hw, _⟩ := unsent_message
  exact ⟨c, hw, failed_write_never_harmless ⟨_, _, _, _, hr⟩ hw .EWOULDBLOCK⟩

/-- The socket was not ready after all. -/
theorem failed_write_asserts : ∃ c : TcpConnection,
    ConnectionLife.machine.Run .new
      [.connectEstablished, .send true (fun _ => 104) 0 2 (.accepted 0)] c ∧
    c.channel.isWriting = true ∧ c.handleWrite (.failed .EWOULDBLOCK) = .error .assertion := by
  obtain ⟨c, hr, hw, hn⟩ := unsent_message
  exact ⟨c, hr, hw, handleWrite_asserts hw (by rw [hn]; decide) .EWOULDBLOCK⟩

end TcpConnection
end Muduo.Net
