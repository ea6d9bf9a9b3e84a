import Muduo.Support.Search
import Muduo.Support.StdVector

/-! `muduo::net::Buffer`: a byte vector with a reader and a writer index.
Pointers into the vector are positions counted from `begin()`, and `size_t` is `Nat`:
the vector may always grow. `SizedBuffer` counts as `size_t` does. -/
namespace Muduo.Net
open Muduo.Support

abbrev Byte := UInt8
abbrev Bytes := List Byte

def kCRLF : Bytes := [13, 10]

theorem kCRLF_ne_nil : kCRLF ≠ [] := by decide

structure Buffer where
  buffer : Bytes
  readerIndex : Nat
  writerIndex : Nat
  deriving DecidableEq, Repr

/-- The errno values the modelled code tells apart. -/
inductive Errno where
  | EWOULDBLOCK | EPIPE | ECONNRESET | EINTR
  | other (code : Nat)
  deriving DecidableEq, Repr

/-- What `readv` did: bytes delivered into the vectors, or a failure. -/
inductive ReadResult where
  | data (bytes : Bytes)
  | failed (errno : Errno)
  deriving DecidableEq, Repr

namespace Buffer

def kCheapPrepend : Nat := 8
def kInitialSize : Nat := 1024
def kExtraBuf : Nat := 65536

def new (initialSize : Nat := kInitialSize) : Buffer :=
  ⟨List.replicate (kCheapPrepend + initialSize) 0, kCheapPrepend, kCheapPrepend⟩

def swap (b rhs : Buffer) : Buffer × Buffer := (rhs, b)

def readableBytes (b : Buffer) : Nat := b.writerIndex - b.readerIndex
def writableBytes (b : Buffer) : Nat := b.buffer.length - b.writerIndex
def prependableBytes (b : Buffer) : Nat := b.readerIndex
def peek (b : Buffer) : Nat := b.readerIndex
def beginWrite (b : Buffer) : Nat := b.writerIndex

/-- The readable content, `peek()` up to `beginWrite()`. -/
def readable (b : Buffer) : Bytes := StdVector.range b.buffer b.peek b.beginWrite

def findCRLF (b : Buffer) : Option Nat := (search kCRLF b.readable).map (b.peek + ·)

def retrieveAll (b : Buffer) : Buffer :=
  { b with readerIndex := kCheapPrepend, writerIndex := kCheapPrepend }

def retrieve (b : Buffer) (len : Nat) : Except Fault Buffer := do
  assert (len ≤ b.readableBytes)
  if len < b.readableBytes then
    return { b with readerIndex := b.readerIndex + len }
  else
    return b.retrieveAll

def retrieveUntil (b : Buffer) (last : Nat) : Except Fault Buffer := do
  assert (b.peek ≤ last)
  assert (last ≤ b.beginWrite)
  b.retrieve (last - b.peek)

def retrieveAsString (b : Buffer) (len : Nat) : Except Fault (Bytes × Buffer) := do
  assert (len ≤ b.readableBytes)
  let result := StdVector.range b.buffer b.peek (b.peek + len)
  let b ← b.retrieve len
  return (result, b)

def retrieveAllAsString (b : Buffer) : Except Fault (Bytes × Buffer) :=
  b.retrieveAsString b.readableBytes

/-- Grow the vector, or move the readable bytes down to `kCheapPrepend`. -/
def makeSpace (b : Buffer) (len : Nat) : Except Fault Buffer :=
  if b.writableBytes + b.prependableBytes < len + kCheapPrepend then
    return { b with buffer := StdVector.resize b.buffer (b.writerIndex + len) }
  else do
    assert (kCheapPrepend < b.readerIndex)
    let readable := b.readableBytes
    let moved ← StdVector.copyWithin b.buffer b.readerIndex kCheapPrepend
      (b.writerIndex - b.readerIndex)
    let b : Buffer := ⟨moved, kCheapPrepend, kCheapPrepend + readable⟩
    assert (readable = b.readableBytes)
    return b

def ensureWritableBytes (b : Buffer) (len : Nat) : Except Fault Buffer := do
  let b ← if b.writableBytes < len then b.makeSpace len else pure b
  assert (len ≤ b.writableBytes)
  return b

def hasWritten (b : Buffer) (len : Nat) : Except Fault Buffer := do
  assert (len ≤ b.writableBytes)
  return { b with writerIndex := b.writerIndex + len }

def unwrite (b : Buffer) (len : Nat) : Except Fault Buffer := do
  assert (len ≤ b.readableBytes)
  return { b with writerIndex := b.writerIndex - len }

/-- Storing bytes through `beginWrite()`, before `hasWritten` accounts for them. -/
def writeAtBeginWrite (b : Buffer) (data : Bytes) : Except Fault Buffer := do
  let buffer ← StdVector.copyIn b.buffer b.beginWrite data
  return { b with buffer }

def append (b : Buffer) (data : Bytes) : Except Fault Buffer := do
  let b ← b.ensureWritableBytes data.length
  let b ← b.writeAtBeginWrite data
  b.hasWritten data.length

def prepend (b : Buffer) (data : Bytes) : Except Fault Buffer := do
  assert (data.length ≤ b.prependableBytes)
  let readerIndex := b.readerIndex - data.length
  let buffer ← StdVector.copyIn b.buffer readerIndex data
  return { b with buffer, readerIndex }

/-- Scatter read into the writable space and a 64 KiB stack buffer. The kernel's
bytes fill the first vector before the second one. -/
def readFd (b : Buffer) (result : ReadResult) : Except Fault Buffer :=
  match result with
  | .failed _ => return b
  | .data bytes => do
    let writable := b.writableBytes
    let b ← b.writeAtBeginWrite (bytes.take writable)
    if bytes.length ≤ writable then
      return { b with writerIndex := b.writerIndex + bytes.length }
    else
      append { b with writerIndex := b.buffer.length } (bytes.drop writable)

/-- The index order that every operation keeps. -/
structure Inv (b : Buffer) : Prop where
  reader_le : b.readerIndex ≤ b.writerIndex
  writer_le : b.writerIndex ≤ b.buffer.length
  cheap_le : kCheapPrepend ≤ b.buffer.length

variable {b : Buffer}

theorem new_inv (initialSize : Nat) : (new initialSize).Inv :=
  ⟨Nat.le_refl _, by simp [new], by simp [new]⟩

/-- The constructor's three assertions. -/
theorem new_spaces (initialSize : Nat) :
    (new initialSize).readableBytes = 0 ∧ (new initialSize).writableBytes = initialSize ∧
      (new initialSize).prependableBytes = kCheapPrepend := by
  simp [new, readableBytes, writableBytes, prependableBytes]

@[simp] theorem new_readable (initialSize : Nat) : (new initialSize).readable = [] :=
  StdVector.range_self _ _

theorem readable_length (h : b.Inv) : b.readable.length = b.readableBytes :=
  StdVector.range_length_of_le _ h.writer_le

theorem readable_eq_nil (h : b.Inv) : b.readable = [] ↔ b.readableBytes = 0 := by
  rw [← readable_length h, List.length_eq_zero_iff]

@[simp] theorem retrieveAll_readable : b.retrieveAll.readable = [] := StdVector.range_self _ _

theorem retrieveAll_inv (h : b.Inv) : b.retrieveAll.Inv :=
  ⟨Nat.le_refl _, h.cheap_le, h.cheap_le⟩

theorem findCRLF_some {crlf : Nat} : b.findCRLF = some crlf ↔
    ∃ i, search kCRLF b.readable = some i ∧ crlf = b.peek + i := by
  rw [findCRLF, Option.map_eq_some_iff]
  simp only [eq_comm]

theorem findCRLF_none : b.findCRLF = none ↔ search kCRLF b.readable = none :=
  Option.map_eq_none_iff

/-- `retrieve` within its precondition drops bytes from the front. -/
theorem retrieve_spec (h : b.Inv) {len : Nat} (hl : len ≤ b.readableBytes) :
    ∃ b', b.retrieve len = .ok b' ∧ b'.Inv ∧ b'.readable = b.readable.drop len ∧
      b'.buffer = b.buffer ∧ (b'.readerIndex = b.readerIndex + len ∨ b' = b.retrieveAll) := by
  rw [retrieve, assert_true hl, ok_bind]
  have hle := h.reader_le
  by_cases hlt : len < b.readableBytes
  · rw [if_pos hlt]
    refine ⟨_, rfl, ⟨?_, h.writer_le, h.cheap_le⟩, ?_, rfl, .inl rfl⟩
    · rw [readableBytes] at hlt
      dsimp only
      omega
    · exact (StdVector.range_drop _ _ _ _).symm
  · rw [if_neg hlt]
    refine ⟨_, rfl, retrieveAll_inv h, ?_, rfl, .inr rfl⟩
    rw [retrieveAll_readable, List.drop_of_length_le]
    rw [readable_length h]
    omega

/-- `retrieveUntil` drops up to a position inside the readable bytes. -/
theorem retrieveUntil_spec (h : b.Inv) {k : Nat} (hk : k ≤ b.readableBytes) :
    ∃ b', b.retrieveUntil (b.peek + k) = .ok b' ∧ b'.Inv ∧ b'.readable = b.readable.drop k ∧
      b'.buffer = b.buffer ∧ (b'.readerIndex = b.readerIndex + k ∨ b' = b.retrieveAll) := by
  have hle := h.reader_le
  have hw : b.peek + k ≤ b.beginWrite := by
    rw [readableBytes] at hk
    rw [peek, beginWrite]
    omega
  rw [retrieveUntil, assert_true (Nat.le_add_right _ _), ok_bind, assert_true hw, ok_bind,
    Nat.add_sub_cancel_left]
  exact retrieve_spec h hk

/-- `makeSpace` is called only when the writable space is too small; its guard then
makes the moving branch start beyond `kCheapPrepend`. -/
theorem makeSpace_spec (h : b.Inv) {len : Nat} (hw : b.writableBytes < len) :
    ∃ b', b.makeSpace len = .ok b' ∧ b'.Inv ∧ b'.readable = b.readable ∧
      len ≤ b'.writableBytes ∧ min b.readerIndex kCheapPrepend ≤ b'.readerIndex := by
  have hr := h.reader_le
  have hl := h.writer_le
  have hc := h.cheap_le
  rw [makeSpace]
  by_cases hg : b.writableBytes + b.prependableBytes < len + kCheapPrepend
  · rw [if_pos hg]
    have hlen := StdVector.resize_length b.buffer (b.writerIndex + len)
    rw [writableBytes] at hw
    refine ⟨_, rfl, ⟨hr, ?_, ?_⟩, ?_, ?_, Nat.min_le_left _ _⟩
    · dsimp only
      omega
    · dsimp only
      omega
    · exact StdVector.range_resize _ (by omega) hl
    · rw [writableBytes, hlen]
      dsimp only
      omega
  · rw [writableBytes, prependableBytes] at hg
    rw [writableBytes] at hw
    have hk : kCheapPrepend < b.readerIndex := by omega
    have hlen := StdVector.range_length_of_le b.readerIndex hl
    rw [if_neg (by rw [writableBytes, prependableBytes]; exact hg), assert_true hk, ok_bind,
      StdVector.copyWithin_eq _ _ _ _ hk.le (by omega), Nat.add_sub_cancel' hr]
    have hfit : kCheapPrepend + (StdVector.range b.buffer b.readerIndex b.writerIndex).length ≤
        b.buffer.length := by omega
    obtain ⟨moved, hm⟩ : ∃ moved, StdVector.copyIn b.buffer kCheapPrepend
        (StdVector.range b.buffer b.readerIndex b.writerIndex) = .ok moved :=
      ⟨_, StdVector.copyIn_eq _ _ _ hfit⟩
    have hml := StdVector.copyIn_length hm
    have hsame : b.readableBytes = (⟨moved, kCheapPrepend, kCheapPrepend + b.readableBytes⟩
        : Buffer).readableBytes := by simp only [readableBytes]; omega
    rw [hm, ok_bind]
    dsimp only
    rw [assert_true hsame, ok_bind]
    refine ⟨_, rfl, ⟨Nat.le_add_right _ _, ?_, by dsimp only; omega⟩, ?_, ?_,
      Nat.min_le_right _ _⟩
    · rw [readableBytes]
      dsimp only
      omega
    · have hb := StdVector.range_copyIn hm hfit
      rw [hlen] at hb
      exact hb
    · rw [writableBytes, readableBytes]
      dsimp only
      omega

/-- The vector grows to just what is asked for, or stays as long as it is. -/
theorem makeSpace_length (h : b.Inv) {b' : Buffer} {len : Nat} (hok : b.makeSpace len = .ok b') :
    (b.writableBytes + b.prependableBytes < len + kCheapPrepend ∧
      b'.buffer.length = b.writerIndex + len) ∨ b'.buffer.length = b.buffer.length := by
  have hr := h.reader_le
  have hw := h.writer_le
  rw [makeSpace] at hok
  by_cases hg : b.writableBytes + b.prependableBytes < len + kCheapPrepend
  · rw [if_pos hg] at hok
    cases hok
    exact .inl ⟨hg, StdVector.resize_length b.buffer (b.writerIndex + len)⟩
  · rw [if_neg hg] at hok
    obtain ⟨hk, hok⟩ := assert_bind_ok.mp hok
    obtain ⟨moved, hmoved, hok⟩ := bind_ok.mp hok
    obtain ⟨_, hok⟩ := assert_bind_ok.mp hok
    cases hok
    rw [StdVector.copyWithin_eq _ _ _ _ hk.le (by omega)] at hmoved
    exact .inr (StdVector.copyIn_length hmoved)

/-- `ensureWritableBytes` always succeeds, makes room and keeps the readable bytes. -/
theorem ensureWritableBytes_spec (h : b.Inv) (len : Nat) :
    ∃ b', b.ensureWritableBytes len = .ok b' ∧ b'.Inv ∧ b'.readable = b.readable ∧
      len ≤ b'.writableBytes ∧ min b.readerIndex kCheapPrepend ≤ b'.readerIndex := by
  rw [ensureWritableBytes]
  by_cases hw : b.writableBytes < len
  · obtain ⟨b', hm, hi, hr, hl, hp⟩ := makeSpace_spec h hw
    rw [if_pos hw, hm, ok_bind]
    dsimp only
    rw [assert_true hl, ok_bind]
    exact ⟨b', rfl, hi, hr, hl, hp⟩
  · have hl : len ≤ b.writableBytes := Nat.le_of_not_lt hw
    rw [if_neg hw]
    refine ⟨b, ?_, h, rfl, hl, Nat.min_le_left _ _⟩
    change (assert (len ≤ b.writableBytes) >>= fun _ => Except.ok b) = _
    rw [assert_true hl, ok_bind]

/-- Bytes stored at `beginWrite()` become readable with `hasWritten`. -/
theorem write_hasWritten_spec (h : b.Inv) {data : Bytes} (hl : data.length ≤ b.writableBytes) :
    ∃ b' b'', b.writeAtBeginWrite data = .ok b' ∧ b'.hasWritten data.length = .ok b'' ∧
      b''.Inv ∧ b''.readable = b.readable ++ data ∧ b''.readerIndex = b.readerIndex ∧
      b''.buffer.length = b.buffer.length ∧ b''.writerIndex = b.writerIndex + data.length ∧
      b' = { b with buffer := b'.buffer } ∧ b''.buffer = b'.buffer := by
  have hr := h.reader_le
  have hw := h.writer_le
  have hfit : b.beginWrite + data.length ≤ b.buffer.length := by
    rw [writableBytes] at hl
    rw [beginWrite]
    omega
  obtain ⟨v, hv⟩ : ∃ v, StdVector.copyIn b.buffer b.beginWrite data = .ok v :=
    ⟨_, StdVector.copyIn_eq _ _ _ hfit⟩
  have hlen := StdVector.copyIn_length hv
  have hok : data.length ≤ ({ b with buffer := v } : Buffer).writableBytes := by
    rw [writableBytes] at hl ⊢
    dsimp only
    omega
  refine ⟨{ b with buffer := v }, { b with buffer := v, writerIndex := b.writerIndex + data.length },
    ?_, ?_, ⟨?_, ?_, ?_⟩, ?_, rfl, hlen, rfl, rfl, rfl⟩
  · rw [writeAtBeginWrite, hv, ok_bind]
    rfl
  · rw [hasWritten, assert_true hok, ok_bind]
    rfl
  · dsimp only
    omega
  · rw [beginWrite] at hfit
    dsimp only
    omega
  · have := h.cheap_le
    dsimp only
    omega
  · have hold := StdVector.range_copyIn_before b.peek hv hfit (Nat.le_refl b.beginWrite)
    have hnew := StdVector.range_copyIn hv hfit
    calc
      _ = StdVector.range v b.peek b.beginWrite ++
          StdVector.range v b.beginWrite (b.beginWrite + data.length) :=
        (StdVector.range_append v hr (Nat.le_add_right _ _)).symm
      _ = b.readable ++ data := by rw [hold, hnew, readable]

/-- `append` always succeeds and adds its bytes at the end. -/
theorem append_spec (h : b.Inv) (data : Bytes) :
    ∃ b', b.append data = .ok b' ∧ b'.Inv ∧ b'.readable = b.readable ++ data ∧
      min b.readerIndex kCheapPrepend ≤ b'.readerIndex := by
  obtain ⟨b₁, he, hi, hr, hl, hp⟩ := ensureWritableBytes_spec h data.length
  obtain ⟨b₂, b₃, hw, hh, hi', hr', hp', _⟩ := write_hasWritten_spec hi hl
  refine ⟨b₃, ?_, hi', by rw [hr', hr], by rw [hp']; exact hp⟩
  rw [append, he, ok_bind, hw, ok_bind, hh]

/-- `prepend` within its precondition adds its bytes at the front. -/
theorem prepend_spec (h : b.Inv) {data : Bytes} (hl : data.length ≤ b.prependableBytes) :
    ∃ b', b.prepend data = .ok b' ∧ b'.Inv ∧ b'.readable = data ++ b.readable := by
  have hr := h.reader_le
  have hw := h.writer_le
  rw [prependableBytes] at hl
  have hend : b.readerIndex - data.length + data.length = b.readerIndex := by omega
  have hfit : b.readerIndex - data.length + data.length ≤ b.buffer.length := by omega
  obtain ⟨v, hv⟩ : ∃ v, StdVector.copyIn b.buffer (b.readerIndex - data.length) data = .ok v :=
    ⟨_, StdVector.copyIn_eq _ _ _ hfit⟩
  have hlen := StdVector.copyIn_length hv
  rw [prepend, assert_true (by rw [prependableBytes]; exact hl), ok_bind]
  dsimp only
  rw [hv, ok_bind]
  refine ⟨_, rfl, ⟨?_, ?_, ?_⟩, ?_⟩
  · dsimp only
    omega
  · dsimp only
    omega
  · have := h.cheap_le
    dsimp only
    omega
  · have hnew := StdVector.range_copyIn hv hfit
    have hold := StdVector.range_copyIn_after b.beginWrite hv hfit hend.le
    rw [hend] at hnew
    calc
      _ = StdVector.range v (b.readerIndex - data.length) b.readerIndex ++
          StdVector.range v b.readerIndex b.beginWrite :=
        (StdVector.range_append v (by omega) hr).symm
      _ = data ++ b.readable := by rw [hnew, hold, readable, peek]

theorem prepend_length {b' : Buffer} {data : Bytes} (hok : b.prepend data = .ok b') :
    b'.buffer.length = b.buffer.length := by
  obtain ⟨_, hok⟩ := assert_bind_ok.mp hok
  obtain ⟨v, hv, hok⟩ := bind_ok.mp hok
  cases hok
  exact StdVector.copyIn_length hv

theorem unwrite_buffer {b' : Buffer} {len : Nat} (hok : b.unwrite len = .ok b') :
    b'.buffer = b.buffer := by
  obtain ⟨_, hok⟩ := assert_bind_ok.mp hok
  cases hok
  rfl

/-- `unwrite` within its precondition drops bytes from the end. -/
theorem unwrite_spec (h : b.Inv) {len : Nat} (hl : len ≤ b.readableBytes) :
    ∃ b', b.unwrite len = .ok b' ∧ b'.Inv ∧
      b'.readable = b.readable.take (b.readable.length - len) ∧
      b'.readerIndex = b.readerIndex := by
  have hr := h.reader_le
  have hw := h.writer_le
  have hlen := readable_length h
  rw [unwrite, assert_true hl, ok_bind]
  rw [readableBytes] at hl hlen
  refine ⟨_, rfl, ⟨?_, ?_, h.cheap_le⟩, ?_, rfl⟩
  · dsimp only
    omega
  · dsimp only
    omega
  · have htake := StdVector.range_take b.buffer b.peek b.beginWrite
      (k := b.writerIndex - b.readerIndex - len) (Nat.sub_le _ _)
    have hend : b.peek + (b.writerIndex - b.readerIndex - len) = b.writerIndex - len := by
      rw [peek]
      omega
    rw [hlen, readable, readable, htake, hend]
    rfl

/-- `retrieveAsString` hands out exactly the bytes it drops. -/
theorem retrieveAsString_spec (h : b.Inv) {len : Nat} (hl : len ≤ b.readableBytes) :
    ∃ b', b.retrieveAsString len = .ok (b.readable.take len, b') ∧ b'.Inv ∧
      b'.readable = b.readable.drop len ∧ b'.buffer = b.buffer ∧
      (b'.readerIndex = b.readerIndex + len ∨ b' = b.retrieveAll) := by
  obtain ⟨b', hok, hi, hr, hb, hx⟩ := retrieve_spec h hl
  refine ⟨b', ?_, hi, hr, hb, hx⟩
  have htake : b.readable.take len = StdVector.range b.buffer b.peek (b.peek + len) :=
    StdVector.range_take b.buffer b.peek b.beginWrite hl
  rw [retrieveAsString, assert_true hl, ok_bind, hok, ok_bind, htake]
  rfl

/-- A scatter read adds the delivered bytes at the end, however they were split. -/
theorem readFd_spec (h : b.Inv) (bytes : Bytes) :
    ∃ b', b.readFd (.data bytes) = .ok b' ∧ b'.Inv ∧ b'.readable = b.readable ++ bytes := by
  have hroom : (bytes.take b.writableBytes).length ≤ b.writableBytes := by
    rw [List.length_take]
    exact Nat.min_le_left _ _
  obtain ⟨b₁, b₂, hw, hh, hi, hr, hrd, hlen, hwr, hb₁, hbuf⟩ := write_hasWritten_spec h hroom
  have hb₂ : b₂ = { b₁ with writerIndex := b.writerIndex + (bytes.take b.writableBytes).length } := by
    rw [hasWritten, assert_bind_ok] at hh
    cases hh.2
    rw [hb₁]
  rw [readFd, hw, ok_bind]
  by_cases hle : bytes.length ≤ b.writableBytes
  · rw [List.take_of_length_le hle] at hb₂ hr
    rw [if_pos hle]
    refine ⟨b₂, ?_, hi, hr⟩
    rw [hb₂, hb₁]
    rfl
  · have hfull : b₂ = { b₁ with writerIndex := b₁.buffer.length } := by
      have hw' := h.writer_le
      rw [hb₂, ← hbuf, hlen, List.length_take, writableBytes]
      congr 1
      rw [writableBytes] at hle
      omega
    obtain ⟨b₃, hok, hi', hr', _⟩ := append_spec hi (bytes.drop b.writableBytes)
    rw [if_neg hle, ← hfull]
    exact ⟨b₃, hok, hi', by rw [hr', hr, List.append_assoc, List.take_append_drop]⟩

end Buffer
end Muduo.Net
