import Muduo.Net.Buffer

/-! `muduo::net::Buffer` with the arithmetic of `size_t`, on a vector that throws when it is
asked for more than `max_size()` bytes. As long as it is not, these calls are the ones
that count in `Nat`. -/
namespace Muduo.Net.SizedBuffer
open Muduo.Support

/-- A sum in `size_t`. -/
def sizeT (n : Nat) : Nat := n % 18446744073709551616

/-- A difference in `size_t`. -/
def minus (m n : Nat) : Nat := sizeT (m + 18446744073709551616 - n)

/-- `max_size()` of a vector of bytes. -/
def maxSize : Nat := 9223372036854775807

def resize (v : Bytes) (n : Nat) : Except Fault Bytes :=
  if n ≤ maxSize then .ok (StdVector.resize v n) else .error .lengthError

def readableBytes (b : Buffer) : Nat := minus b.writerIndex b.readerIndex
def writableBytes (b : Buffer) : Nat := minus b.buffer.length b.writerIndex

/-- The constructor; `buffer_(n)` value-initialises `n` bytes. -/
def new (initialSize : Nat := Buffer.kInitialSize) : Except Fault Buffer := do
  let buffer ← resize [] (sizeT (Buffer.kCheapPrepend + initialSize))
  let b : Buffer := ⟨buffer, Buffer.kCheapPrepend, Buffer.kCheapPrepend⟩
  assert (readableBytes b = 0)
  assert (writableBytes b = initialSize)
  assert (b.prependableBytes = Buffer.kCheapPrepend)
  return b

def retrieve (b : Buffer) (len : Nat) : Except Fault Buffer := do
  assert (len ≤ readableBytes b)
  if len < readableBytes b then
    return { b with readerIndex := sizeT (b.readerIndex + len) }
  else
    return b.retrieveAll

def retrieveUntil (b : Buffer) (last : Nat) : Except Fault Buffer := do
  assert (b.peek ≤ last)
  assert (last ≤ b.beginWrite)
  retrieve b (minus last b.peek)

def retrieveAsString (b : Buffer) (len : Nat) : Except Fault (Bytes × Buffer) := do
  assert (len ≤ readableBytes b)
  let result := StdVector.range b.buffer b.peek (b.peek + len)
  let b ← retrieve b len
  return (result, b)

/-- Grow the vector, or move the readable bytes down to `kCheapPrepend`. -/
def makeSpace (b : Buffer) (len : Nat) : Except Fault Buffer :=
  if sizeT (writableBytes b + b.prependableBytes) < sizeT (len + Buffer.kCheapPrepend) then do
    let buffer ← resize b.buffer (sizeT (b.writerIndex + len))
    return { b with buffer }
  else do
    assert (Buffer.kCheapPrepend < b.readerIndex)
    let readable := readableBytes b
    let moved ← StdVector.copyWithin b.buffer b.readerIndex Buffer.kCheapPrepend
      (b.writerIndex - b.readerIndex)
    let b : Buffer := ⟨moved, Buffer.kCheapPrepend, sizeT (Buffer.kCheapPrepend + readable)⟩
    assert (readable = readableBytes b)
    return b

def ensureWritableBytes (b : Buffer) (len : Nat) : Except Fault Buffer := do
  let b ← if writableBytes b < len then makeSpace b len else pure b
  assert (len ≤ writableBytes b)
  return b

def hasWritten (b : Buffer) (len : Nat) : Except Fault Buffer := do
  assert (len ≤ writableBytes b)
  return { b with writerIndex := sizeT (b.writerIndex + len) }

def unwrite (b : Buffer) (len : Nat) : Except Fault Buffer := do
  assert (len ≤ readableBytes b)
  return { b with writerIndex := minus b.writerIndex len }

/-- `append(data, len)`, where `data` points into `src`. -/
def append (b : Buffer) (src : Bytes) (data len : Nat) : Except Fault Buffer := do
  let b ← ensureWritableBytes b len
  if data + len ≤ src.length then
    let b ← b.writeAtBeginWrite (StdVector.range src data (data + len))
    hasWritten b len
  else .error .memory

def prepend (b : Buffer) (data : Bytes) : Except Fault Buffer := do
  assert (data.length ≤ b.prependableBytes)
  let readerIndex := minus b.readerIndex data.length
  let buffer ← StdVector.copyIn b.buffer readerIndex data
  return { b with buffer, readerIndex }

/-- A buffer as it should be, in a vector that can exist. -/
structure Valid (b : Buffer) : Prop extends Buffer.Inv b where
  fits : b.buffer.length ≤ maxSize

/-- There is, or can be had, room for `len` more bytes. -/
def Fits (b : Buffer) (len : Nat) : Prop :=
  b.writerIndex + len ≤ maxSize ∨
    len + Buffer.kCheapPrepend ≤ b.writableBytes + b.prependableBytes

/-- The sums that `makeSpace(len)` forms stay below 2^64. -/
def NoWrap (b : Buffer) (len : Nat) : Prop :=
  max Buffer.kCheapPrepend b.writerIndex + len < 18446744073709551616

instance (b : Buffer) (len : Nat) : Decidable (Fits b len) := inferInstanceAs (Decidable (_ ∨ _))
instance (b : Buffer) (len : Nat) : Decidable (NoWrap b len) := inferInstanceAs (Decidable (_ < _))

variable {b b' : Buffer} {len initialSize : Nat} {data : Bytes}

theorem sizeT_eq {n : Nat} (h : n < 18446744073709551616) : sizeT n = n := Nat.mod_eq_of_lt h

theorem minus_eq {m n : Nat} (hle : n ≤ m) (hm : m ≤ maxSize) : minus m n = m - n := by
  unfold maxSize at hm
  unfold minus sizeT
  omega

theorem minus_self (n : Nat) : minus n n = 0 := by
  unfold minus sizeT
  omega

namespace Valid

theorem readableBytes_eq (h : Valid b) : readableBytes b = b.readableBytes :=
  minus_eq h.reader_le (h.writer_le.trans h.fits)

theorem writableBytes_eq (h : Valid b) : writableBytes b = b.writableBytes :=
  minus_eq h.writer_le h.fits

/-- In a vector that can exist, a position inside it is a `size_t`. -/
theorem sizeT_inside (h : Valid b) {n : Nat} (hn : n ≤ b.buffer.length) : sizeT n = n := by
  have hb := h.fits
  unfold maxSize at hb
  exact sizeT_eq (by omega)

theorem retrieve_eq (h : Valid b) (len : Nat) : retrieve b len = b.retrieve len := by
  have hr := h.reader_le
  have hw := h.writer_le
  rw [retrieve, Buffer.retrieve, h.readableBytes_eq]
  congr 1
  funext _
  by_cases hlt : len < b.readableBytes
  · have hsum : sizeT (b.readerIndex + len) = b.readerIndex + len := by
      unfold Buffer.readableBytes at hlt
      exact h.sizeT_inside (by omega)
    rw [if_pos hlt, if_pos hlt, hsum]
  · rw [if_neg hlt, if_neg hlt]

theorem retrieveUntil_eq (h : Valid b) (last : Nat) :
    retrieveUntil b last = b.retrieveUntil last := by
  have hw := h.writer_le
  rw [retrieveUntil, Buffer.retrieveUntil]
  by_cases hp : b.peek ≤ last
  · rw [assert_bind_true hp, assert_bind_true hp]
    by_cases hl : last ≤ b.beginWrite
    · rw [assert_bind_true hl, assert_bind_true hl, minus_eq hp ((hl.trans hw).trans h.fits),
        h.retrieve_eq]
    · rw [assert_bind_false hl, assert_bind_false hl]
  · rw [assert_bind_false hp, assert_bind_false hp]

theorem retrieveAsString_eq (h : Valid b) (len : Nat) :
    retrieveAsString b len = b.retrieveAsString len := by
  rw [retrieveAsString, Buffer.retrieveAsString, h.readableBytes_eq]
  dsimp only
  rw [h.retrieve_eq]

theorem hasWritten_eq (h : Valid b) (len : Nat) : hasWritten b len = b.hasWritten len := by
  have hw := h.writer_le
  rw [hasWritten, Buffer.hasWritten, h.writableBytes_eq]
  by_cases hl : len ≤ b.writableBytes
  · have hsum : sizeT (b.writerIndex + len) = b.writerIndex + len := by
      unfold Buffer.writableBytes at hl
      exact h.sizeT_inside (by omega)
    rw [assert_bind_true hl, assert_bind_true hl, hsum]
  · rw [assert_bind_false hl, assert_bind_false hl]

theorem unwrite_eq (h : Valid b) (len : Nat) : unwrite b len = b.unwrite len := by
  have hw := h.writer_le.trans h.fits
  rw [unwrite, Buffer.unwrite, h.readableBytes_eq]
  by_cases hl : len ≤ b.readableBytes
  · have hle : len ≤ b.writerIndex := hl.trans (Nat.sub_le _ _)
    rw [assert_bind_true hl, assert_bind_true hl, minus_eq hle hw]
  · rw [assert_bind_false hl, assert_bind_false hl]

theorem prepend_eq (h : Valid b) (data : Bytes) : prepend b data = b.prepend data := by
  have hr := (h.reader_le.trans h.writer_le).trans h.fits
  rw [prepend, Buffer.prepend]
  by_cases hl : data.length ≤ b.prependableBytes
  · have hle : data.length ≤ b.readerIndex := hl
    rw [assert_bind_true hl, assert_bind_true hl, minus_eq hle hr]
  · rw [assert_bind_false hl, assert_bind_false hl]

/-- The guard of `makeSpace` compares what it should. -/
theorem guard_iff (h : Valid b) (hl : len + Buffer.kCheapPrepend < 18446744073709551616) :
    sizeT (writableBytes b + b.prependableBytes) < sizeT (len + Buffer.kCheapPrepend) ↔
      b.writableBytes + b.prependableBytes < len + Buffer.kCheapPrepend := by
  have hr := h.reader_le
  have hw := h.writer_le
  have hsum : b.writableBytes + b.prependableBytes ≤ b.buffer.length := by
    unfold Buffer.writableBytes Buffer.prependableBytes
    omega
  rw [h.writableBytes_eq, h.sizeT_inside hsum, sizeT_eq hl]

theorem noWrap (h : Valid b) (hf : Fits b len) : NoWrap b len := by
  have hr := h.reader_le
  have hw := h.writer_le
  have hb := h.fits
  unfold maxSize at hb
  unfold Fits Buffer.writableBytes Buffer.prependableBytes Buffer.kCheapPrepend maxSize at hf
  unfold NoWrap Buffer.kCheapPrepend
  omega

/-- The moving branch copies the readable bytes, and the result is a buffer again. -/
theorem moved (h : Valid b) (hk : Buffer.kCheapPrepend < b.readerIndex) : ∃ moved,
    StdVector.copyWithin b.buffer b.readerIndex Buffer.kCheapPrepend
      (b.writerIndex - b.readerIndex) = .ok moved ∧
    Valid ⟨moved, Buffer.kCheapPrepend, Buffer.kCheapPrepend + b.readableBytes⟩ ∧
    sizeT (Buffer.kCheapPrepend + b.readableBytes) = Buffer.kCheapPrepend + b.readableBytes := by
  have hr := h.reader_le
  have hw := h.writer_le
  have hrange := StdVector.range_length_of_le b.readerIndex hw
  have hend : b.readerIndex + (b.writerIndex - b.readerIndex) = b.writerIndex :=
    Nat.add_sub_cancel' hr
  have hfit : Buffer.kCheapPrepend + (StdVector.range b.buffer b.readerIndex b.writerIndex).length ≤
      b.buffer.length := by omega
  have hcopy := StdVector.copyIn_eq b.buffer Buffer.kCheapPrepend _ hfit
  have hlen := StdVector.copyIn_length hcopy
  refine ⟨_, ?_, ⟨⟨Nat.le_add_right _ _, ?_, hlen ▸ h.cheap_le⟩, hlen ▸ h.fits⟩, ?_⟩
  · rw [StdVector.copyWithin_eq _ _ _ _ hk.le (by omega), hend]
    exact hcopy
  · rw [hlen]
    unfold Buffer.readableBytes
    dsimp only
    omega
  · unfold Buffer.readableBytes
    exact h.sizeT_inside (by omega)

theorem makeSpace_eq (h : Valid b) (hf : Fits b len) : makeSpace b len = b.makeSpace len := by
  have hn := h.noWrap hf
  unfold NoWrap at hn
  rw [makeSpace, Buffer.makeSpace, h.readableBytes_eq]
  by_cases hg : b.writableBytes + b.prependableBytes < len + Buffer.kCheapPrepend
  · have hsize : sizeT (b.writerIndex + len) = b.writerIndex + len := sizeT_eq (by omega)
    have hroom : b.writerIndex + len ≤ maxSize := hf.resolve_right (by omega)
    rw [if_pos ((h.guard_iff (by omega)).mpr hg), if_pos hg, hsize, resize, if_pos hroom]
    rfl
  · rw [if_neg (mt (h.guard_iff (by omega)).mp hg), if_neg hg]
    by_cases hk : Buffer.kCheapPrepend < b.readerIndex
    · obtain ⟨moved, hcopy, hmoved, hsum⟩ := h.moved hk
      rw [assert_bind_true hk, assert_bind_true hk]
      dsimp only
      rw [hsum, hcopy, ok_bind, ok_bind, hmoved.readableBytes_eq]
    · rw [assert_bind_false hk, assert_bind_false hk]

theorem makeSpace_valid (h : Valid b) (hf : Fits b len) (hi : b'.Inv)
    (hok : b.makeSpace len = .ok b') : Valid b' := by
  refine ⟨hi, ?_⟩
  rcases Buffer.makeSpace_length h.toInv hok with ⟨hg, hlen⟩ | hlen
  · exact hlen ▸ hf.resolve_right (Nat.not_le.mpr hg)
  · exact hlen ▸ h.fits

theorem ensureWritableBytes_eq (h : Valid b) (hf : Fits b len) :
    ensureWritableBytes b len = b.ensureWritableBytes len := by
  rw [ensureWritableBytes, Buffer.ensureWritableBytes, h.writableBytes_eq]
  by_cases hw : b.writableBytes < len
  · obtain ⟨b', hok, hi, _⟩ := Buffer.makeSpace_spec h.toInv hw
    rw [if_pos hw, if_pos hw, h.makeSpace_eq hf, hok, ok_bind, ok_bind]
    dsimp only
    rw [(h.makeSpace_valid hf hi hok).writableBytes_eq]
  · rw [if_neg hw, if_neg hw]
    change (assert (len ≤ writableBytes b) >>= _) = (assert (len ≤ b.writableBytes) >>= _)
    rw [h.writableBytes_eq]

/-- Within the bounds `ensureWritableBytes` makes room and keeps the readable bytes. -/
theorem ensureWritableBytes_spec (h : Valid b) (hf : Fits b len) :
    ∃ b', ensureWritableBytes b len = .ok b' ∧ Valid b' ∧ b'.readable = b.readable ∧
      len ≤ b'.writableBytes ∧ min b.readerIndex Buffer.kCheapPrepend ≤ b'.readerIndex := by
  obtain ⟨b', hok, hi, hr, hl, hp⟩ := Buffer.ensureWritableBytes_spec h.toInv len
  refine ⟨b', (h.ensureWritableBytes_eq hf).trans hok, ⟨hi, ?_⟩, hr, hl, hp⟩
  rw [Buffer.ensureWritableBytes] at hok
  by_cases hw : b.writableBytes < len
  · rw [if_pos hw] at hok
    obtain ⟨b₁, hm, hok⟩ := bind_ok.mp hok
    obtain ⟨_, hok⟩ := assert_bind_ok.mp hok
    cases hok
    exact (h.makeSpace_valid hf hi hm).fits
  · rw [if_neg hw] at hok
    obtain ⟨_, hok⟩ := assert_bind_ok.mp hok
    cases hok
    exact h.fits

/-- Where the sums are right and the vector cannot be so long, it throws. -/
theorem ensureWritableBytes_throws (h : Valid b) (hn : NoWrap b len) (hf : ¬ Fits b len) :
    ensureWritableBytes b len = .error .lengthError := by
  have hw := h.writer_le
  have hb := h.fits
  obtain ⟨hlong, hfull⟩ := not_or.mp hf
  have hg : b.writableBytes + b.prependableBytes < len + Buffer.kCheapPrepend := by omega
  have hshort : b.writableBytes < len := by
    unfold Buffer.writableBytes
    omega
  unfold NoWrap at hn
  have hsize : sizeT (b.writerIndex + len) = b.writerIndex + len := sizeT_eq (by omega)
  rw [ensureWritableBytes, h.writableBytes_eq, if_pos hshort, makeSpace,
    if_pos ((h.guard_iff (by omega)).mpr hg), hsize, resize, if_neg hlong]
  rfl

/-- Where the new size wraps, the growing branch cuts the vector below `writerIndex_`, and
`writableBytes()`, which wraps too, hides it. -/
theorem makeSpace_cuts (h : Valid b) (hl : len < 18446744073709551616)
    (hover : 18446744073709551616 ≤ b.writerIndex + len)
    (hg : sizeT (writableBytes b + b.prependableBytes) < sizeT (len + Buffer.kCheapPrepend)) :
    ∃ b', makeSpace b len = .ok b' ∧ len ≤ writableBytes b' ∧
      b'.buffer.length < b'.writerIndex := by
  have hw := h.writer_le.trans h.fits
  have hmax : maxSize = 9223372036854775807 := rfl
  have hsize : sizeT (b.writerIndex + len) = b.writerIndex + len - 18446744073709551616 := by
    unfold sizeT
    omega
  refine ⟨⟨StdVector.resize b.buffer (b.writerIndex + len - 18446744073709551616),
    b.readerIndex, b.writerIndex⟩, ?_, ?_, ?_⟩
  · rw [makeSpace, if_pos hg, hsize, resize, if_pos (by omega)]
    rfl
  · unfold writableBytes minus sizeT
    rw [StdVector.resize_length]
    dsimp only
    omega
  · rw [StdVector.resize_length]
    dsimp only
    omega

/-- The moving branch makes a buffer as it should be, if its assertion lets it. -/
theorem makeSpace_moves (h : Valid b)
    (hg : ¬ sizeT (writableBytes b + b.prependableBytes) < sizeT (len + Buffer.kCheapPrepend)) :
    makeSpace b len = .error .assertion ∨
      ∃ b', makeSpace b len = .ok b' ∧ Valid b' := by
  rw [makeSpace, if_neg hg, h.readableBytes_eq]
  by_cases hk : Buffer.kCheapPrepend < b.readerIndex
  · obtain ⟨moved, hcopy, hmoved, hsum⟩ := h.moved hk
    have hsame : b.readableBytes = readableBytes ⟨moved, Buffer.kCheapPrepend,
        Buffer.kCheapPrepend + b.readableBytes⟩ :=
      (hmoved.readableBytes_eq.trans (Nat.add_sub_cancel_left _ _)).symm
    refine .inr ⟨_, ?_, hmoved⟩
    rw [assert_bind_true hk]
    dsimp only
    rw [hcopy, ok_bind, hsum, assert_bind_true hsame]
    rfl
  · exact .inl (assert_bind_false hk _)

/-- Where a sum wraps, an assertion fails, or the vector is cut below `writerIndex_` and
`writableBytes()`, which wraps too, hides it from the assertion. -/
theorem ensureWritableBytes_wraps (h : Valid b) (hl : len < 18446744073709551616)
    (hn : ¬ NoWrap b len) : ensureWritableBytes b len = .error .assertion ∨
      (b.writableBytes + b.prependableBytes < sizeT (len + Buffer.kCheapPrepend) ∧
        ∃ b', ensureWritableBytes b len = .ok b' ∧ b'.buffer.length < b'.writerIndex) := by
  have hr := h.reader_le
  have hw := h.writer_le
  have hc := h.cheap_le
  have hb := h.fits
  have hmax : maxSize = 9223372036854775807 := rfl
  have hinside : b.writableBytes + b.prependableBytes ≤ b.buffer.length := by
    unfold Buffer.writableBytes Buffer.prependableBytes
    omega
  unfold NoWrap at hn
  have hlong : b.buffer.length < len := by omega
  have hshort : b.writableBytes < len := (Nat.sub_le _ _).trans_lt hlong
  rw [ensureWritableBytes, h.writableBytes_eq, if_pos hshort]
  by_cases hg : sizeT (writableBytes b + b.prependableBytes) < sizeT (len + Buffer.kCheapPrepend)
  · have hguard := hg
    rw [h.writableBytes_eq, h.sizeT_inside hinside] at hguard
    have hover : 18446744073709551616 ≤ b.writerIndex + len := by
      unfold Buffer.writableBytes Buffer.prependableBytes sizeT Buffer.kCheapPrepend at hguard
      unfold Buffer.kCheapPrepend at hn hc
      omega
    obtain ⟨b', hok, hroom, hcut⟩ := h.makeSpace_cuts hl hover hg
    refine .inr ⟨hguard, b', ?_, hcut⟩
    rw [hok]
    exact assert_bind_true hroom _
  · left
    rcases h.makeSpace_moves hg with hfail | ⟨b', hok, hv⟩
    · rw [hfail, error_bind]
    · have hfits := hv.fits
      have hnot : ¬ len ≤ writableBytes b' := by
        rw [hv.writableBytes_eq]
        unfold Buffer.writableBytes
        omega
      rw [hok]
      exact assert_bind_false hnot _

/-- Within the bounds bytes of a vector are appended as a list of them is. -/
theorem append_spec (h : Valid b) {src : Bytes} {data : Nat} (hf : Fits b len)
    (hs : data + len ≤ src.length) : ∃ b', append b src data len = .ok b' ∧
      b.append (StdVector.range src data (data + len)) = .ok b' ∧ Valid b' ∧
      b.writableBytes ≤ b'.writableBytes + len := by
  have hlen : (StdVector.range src data (data + len)).length = len := by
    rw [StdVector.range_length_of_le data hs, Nat.add_sub_cancel_left]
  obtain ⟨b₁, hok, hv, _, hl, _⟩ := h.ensureWritableBytes_spec hf
  have hsame : len ≤ b.writableBytes → b₁ = b := by
    intro hroom
    rw [ensureWritableBytes, h.writableBytes_eq, if_neg (Nat.not_lt.mpr hroom)] at hok
    obtain ⟨_, hok⟩ := assert_bind_ok.mp hok
    cases hok
    rfl
  have hl' := hl
  rw [← hlen] at hl'
  obtain ⟨b₂, b₃, hw, hh, hi, _, _, hbuf, hwr, hb₂, hb₃⟩ :=
    Buffer.write_hasWritten_spec hv.toInv hl'
  have hsize : b₂.buffer.length = b₁.buffer.length := hb₃ ▸ hbuf
  have hv₂ : Valid b₂ := by
    rw [hb₂]
    exact ⟨⟨hv.reader_le, hsize ▸ hv.writer_le, hsize ▸ hv.cheap_le⟩, hsize ▸ hv.fits⟩
  rw [hlen] at hh hwr
  refine ⟨b₃, ?_, ?_, ⟨hi, hbuf ▸ hv.fits⟩, ?_⟩
  · rw [append, hok, ok_bind, if_pos hs, hw, ok_bind, hv₂.hasWritten_eq, hh]
  · rw [Buffer.append, hlen, ← h.ensureWritableBytes_eq hf, hok, ok_bind, hw, ok_bind, hh]
  · by_cases hroom : len ≤ b.writableBytes
    · rw [hsame hroom] at hbuf hwr
      unfold Buffer.writableBytes
      omega
    · omega

/-- A wrapped sum is not survived by `append`: where the vector was cut, the copy leaves it. -/
theorem append_wraps (h : Valid b) (hl : data.length < 18446744073709551616)
    (hn : ¬ NoWrap b data.length) :
    append b data 0 data.length = .error .assertion ∨
      append b data 0 data.length = .error .memory := by
  have hne : data ≠ [] := by
    rintro rfl
    have hw := h.writer_le
    have hb := h.fits
    have hmax : maxSize = 9223372036854775807 := rfl
    unfold NoWrap Buffer.kCheapPrepend at hn
    rw [List.length_nil] at hn
    omega
  rcases h.ensureWritableBytes_wraps hl hn with hfail | ⟨_, b', hok, hcut⟩
  · left
    rw [append, hfail, error_bind]
  · right
    rw [append, hok, ok_bind, if_pos (by omega), Nat.zero_add, StdVector.range_all,
      Buffer.writeAtBeginWrite, Buffer.beginWrite, StdVector.copyIn_outside hcut.le hne]
    rfl

end Valid

theorem new_valid (h : Buffer.kCheapPrepend + initialSize ≤ maxSize) :
    Valid (.new initialSize) := by
  have hlen : (Buffer.new initialSize).buffer.length = Buffer.kCheapPrepend + initialSize :=
    List.length_replicate
  exact ⟨Buffer.new_inv initialSize, hlen ▸ h⟩

theorem new_eq (h : Buffer.kCheapPrepend + initialSize ≤ maxSize) :
    new initialSize = .ok (.new initialSize) := by
  have hsize : sizeT (Buffer.kCheapPrepend + initialSize) =
      Buffer.kCheapPrepend + initialSize := by
    unfold maxSize at h
    exact sizeT_eq (by omega)
  have hvalid := new_valid h
  have hreplicate : StdVector.resize [] (Buffer.kCheapPrepend + initialSize) =
      (Buffer.new initialSize).buffer := by
    rw [StdVector.resize, List.take_nil, List.nil_append]
    rfl
  obtain ⟨hread, hwrite, hfront⟩ := Buffer.new_spaces initialSize
  rw [new, hsize, resize, if_pos h, ok_bind, hreplicate]
  change (assert (readableBytes (.new initialSize) = 0) >>= _) = _
  rw [assert_bind_true (hvalid.readableBytes_eq.trans hread)]
  change (assert (writableBytes (.new initialSize) = initialSize) >>= _) = _
  rw [assert_bind_true (hvalid.writableBytes_eq.trans hwrite)]
  rfl

theorem new_throws (hn : Buffer.kCheapPrepend + initialSize < 18446744073709551616)
    (hf : ¬ Buffer.kCheapPrepend + initialSize ≤ maxSize) :
    new initialSize = .error .lengthError := by
  rw [new, sizeT_eq hn, resize, if_neg hf, error_bind]

/-- Where the sum wraps, the vector does not even hold the cheap front, and no assertion of
the constructor sees it. -/
theorem new_wraps (hl : initialSize < 18446744073709551616)
    (hn : ¬ Buffer.kCheapPrepend + initialSize < 18446744073709551616) :
    ∃ b, new initialSize = .ok b ∧ b.buffer.length < b.writerIndex := by
  have hmax : maxSize = 9223372036854775807 := rfl
  have hcheap : Buffer.kCheapPrepend = 8 := rfl
  have hlen := StdVector.resize_length ([] : Bytes)
    (Buffer.kCheapPrepend + initialSize - 18446744073709551616)
  have hsize : sizeT (Buffer.kCheapPrepend + initialSize) =
      Buffer.kCheapPrepend + initialSize - 18446744073709551616 := by
    unfold sizeT
    omega
  generalize hbuf : StdVector.resize ([] : Bytes)
    (Buffer.kCheapPrepend + initialSize - 18446744073709551616) = buffer at hlen
  have hread : readableBytes ⟨buffer, Buffer.kCheapPrepend, Buffer.kCheapPrepend⟩ = 0 :=
    minus_self _
  have hwrite : writableBytes ⟨buffer, Buffer.kCheapPrepend, Buffer.kCheapPrepend⟩ =
      initialSize := by
    unfold writableBytes minus sizeT
    dsimp only
    omega
  refine ⟨⟨buffer, Buffer.kCheapPrepend, Buffer.kCheapPrepend⟩, ?_, by dsimp only; omega⟩
  rw [new, hsize, resize, if_pos (by omega), hbuf, ok_bind]
  dsimp only
  rw [assert_bind_true hread, assert_bind_true hwrite]
  rfl

end Muduo.Net.SizedBuffer
