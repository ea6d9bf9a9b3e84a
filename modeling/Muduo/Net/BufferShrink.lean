import Muduo.Net.SizedBuffer

/-! `Buffer::shrink` with the arithmetic of `size_t` and `int`, on a vector that throws
when it is asked for more than `max_size()` bytes. -/
namespace Muduo.Net.BufferShrink
open Muduo.Support SizedBuffer

/-- `static_cast<int>` of a `size_t`. -/
def toInt (n : Nat) : Int := (BitVec.ofNat 32 n).toInt

/-- An `int` that becomes a `size_t`. -/
def ofInt (i : Int) : Nat := (i % 18446744073709551616).toNat

/-- A pointer into a buffer and an `int` length. -/
structure StringPiece where
  ptr : Nat
  length : Int

def toStringPiece (b : Buffer) : StringPiece := ⟨b.peek, toInt (readableBytes b)⟩

def shrink (b : Buffer) (reserve : Nat) : Except Fault Buffer := do
  let other ← SizedBuffer.new
  let other ← ensureWritableBytes other (sizeT (readableBytes b + reserve))
  let str := toStringPiece b
  let other ← append other b.buffer str.ptr (ofInt str.length)
  return (b.swap other).1

/-- `shrink` returns, keeps the readable bytes and leaves room for `reserve` more. -/
def Keeps (b : Buffer) (reserve : Nat) : Prop :=
  ∃ b', shrink b reserve = .ok b' ∧ b'.readable = b.readable ∧ reserve ≤ b'.writableBytes

/-- A buffer without content, as `shrink` starts with. -/
structure Blank (b : Buffer) : Prop extends Valid b where
  reader : b.readerIndex = 8
  writer : b.writerIndex = 8

variable {b : Buffer} {len reserve data : Nat} {src : Bytes}

theorem new_blank : Blank .new := ⟨new_valid (by decide), rfl, rfl⟩

/-- Of an `int` the low bits are left, and the sign is extended. -/
theorem ofInt_toInt (n : Nat) : ofInt (toInt n) =
    if n % 4294967296 ≤ 2147483647 then n % 4294967296
    else n % 4294967296 + 18446744069414584320 := by
  have hn : (BitVec.ofNat 32 n).toNat = n % 4294967296 := BitVec.toNat_ofNat n 32
  unfold ofInt toInt
  rw [BitVec.toInt_eq_toNat_cond, hn]
  split
  · split <;> omega
  · split <;> omega

/-- The length that `append` gets: `readableBytes()`, through `int`. -/
theorem length_cast (h : b.Inv) : ofInt (toInt (readableBytes b)) =
    if b.readableBytes % 4294967296 ≤ 2147483647 then b.readableBytes % 4294967296
    else b.readableBytes % 4294967296 + 18446744069414584320 := by
  have hr := h.reader_le
  have hlow : readableBytes b % 4294967296 = b.readableBytes % 4294967296 := by
    unfold SizedBuffer.readableBytes minus sizeT Buffer.readableBytes
    omega
  rw [ofInt_toInt, hlow]

/-- The length that `ensureWritableBytes` gets. -/
theorem need_eq (h : b.Inv) (reserve : Nat) :
    sizeT (readableBytes b + reserve) = sizeT (b.readableBytes + reserve) := by
  have hr := h.reader_le
  unfold SizedBuffer.readableBytes minus sizeT Buffer.readableBytes
  omega

theorem Blank.fits_iff (h : Blank b) : Fits b len ↔ 8 + len ≤ maxSize := by
  have hc := h.cheap_le
  have hb := h.fits
  unfold Fits Buffer.writableBytes Buffer.prependableBytes
  rw [h.reader, h.writer]
  unfold Buffer.kCheapPrepend at hc ⊢
  omega

/-- The vector grows, if it has to; nothing is moved. -/
theorem Blank.ensure (h : Blank b) (hl : 8 + len ≤ maxSize) : ∃ b',
    ensureWritableBytes b len = .ok b' ∧ Blank b' ∧ len ≤ b'.writableBytes := by
  obtain ⟨b', hok, hv, _, hroom, _⟩ := h.ensureWritableBytes_spec (h.fits_iff.mpr hl)
  refine ⟨b', hok, ?_, hroom⟩
  rw [h.ensureWritableBytes_eq (h.fits_iff.mpr hl), Buffer.ensureWritableBytes] at hok
  by_cases hw : b.writableBytes < len
  · have hgrow : b.writableBytes + b.prependableBytes < len + Buffer.kCheapPrepend := by
      unfold Buffer.prependableBytes Buffer.kCheapPrepend
      rw [h.reader]
      omega
    rw [if_pos hw, Buffer.makeSpace, if_pos hgrow] at hok
    obtain ⟨_, hok⟩ := assert_bind_ok.mp hok
    cases hok
    exact ⟨hv, h.reader, h.writer⟩
  · rw [if_neg hw] at hok
    obtain ⟨_, hok⟩ := assert_bind_ok.mp hok
    cases hok
    exact h

/-- More than the vector can hold: it throws, or the sum of the guard wraps and the
assertion of the moving branch fails. -/
theorem Blank.ensure_fails (h : Blank b) (hl : maxSize < 8 + len)
    (ht : len < 18446744073709551616) : ∃ e, ensureWritableBytes b len = .error e := by
  by_cases hn : NoWrap b len
  · exact ⟨_, h.ensureWritableBytes_throws hn (mt h.fits_iff.mp (Nat.not_le.mpr hl))⟩
  · rcases h.ensureWritableBytes_wraps ht hn with hfail | ⟨hguard, _⟩
    · exact ⟨_, hfail⟩
    · have hc := h.cheap_le
      unfold NoWrap at hn
      unfold Buffer.writableBytes Buffer.prependableBytes at hguard
      rw [h.reader, h.writer] at hguard
      rw [h.writer] at hn
      unfold sizeT Buffer.kCheapPrepend at hguard
      unfold Buffer.kCheapPrepend at hc hn
      omega

/-- On a blank buffer `append` leaves just the bytes that it copies. -/
theorem Blank.append (h : Blank b) (hl : 8 + len ≤ maxSize) (hs : data + len ≤ src.length) :
    ∃ b', append b src data len = .ok b' ∧ Valid b' ∧
      b'.readable = StdVector.range src data (data + len) ∧
      b.writableBytes ≤ b'.writableBytes + len := by
  obtain ⟨b', hok, hlist, hv, hroom⟩ := h.append_spec (h.fits_iff.mpr hl) hs
  obtain ⟨b'', hlist', _, hr, _⟩ :=
    Buffer.append_spec h.toInv (StdVector.range src data (data + len))
  cases hlist.symm.trans hlist'
  have hempty : b.readable = [] := by
    rw [Buffer.readable_eq_nil h.toInv, Buffer.readableBytes, h.reader, h.writer]
  exact ⟨b', hok, hv, by rw [hr, hempty, List.nil_append], hroom⟩

/-- What `shrink` makes of lengths that go through. -/
theorem shrink_spec (h : b.Inv) (hneed : 8 + sizeT (b.readableBytes + reserve) ≤ maxSize)
    {m : Nat} (hm : ofInt (toInt (readableBytes b)) = m) (hle : m ≤ b.readableBytes)
    (hfit : 8 + m ≤ maxSize) : ∃ b', shrink b reserve = .ok b' ∧ Valid b' ∧
      b'.readable = b.readable.take m ∧
      sizeT (b.readableBytes + reserve) ≤ b'.writableBytes + m := by
  obtain ⟨b₁, hok, hblank, hroom⟩ := new_blank.ensure hneed
  have hsrc : b.peek + m ≤ b.buffer.length := by
    have hr := h.reader_le
    have hw := h.writer_le
    unfold Buffer.readableBytes at hle
    unfold Buffer.peek
    omega
  obtain ⟨b₂, hok', hv, hr, hw⟩ := hblank.append hfit hsrc
  refine ⟨b₂, ?_, hv, ?_, hroom.trans hw⟩
  · unfold shrink
    rw [new_eq (by decide), ok_bind, need_eq h, hok, ok_bind, toStringPiece]
    dsimp only
    rw [hm, hok']
    rfl
  · rw [hr]
    exact (StdVector.range_take b.buffer b.peek b.beginWrite hle).symm

/-- A reservation that is too big, or a length that becomes huge, ends the call. -/
theorem shrink_fails (hi : b.Inv) (reserve : Nat)
    (h : maxSize < 8 + sizeT (b.readableBytes + reserve) ∨
      2147483647 < b.readableBytes % 4294967296) : ∃ e, shrink b reserve = .error e := by
  have ht : sizeT (b.readableBytes + reserve) < 18446744073709551616 :=
    Nat.mod_lt _ (by decide)
  have hmax : maxSize = 9223372036854775807 := rfl
  unfold shrink
  rw [new_eq (by decide), ok_bind, need_eq hi, toStringPiece]
  by_cases hneed : maxSize < 8 + sizeT (b.readableBytes + reserve)
  · obtain ⟨e, he⟩ := new_blank.ensure_fails hneed ht
    exact ⟨e, by rw [he, error_bind]⟩
  · have hneg := h.resolve_left hneed
    have hlen := length_cast hi
    rw [if_neg (Nat.not_le.mpr hneg)] at hlen
    obtain ⟨b₁, hok, hblank, _⟩ := new_blank.ensure (Nat.le_of_not_lt hneed)
    have hlong : maxSize < 8 + ofInt (toInt (readableBytes b)) := by omega
    have hsize : ofInt (toInt (readableBytes b)) < 18446744073709551616 := by omega
    obtain ⟨e, he⟩ := hblank.ensure_fails hlong hsize
    refine ⟨e, ?_⟩
    rw [hok, ok_bind]
    dsimp only
    rw [append, he]
    rfl

/-- What a call of `shrink` that returned has made of the buffer. -/
theorem shrink_ok {b' : Buffer} (h : b.Inv) (hok : shrink b reserve = .ok b') :
    8 + sizeT (b.readableBytes + reserve) ≤ maxSize ∧
      b.readableBytes % 4294967296 ≤ 2147483647 ∧ Valid b' ∧
      b'.readable = b.readable.take (b.readableBytes % 4294967296) ∧
      sizeT (b.readableBytes + reserve) ≤
        b'.writableBytes + b.readableBytes % 4294967296 := by
  have hmax : maxSize = 9223372036854775807 := rfl
  have hreturns : ¬ ∃ e, shrink b reserve = .error e := by
    rintro ⟨e, he⟩
    cases hok.symm.trans he
  have hneed : 8 + sizeT (b.readableBytes + reserve) ≤ maxSize :=
    Nat.le_of_not_lt fun hn => hreturns (shrink_fails h reserve (.inl hn))
  have hint : b.readableBytes % 4294967296 ≤ 2147483647 :=
    Nat.le_of_not_lt fun hn => hreturns (shrink_fails h reserve (.inr hn))
  have hcast := length_cast h
  rw [if_pos hint] at hcast
  obtain ⟨b'', hok', hv, hread, hroom⟩ :=
    shrink_spec h hneed hcast (Nat.mod_le _ _) (by omega)
  cases hok.symm.trans hok'
  exact ⟨hneed, hint, hv, hread, hroom⟩

/-- `shrink` does what it should exactly for lengths that an `int` holds and reservations
that the vector can hold. -/
theorem shrink_keeps_iff (h : b.Inv) (hb : b.buffer.length ≤ maxSize)
    (hr : reserve < 18446744073709551616) :
    Keeps b reserve ↔ b.readableBytes ≤ 2147483647 ∧
      Buffer.kCheapPrepend + b.readableBytes + reserve ≤ maxSize := by
  have hmax : maxSize = 9223372036854775807 := rfl
  have hn : b.readableBytes ≤ maxSize := by
    have := h.writer_le
    unfold Buffer.readableBytes
    omega
  have hlen := Buffer.readable_length h
  unfold Buffer.kCheapPrepend
  constructor
  · rintro ⟨b', hok, hread, hroom⟩
    obtain ⟨hneed, hint, hv, hread', _⟩ := shrink_ok h hok
    have htake := congrArg List.length (hread.symm.trans hread')
    rw [List.length_take, hlen] at htake
    have hroom' : b'.writableBytes ≤ maxSize := (Nat.sub_le _ _).trans hv.fits
    unfold sizeT at hneed
    omega
  · rintro ⟨hint, hfit⟩
    have hsum : sizeT (b.readableBytes + reserve) = b.readableBytes + reserve :=
      sizeT_eq (by omega)
    have hlow : b.readableBytes % 4294967296 = b.readableBytes := Nat.mod_eq_of_lt (by omega)
    have hneed : 8 + sizeT (b.readableBytes + reserve) ≤ maxSize := by omega
    have hcast := length_cast h
    rw [hlow, if_pos hint] at hcast
    obtain ⟨b', hok, _, hread, hroom⟩ := shrink_spec h hneed hcast (Nat.le_refl _) (by omega)
    refine ⟨b', hok, ?_, ?_⟩
    · rw [hread, List.take_of_length_le hlen.le]
    · rw [hsum] at hroom
      omega

/-- Three bytes and room for 2000 more, which the vector of 1032 bytes grows for. -/
theorem shrink_keeps_grown : ∃ b', shrink ⟨[0, 0, 0, 0, 0, 0, 0, 0, 5, 6, 7], 8, 11⟩ 2000 = .ok b' ∧
    b'.readable = [5, 6, 7] ∧ 2000 ≤ b'.writableBytes := by
  have hinv : Buffer.Inv ⟨[0, 0, 0, 0, 0, 0, 0, 0, 5, 6, 7], 8, 11⟩ :=
    ⟨by decide, by decide, by decide⟩
  exact (shrink_keeps_iff hinv (by decide) (by decide)).mpr ⟨by decide, by decide⟩

/-- A buffer with `n` readable bytes and no room behind them. -/
def filled (n : Nat) : Buffer := ⟨List.replicate (8 + n) 0, 8, 8 + n⟩

theorem filled_inv (n : Nat) : (filled n).Inv := by
  have hlen : (filled n).buffer.length = 8 + n := List.length_replicate
  exact ⟨Nat.le_add_right 8 n, hlen.ge, by rw [hlen]; exact Nat.le_add_right 8 n⟩

/-- As an `int`, 4 GiB is zero: nothing is copied. -/
theorem shrink_empties : ¬ Keeps (filled 4294967296) 0 := by
  rintro ⟨b', hok, hread, _⟩
  have hn : (filled 4294967296).readableBytes = 4294967296 := Nat.add_sub_cancel_left _ _
  have hneed : 8 + sizeT ((filled 4294967296).readableBytes + 0) ≤ maxSize := by
    rw [hn]
    decide
  have hcast : ofInt (toInt (readableBytes (filled 4294967296))) = 0 := by
    rw [length_cast (filled_inv _), hn]
    decide
  obtain ⟨b'', hok', _, hread', _⟩ := shrink_spec (filled_inv 4294967296) hneed hcast
    (Nat.zero_le _) (by decide)
  cases hok.symm.trans hok'
  have hlen := congrArg List.length (hread.symm.trans hread')
  rw [Buffer.readable_length (filled_inv _), hn, List.take_zero] at hlen
  cases hlen

end Muduo.Net.BufferShrink
