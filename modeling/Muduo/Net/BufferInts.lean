import Muduo.Net.Buffer
import Muduo.Support.ByteOrder

/-! The integers that `muduo::net::Buffer` appends, reads and prepends in network order.
A conversion between integer types keeps the low bits. -/
namespace Muduo.Net
open Muduo.Support

namespace Buffer
variable (o : ByteOrder)

/-- An `appendIntN` whose argument has the width of the wire. -/
def appendInt (n : Nat) (b : Buffer) (x : BitVec (8 * n)) : Except Fault Buffer :=
  b.append (o.store (o.toBig x))

def appendInt64 (b : Buffer) (x : BitVec 64) : Except Fault Buffer := b.appendInt o 8 x

def appendInt32 (b : Buffer) (x : BitVec 32) : Except Fault Buffer := b.appendInt o 4 x

/-- `appendInt16(int64_t x)`: `hostToNetwork16` takes the low 16 bits. -/
def appendInt16 (b : Buffer) (x : BitVec 64) : Except Fault Buffer :=
  b.appendInt o 2 (x.setWidth 16)

def appendInt8 (b : Buffer) (x : BitVec 8) : Except Fault Buffer := b.append (o.store (n := 1) x)

def peekInt (n : Nat) (b : Buffer) : Except Fault (BitVec (8 * n)) := do
  assert (n ≤ b.readableBytes)
  let be := o.load n (StdVector.range b.buffer b.peek (b.peek + n))
  return o.toBig be

def peekInt64 (b : Buffer) : Except Fault (BitVec 64) := b.peekInt o 8

def peekInt32 (b : Buffer) : Except Fault (BitVec 32) := b.peekInt o 4

def peekInt16 (b : Buffer) : Except Fault (BitVec 16) := b.peekInt o 2

def peekInt8 (b : Buffer) : Except Fault (BitVec 8) := do
  assert (1 ≤ b.readableBytes)
  return o.load 1 (StdVector.range b.buffer b.peek (b.peek + 1))

/-- A `readIntN`: the result of `peekIntN`, and then `retrieveIntN`. -/
def readInt {w : Nat} (n : Nat) (peekInt : Buffer → Except Fault (BitVec w)) (b : Buffer) :
    Except Fault (BitVec w × Buffer) := do
  let result ← peekInt b
  let b ← b.retrieve n
  return (result, b)

def readInt64 (b : Buffer) : Except Fault (BitVec 64 × Buffer) := b.readInt 8 (peekInt64 o)

def readInt32 (b : Buffer) : Except Fault (BitVec 32 × Buffer) := b.readInt 4 (peekInt32 o)

def readInt16 (b : Buffer) : Except Fault (BitVec 16 × Buffer) := b.readInt 2 (peekInt16 o)

def readInt8 (b : Buffer) : Except Fault (BitVec 8 × Buffer) := b.readInt 1 (peekInt8 o)

def prependInt (n : Nat) (b : Buffer) (x : BitVec (8 * n)) : Except Fault Buffer :=
  b.prepend (o.store (o.toBig x))

def prependInt64 (b : Buffer) (x : BitVec 64) : Except Fault Buffer := b.prependInt o 8 x

def prependInt32 (b : Buffer) (x : BitVec 32) : Except Fault Buffer := b.prependInt o 4 x

def prependInt16 (b : Buffer) (x : BitVec 16) : Except Fault Buffer := b.prependInt o 2 x

def prependInt8 (b : Buffer) (x : BitVec 8) : Except Fault Buffer :=
  b.prepend (o.store (n := 1) x)

variable {o} {b : Buffer} {n : Nat} {rest : Bytes}

/-- What stands in front of the readable bytes is what `memcpy` takes from `peek()`. -/
theorem range_peek (h : b.Inv) {bs : Bytes} (hr : b.readable = bs ++ rest) :
    bs.length ≤ b.readableBytes ∧ StdVector.range b.buffer b.peek (b.peek + bs.length) = bs := by
  have hle : bs.length ≤ b.readableBytes := by
    rw [← readable_length h, hr, List.length_append]
    omega
  refine ⟨hle, ?_⟩
  have htake : b.readable.take bs.length = StdVector.range b.buffer b.peek (b.peek + bs.length) :=
    StdVector.range_take b.buffer b.peek b.beginWrite hle
  rw [← htake, hr, List.take_left]

/-- A peek at the front of the readable bytes, then a retrieve of as many. -/
theorem readInt_spec (h : b.Inv) {w : Nat} {peekInt : Buffer → Except Fault (BitVec w)}
    {x : BitVec w} {bs : Bytes} (hp : peekInt b = .ok x) (hn : bs.length = n)
    (hr : b.readable = bs ++ rest) :
    ∃ b', b.readInt n peekInt = .ok (x, b') ∧ b'.Inv ∧ b'.readable = rest := by
  obtain ⟨hle, _⟩ := range_peek h hr
  rw [hn] at hle
  obtain ⟨b', hok, hi, hd, _⟩ := retrieve_spec h hle
  refine ⟨b', ?_, hi, ?_⟩
  · rw [readInt, hp, ok_bind, hok]
    rfl
  · rw [hd, hr, ← hn, List.drop_left]

theorem peekInt_spec (h : b.Inv) {x : BitVec (8 * n)}
    (hr : b.readable = ByteOrder.bigEndian x ++ rest) : b.peekInt o n = .ok x := by
  obtain ⟨hle, hrange⟩ := range_peek h hr
  rw [ByteOrder.bigEndian_length] at hle hrange
  rw [peekInt, assert_true hle, ok_bind]
  dsimp only
  rw [hrange, ByteOrder.toBig_load]
  rfl

theorem peekInt8_spec (h : b.Inv) {x : BitVec 8}
    (hr : b.readable = ByteOrder.bigEndian (n := 1) x ++ rest) : b.peekInt8 o = .ok x := by
  obtain ⟨hle, hrange⟩ := range_peek h hr
  rw [ByteOrder.bigEndian_length] at hle hrange
  rw [peekInt8, assert_true hle, ok_bind, hrange, ByteOrder.load_byte]
  rfl

end Buffer

/-- The widths on the wire, each with its `readIntN`. -/
inductive IntWidth where
  | int64 | int32 | int16 | int8
  deriving DecidableEq, Repr

namespace IntWidth

def bytes : IntWidth → Nat
  | .int64 => 8
  | .int32 => 4
  | .int16 => 2
  | .int8 => 1

/-- What `readIntN` returns is the signed value of the word. -/
def read (o : ByteOrder) (b : Buffer) : IntWidth → Except Fault (Int × Buffer)
  | .int64 => (b.readInt64 o).map fun r => (r.1.toInt, r.2)
  | .int32 => (b.readInt32 o).map fun r => (r.1.toInt, r.2)
  | .int16 => (b.readInt16 o).map fun r => (r.1.toInt, r.2)
  | .int8 => (b.readInt8 o).map fun r => (r.1.toInt, r.2)

/-- The low bits of the two's complement of `v`. -/
def word (w : IntWidth) (v : Int) : BitVec (8 * w.bytes) := BitVec.ofInt (8 * w.bytes) v

/-- Two's complement on the wire, most significant byte first. -/
def encode (w : IntWidth) (v : Int) : Bytes := ByteOrder.bigEndian (w.word v)

end IntWidth

/-- A call of one of the `appendIntN`, its argument of the declared parameter type. -/
inductive IntAppend where
  | int64 (x : BitVec 64)
  | int32 (x : BitVec 32)
  | int16 (x : BitVec 64)
  | int8 (x : BitVec 8)
  deriving DecidableEq, Repr

namespace IntAppend

def width : IntAppend → IntWidth
  | .int64 _ => .int64
  | .int32 _ => .int32
  | .int16 _ => .int16
  | .int8 _ => .int8

def value : IntAppend → Int
  | .int64 x | .int16 x => x.toInt
  | .int32 x => x.toInt
  | .int8 x => x.toInt

def apply (o : ByteOrder) (b : Buffer) : IntAppend → Except Fault Buffer
  | .int64 x => b.appendInt64 o x
  | .int32 x => b.appendInt32 o x
  | .int16 x => b.appendInt16 o x
  | .int8 x => b.appendInt8 o x

def applyAll (o : ByteOrder) (b : Buffer) (cs : List IntAppend) : Except Fault Buffer :=
  cs.foldlM (apply o) b

/-- The matching `readIntN`, in the same order. -/
def readAll (o : ByteOrder) : List IntAppend → Buffer → Except Fault (List Int × Buffer)
  | [], b => return ([], b)
  | c :: cs, b => do
    let (v, b) ← c.width.read o b
    let (vs, b) ← readAll o cs b
    return (v :: vs, b)

/-- The wire gets the encodings in order, and reading gives the values and leaves nothing. -/
def RoundTrips (o : ByteOrder) (b : Buffer) (cs : List IntAppend) : Prop :=
  ∃ b' b'' : Buffer, applyAll o b cs = .ok b' ∧
    b'.readable = cs.flatMap (fun c => c.width.encode c.value) ∧
    readAll o cs b' = .ok (cs.map value, b'') ∧ b''.readable = []

/-- The argument of an `appendInt16` is an `int16_t`. -/
def Fits : IntAppend → Prop
  | .int16 x => -32768 ≤ x.toInt ∧ x.toInt ≤ 32767
  | .int64 _ | .int32 _ | .int8 _ => True

end IntAppend

/-- A call of one of the `prependIntN`. -/
inductive IntPrepend where
  | int64 (x : BitVec 64)
  | int32 (x : BitVec 32)
  | int16 (x : BitVec 16)
  | int8 (x : BitVec 8)
  deriving DecidableEq, Repr

namespace IntPrepend

def width : IntPrepend → IntWidth
  | .int64 _ => .int64
  | .int32 _ => .int32
  | .int16 _ => .int16
  | .int8 _ => .int8

def value : IntPrepend → Int
  | .int64 x => x.toInt
  | .int32 x => x.toInt
  | .int16 x => x.toInt
  | .int8 x => x.toInt

def apply (o : ByteOrder) (b : Buffer) : IntPrepend → Except Fault Buffer
  | .int64 x => b.prependInt64 o x
  | .int32 x => b.prependInt32 o x
  | .int16 x => b.prependInt16 o x
  | .int8 x => b.prependInt8 o x

/-- Reading gives the value back, and what was readable before is left. -/
def RoundTrips (o : ByteOrder) (b : Buffer) (c : IntPrepend) : Prop :=
  ∃ b' b'' : Buffer, c.apply o b = .ok b' ∧
    b'.readable = c.width.encode c.value ++ b.readable ∧
    c.width.read o b' = .ok (c.value, b'') ∧ b''.readable = b.readable

end IntPrepend

variable {o : ByteOrder} {b : Buffer} {rest : Bytes}

theorem IntWidth.encode_length (w : IntWidth) (v : Int) : (w.encode v).length = w.bytes :=
  ByteOrder.bigEndian_length _

/-- An encoding in front is read as the value of its word. -/
theorem IntWidth.read_spec (h : b.Inv) (w : IntWidth) {v : Int}
    (hr : b.readable = w.encode v ++ rest) : ∃ b' : Buffer,
      w.read o b = .ok ((w.word v).toInt, b') ∧ b'.Inv ∧ b'.readable = rest := by
  have hlen := w.encode_length v
  cases w with
  | int64 =>
    obtain ⟨b', hok, hi, hrest⟩ := Buffer.readInt_spec h
      (Buffer.peekInt_spec h hr : b.peekInt64 o = _) hlen hr
    exact ⟨b', congrArg (Except.map _) hok, hi, hrest⟩
  | int32 =>
    obtain ⟨b', hok, hi, hrest⟩ := Buffer.readInt_spec h
      (Buffer.peekInt_spec h hr : b.peekInt32 o = _) hlen hr
    exact ⟨b', congrArg (Except.map _) hok, hi, hrest⟩
  | int16 =>
    obtain ⟨b', hok, hi, hrest⟩ := Buffer.readInt_spec h
      (Buffer.peekInt_spec h hr : b.peekInt16 o = _) hlen hr
    exact ⟨b', congrArg (Except.map _) hok, hi, hrest⟩
  | int8 =>
    obtain ⟨b', hok, hi, hrest⟩ := Buffer.readInt_spec h (Buffer.peekInt8_spec h hr) hlen hr
    exact ⟨b', congrArg (Except.map _) hok, hi, hrest⟩

/-- The conversion to 16 bits keeps the low bits of the two's complement. -/
private theorem setWidth_word (x : BitVec 64) : x.setWidth 16 = BitVec.ofInt 16 x.toInt :=
  (BitVec.signExtend_eq_setWidth_of_le x (by decide)).symm

private theorem store_word {n : Nat} {x : BitVec (8 * n)} {v : Int}
    (h : x = BitVec.ofInt (8 * n) v) :
    o.store (o.toBig x) = ByteOrder.bigEndian (BitVec.ofInt (8 * n) v) := by
  rw [ByteOrder.store_toBig, h]

private theorem store_byte_word (x : BitVec 8) :
    o.store (n := 1) x = IntWidth.int8.encode x.toInt :=
  (ByteOrder.store_byte o x).trans
    (congrArg (ByteOrder.bigEndian (n := 1)) BitVec.ofInt_toInt.symm)

namespace IntAppend

/-- Every call is an `append` of the encoding. -/
theorem apply_eq (o : ByteOrder) (b : Buffer) (c : IntAppend) :
    c.apply o b = b.append (c.width.encode c.value) := by
  cases c with
  | int64 x => exact congrArg b.append (store_word (n := 8) BitVec.ofInt_toInt.symm)
  | int32 x => exact congrArg b.append (store_word (n := 4) BitVec.ofInt_toInt.symm)
  | int16 x => exact congrArg b.append (store_word (n := 2) (setWidth_word x))
  | int8 x => exact congrArg b.append (store_byte_word x)

theorem applyAll_spec (h : b.Inv) (cs : List IntAppend) : ∃ b' : Buffer,
    applyAll o b cs = .ok b' ∧ b'.Inv ∧
      b'.readable = b.readable ++ cs.flatMap fun c => c.width.encode c.value := by
  induction cs generalizing b with
  | nil => exact ⟨b, rfl, h, by rw [List.flatMap_nil, List.append_nil]⟩
  | cons c cs ih =>
    obtain ⟨b₁, hok, hi, hr, _⟩ := Buffer.append_spec h (c.width.encode c.value)
    obtain ⟨b₂, hok', hi', hr'⟩ := ih hi
    refine ⟨b₂, ?_, hi', ?_⟩
    · rw [applyAll, List.foldlM_cons, apply_eq, hok, ok_bind]
      exact hok'
    · rw [hr', hr, List.flatMap_cons, List.append_assoc]

/-- Reading returns the values of the words on the wire. -/
theorem readAll_spec (h : b.Inv) (cs : List IntAppend)
    (hr : b.readable = (cs.flatMap fun c => c.width.encode c.value) ++ rest) : ∃ b' : Buffer,
      readAll o cs b = .ok (cs.map fun c => (c.width.word c.value).toInt, b') ∧
        b'.readable = rest := by
  induction cs generalizing b with
  | nil => exact ⟨b, rfl, hr⟩
  | cons c cs ih =>
    rw [List.flatMap_cons, List.append_assoc] at hr
    obtain ⟨b₁, hok, hi, hr₁⟩ := c.width.read_spec (o := o) h hr
    obtain ⟨b₂, hok', hr₂⟩ := ih hi hr₁
    refine ⟨b₂, ?_, hr₂⟩
    rw [readAll, hok, ok_bind]
    dsimp only
    rw [hok', ok_bind]
    rfl

/-- The word of a value has that value exactly if the value fits. -/
theorem word_toInt_iff (c : IntAppend) : (c.width.word c.value).toInt = c.value ↔ c.Fits := by
  cases c with
  | int64 x =>
    have hx : BitVec.ofInt 64 x.toInt = x := BitVec.ofInt_toInt
    exact iff_of_true (congrArg BitVec.toInt hx) trivial
  | int32 x =>
    have hx : BitVec.ofInt 32 x.toInt = x := BitVec.ofInt_toInt
    exact iff_of_true (congrArg BitVec.toInt hx) trivial
  | int8 x =>
    have hx : BitVec.ofInt 8 x.toInt = x := BitVec.ofInt_toInt
    exact iff_of_true (congrArg BitVec.toInt hx) trivial
  | int16 x =>
    have hword : (BitVec.ofInt 16 x.toInt).toInt = x.toInt.bmod 65536 := BitVec.toInt_ofInt _
    change (BitVec.ofInt 16 x.toInt).toInt = x.toInt ↔ -32768 ≤ x.toInt ∧ x.toInt ≤ 32767
    rw [hword]
    constructor
    · intro hx
      have hle : -((65536 : Nat) / 2 : Int) ≤ x.toInt.bmod 65536 := Int.le_bmod (by decide)
      have hlt : x.toInt.bmod 65536 < ((65536 : Nat) + 1) / 2 := Int.bmod_lt (by decide)
      omega
    · rintro ⟨hle, hlt⟩
      exact Int.bmod_eq_of_le (by omega) (by omega)

theorem roundTrips_iff (h : b.Inv) (he : b.readable = []) (cs : List IntAppend) :
    RoundTrips o b cs ↔ ∀ c ∈ cs, c.Fits := by
  obtain ⟨b₁, happly, hi, hr⟩ := applyAll_spec (o := o) h cs
  rw [he, List.nil_append] at hr
  have hall : b₁.readable = (cs.flatMap fun c => c.width.encode c.value) ++ [] := by
    rw [hr, List.append_nil]
  obtain ⟨b₂, hread, hr₂⟩ := readAll_spec (o := o) hi cs hall
  constructor
  · rintro ⟨b', b'', happly', _, hread', _⟩
    cases happly.symm.trans happly'
    have hvalues := congrArg (Except.map Prod.fst) (hread.symm.trans hread')
    have hmap := List.map_inj_left.mp (Except.ok.inj hvalues)
    exact fun c hc => c.word_toInt_iff.mp (hmap c hc)
  · intro hfits
    refine ⟨b₁, b₂, happly, hr, ?_, hr₂⟩
    have hmap := List.map_congr_left fun c hc => (word_toInt_iff c).mpr (hfits c hc)
    rw [hread, hmap]

end IntAppend

namespace IntPrepend

theorem apply_eq (o : ByteOrder) (b : Buffer) (c : IntPrepend) :
    c.apply o b = b.prepend (c.width.encode c.value) := by
  cases c with
  | int64 x => exact congrArg b.prepend (store_word (n := 8) BitVec.ofInt_toInt.symm)
  | int32 x => exact congrArg b.prepend (store_word (n := 4) BitVec.ofInt_toInt.symm)
  | int16 x => exact congrArg b.prepend (store_word (n := 2) BitVec.ofInt_toInt.symm)
  | int8 x => exact congrArg b.prepend (store_byte_word x)

theorem word_toInt (c : IntPrepend) : (c.width.word c.value).toInt = c.value := by
  cases c with
  | int64 x => exact congrArg BitVec.toInt (BitVec.ofInt_toInt : BitVec.ofInt 64 x.toInt = x)
  | int32 x => exact congrArg BitVec.toInt (BitVec.ofInt_toInt : BitVec.ofInt 32 x.toInt = x)
  | int16 x => exact congrArg BitVec.toInt (BitVec.ofInt_toInt : BitVec.ofInt 16 x.toInt = x)
  | int8 x => exact congrArg BitVec.toInt (BitVec.ofInt_toInt : BitVec.ofInt 8 x.toInt = x)

theorem roundTrips (h : b.Inv) (c : IntPrepend) (hc : c.width.bytes ≤ b.prependableBytes) :
    RoundTrips o b c := by
  have hlen : (c.width.encode c.value).length ≤ b.prependableBytes := by
    rw [IntWidth.encode_length]
    exact hc
  obtain ⟨b₁, hok, hi, hr⟩ := Buffer.prepend_spec h hlen
  obtain ⟨b₂, hread, _, hr₂⟩ := c.width.read_spec (o := o) hi hr
  refine ⟨b₁, b₂, ?_, hr, ?_, hr₂⟩
  · rw [apply_eq, hok]
  · rw [hread, word_toInt]

end IntPrepend

/-- Appended integers are read back, exactly if no `appendInt16` got more than an `int16_t`;
a prepended one always is. -/
theorem ints_round_trip_iff (o : ByteOrder) (h : b.Inv) :
    (b.readable = [] → ∀ cs, IntAppend.RoundTrips o b cs ↔ ∀ c ∈ cs, IntAppend.Fits c) ∧
      ∀ c : IntPrepend, c.width.bytes ≤ b.prependableBytes → c.RoundTrips o b :=
  ⟨fun he cs => IntAppend.roundTrips_iff h he cs, fun c hc => IntPrepend.roundTrips h c hc⟩

/-- One integer of each width, with a negative one among them, and one in front of three
readable bytes. -/
theorem ints_round_trip_sample :
    IntAppend.RoundTrips .little .new
      [.int64 (-5), .int32 70000, .int16 (-300), .int8 (-128)] ∧
    IntPrepend.RoundTrips .little ⟨[0, 0, 0, 0, 0, 0, 0, 0, 1, 2, 3], 8, 11⟩ (.int32 (-7)) := by
  have hinv : Buffer.Inv ⟨[0, 0, 0, 0, 0, 0, 0, 0, 1, 2, 3], 8, 11⟩ :=
    ⟨by decide, by decide, by decide⟩
  refine ⟨?_, (ints_round_trip_iff .little hinv).2 _ (by decide)⟩
  refine ((ints_round_trip_iff .little (Buffer.new_inv _)).1 (Buffer.new_readable _) _).mpr ?_
  simp [IntAppend.Fits]

/-- Of 65536 the two low bytes are sent, which are read as zero. -/
theorem appendInt16_loses : ¬ IntAppend.RoundTrips .little (.new 2) [.int16 65536] := by
  intro h
  have hfits := (IntAppend.roundTrips_iff (Buffer.new_inv 2) (Buffer.new_readable 2) _).mp h _
    List.mem_cons_self
  have hlt : (65536 : BitVec 64).toInt ≤ 32767 := hfits.2
  exact absurd hlt (by decide)

end Muduo.Net
