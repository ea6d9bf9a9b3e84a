import Muduo.Support.Numeral
import Muduo.Support.StdVector

/-! Integers as text: `convert` and `convertHex` write the digits backwards into memory, from
the remainders of C++'s truncating division, and reverse them in place. -/
namespace Muduo.Base
open Muduo.Support

/-- A table of digits. The character of a remainder `r` stands at `zero + r`. -/
structure DigitTable where
  base : Nat
  chars : List UInt8
  zero : Nat
  one_lt : 1 < base

/-- A remainder may be negative, so the table is mirrored. -/
def digits : DigitTable := ⟨10, ascii "9876543210123456789".toList, 9, by decide⟩

def digitsHex : DigitTable := ⟨16, ascii "0123456789ABCDEF".toList, 0, by decide⟩

def DigitTable.at (t : DigitTable) (lsd : Int) : Except Fault UInt8 :=
  if t.zero + lsd < 0 then .error .memory else StdVector.load t.chars (t.zero + lsd).toNat

theorem natAbs_tdiv_lt {i : Int} {b : Nat} (hb : 1 < b) (h : i.tdiv b ≠ 0) :
    (i.tdiv b).natAbs < i.natAbs := by
  rw [Int.natAbs_tdiv, Int.natAbs_natCast]
  apply Nat.div_lt_self _ hb
  rw [Int.natAbs_pos]
  rintro rfl
  exact h (Int.zero_tdiv _)

/-- The `do` loop of both conversions. -/
def emitDigits (t : DigitTable) (buf : List UInt8) (p : Nat) (i : Int) :
    Except Fault (List UInt8 × Nat) := do
  let c ← t.at (i.tmod t.base)
  let buf ← StdVector.store buf p c
  if i.tdiv t.base = 0 then return (buf, p + 1) else emitDigits t buf (p + 1) (i.tdiv t.base)
termination_by i.natAbs
decreasing_by exact natAbs_tdiv_lt t.one_lt (by assumption)

def emitSign (buf : List UInt8) (p : Nat) (value : Int) : Except Fault (List UInt8 × Nat) :=
  if value < 0 then do
    let buf ← StdVector.store buf p 45
    return (buf, p + 1)
  else return (buf, p)

/-- The NUL behind the characters, their reversal and their number. -/
def finish (buf : List UInt8) (start p : Nat) : Except Fault (List UInt8 × Nat) := do
  let buf ← StdVector.store buf p 0
  return (StdVector.reverse buf start p, p - start)

def convert (buf : List UInt8) (start : Nat) (value : Int) : Except Fault (List UInt8 × Nat) := do
  let (buf, p) ← emitDigits digits buf start value
  let (buf, p) ← emitSign buf p value
  finish buf start p

def convertHex (buf : List UInt8) (start : Nat) (value : UInt64) :
    Except Fault (List UInt8 × Nat) := do
  let (buf, p) ← emitDigits digitsHex buf start value.toNat
  finish buf start p

/-- The room that a stream checks for before it formats a number in place. -/
def kMaxNumericSize : Nat := 32

/-- The types that `convert` is instantiated for. -/
inductive IntegerType where
  | int | unsignedInt | long | unsignedLong | longLong | unsignedLongLong
  deriving DecidableEq, Repr

namespace IntegerType

def bits : IntegerType → Nat
  | int | unsignedInt => 32
  | long | unsignedLong | longLong | unsignedLongLong => 64

def signed : IntegerType → Bool
  | int | long | longLong => true
  | unsignedInt | unsignedLong | unsignedLongLong => false

def min (T : IntegerType) : Int := if T.signed then -2 ^ (T.bits - 1) else 0

def max (T : IntegerType) : Int := if T.signed then 2 ^ (T.bits - 1) - 1 else 2 ^ T.bits - 1

end IntegerType

/-- A value of one of the integer types. -/
structure Integer where
  type : IntegerType
  value : Int
  low : type.min ≤ value
  high : value ≤ type.max

/-- Twenty digits hold the magnitude of every value, the minimum of a signed type included. -/
theorem Integer.natAbs_lt (v : Integer) : v.value.natAbs < 10 ^ 20 := by
  obtain ⟨T, value, low, high⟩ := v
  cases T <;> simp [IntegerType.min, IntegerType.max, IntegerType.signed, IntegerType.bits] at low high
    <;> change value.natAbs < _ <;> omega

/-- `text` is the canonical numeral of `n` in base `b`. -/
def CanonicalText (b n : Nat) (text : List UInt8) : Prop :=
  ∃ ds, Canonical b n ds ∧ text = ds.map digitChar

def sign (v : Int) : List UInt8 := if v < 0 then ascii ['-'] else []

/-- The decimal text of an integer. -/
def decimalText (v : Int) : List UInt8 := sign v ++ numeralText 10 v.natAbs

/-- Reading a decimal text. -/
def ofDecimalText (text : List UInt8) : Option Int :=
  if text.head? = some 45 then (ofNumeralText 10 text.tail).map fun n : Nat => -(n : Int)
  else (ofNumeralText 10 text).map fun n : Nat => (n : Int)

/-- The table has a character for every remainder that the division of `i` can leave. -/
def DigitTable.Covers (t : DigitTable) (i : Int) : Prop :=
  ∀ r : Int, r.natAbs < t.base → (0 ≤ i → 0 ≤ r) → t.at r = .ok (digitChar r.natAbs)

theorem DigitTable.at_eq {t : DigitTable} {r : Int} {k : Nat} (h : t.zero + r = k) :
    t.at r = StdVector.load t.chars k := by
  rw [DigitTable.at, if_neg (by omega), h, Int.toNat_natCast]

theorem digits_covers (i : Int) : digits.Covers i := by
  intro r hr _
  have cell : ∀ k < 19, StdVector.load digits.chars k = .ok (digitChar (k - 9 + (9 - k))) := by
    decide
  change r.natAbs < 10 at hr
  have hk : (digits.zero : Int) + r = ((9 + r).toNat : Nat) := by
    change (9 : Int) + r = _
    omega
  have ha : (9 + r).toNat - 9 + (9 - (9 + r).toNat) = r.natAbs := by omega
  rw [DigitTable.at_eq hk, cell _ (by omega), ha]

theorem digitsHex_covers {i : Int} (hi : 0 ≤ i) : digitsHex.Covers i := by
  intro r hr hn
  have cell : ∀ k < 16, StdVector.load digitsHex.chars k = .ok (digitChar k) := by decide
  have hk : (digitsHex.zero : Int) + r = (r.natAbs : Nat) := by
    have h0 := hn hi
    change (0 : Int) + r = _
    omega
  rw [DigitTable.at_eq hk, cell _ hr]

/-- The loop leaves the numeral of the magnitude in memory, last digit first. -/
theorem emitDigits_eq (t : DigitTable) (buf : List UInt8) (p : Nat) (i : Int) (h : t.Covers i) :
    emitDigits t buf p i = do
      let buf ← StdVector.copyIn buf p (numeralText t.base i.natAbs).reverse
      return (buf, p + (numeralText t.base i.natAbs).reverse.length) := by
  induction hn : i.natAbs using Nat.strong_induction_on generalizing i buf p with
  | _ n ih =>
    subst hn
    have hq : (i.tdiv t.base).natAbs = i.natAbs / t.base := Int.natAbs_tdiv i t.base
    have hc : t.at (i.tmod t.base) = .ok (digitChar (i.natAbs % t.base)) := by
      have hr : (i.tmod t.base).natAbs = i.natAbs % t.base := by
        rw [Int.natAbs_tmod, Int.natAbs_natCast]
      rw [h _ (by rw [hr]; exact Nat.mod_lt _ (by have := t.one_lt; omega))
        (fun hi => Int.tmod_nonneg _ hi), hr]
    rw [emitDigits, hc, ok_bind, numeralText_reverse t.one_lt, StdVector.copyIn, bind_assoc]
    congr 1
    funext w
    by_cases hz : i.tdiv t.base = 0
    · have hz' : i.natAbs / t.base = 0 := by rw [← hq, hz, Int.natAbs_zero]
      rw [if_pos hz, if_pos hz', StdVector.copyIn, ok_bind]
      rfl
    · have hz' : i.natAbs / t.base ≠ 0 := by rw [← hq]; exact Int.natAbs_ne_zero.mpr hz
      rw [if_neg hz, if_neg hz', ih _ (natAbs_tdiv_lt t.one_lt hz) _ _ _ ?_ rfl, hq,
        List.length_cons, Nat.add_assoc, Nat.add_comm 1]
      intro r hr hi
      exact h r hr fun h0 => hi (Int.tdiv_nonneg h0 (Int.natCast_nonneg _))

theorem emitSign_eq (buf : List UInt8) (p : Nat) (value : Int) :
    emitSign buf p value = do
      let buf ← StdVector.copyIn buf p (sign value)
      return (buf, p + (sign value).length) := by
  rw [emitSign, sign]
  split
  · rw [show ascii ['-'] = [45] from rfl, StdVector.copyIn_singleton]
    rfl
  · rfl

/-- Written backwards and finished, the characters are in memory as text. -/
theorem copyIn_finish {buf : List UInt8} {start : Nat} (as : List UInt8)
    (h : start + as.length + 1 ≤ buf.length) :
    (do let buf ← StdVector.copyIn buf start as
        finish buf start (start + as.length)) =
      do let buf ← StdVector.copyIn buf start (as.reverse ++ [0])
         return (buf, as.reverse.length) := by
  have hfit : start + (as ++ [0]).length ≤ buf.length := by
    rw [List.length_append]
    exact h
  obtain ⟨w, hw, hr⟩ := StdVector.copyIn_reverse hfit
  rw [StdVector.copyIn_append] at hw
  obtain ⟨u, hu, hw⟩ := bind_ok.mp hw
  rw [StdVector.copyIn_singleton] at hw
  rw [hu, ok_bind, finish, hw, ok_bind, hr, ok_bind, Nat.add_sub_cancel_left, List.length_reverse]

theorem convert_eq {buf : List UInt8} {start : Nat} (value : Int)
    (h : start + (decimalText value).length + 1 ≤ buf.length) :
    convert buf start value = do
      let buf ← StdVector.copyIn buf start (decimalText value ++ [0])
      return (buf, (decimalText value).length) := by
  have htext : decimalText value = ((numeralText 10 value.natAbs).reverse ++ sign value).reverse := by
    rw [List.reverse_append, List.reverse_reverse, decimalText, sign]
    split
    · rfl
    · rfl
  rw [htext, List.length_reverse] at h
  rw [htext, ← copyIn_finish _ h, convert, emitDigits_eq digits buf start value (digits_covers value),
    bind_assoc, StdVector.copyIn_append, bind_assoc]
  congr 1
  funext w
  change (do let (buf, p) ← emitSign w _ value; finish buf start p) = _
  rw [emitSign_eq, bind_assoc, List.length_append, ← Nat.add_assoc]
  rfl

theorem convertHex_eq {buf : List UInt8} {start : Nat} (value : UInt64)
    (h : start + (numeralText 16 value.toNat).length + 1 ≤ buf.length) :
    convertHex buf start value = do
      let buf ← StdVector.copyIn buf start (numeralText 16 value.toNat ++ [0])
      return (buf, (numeralText 16 value.toNat).length) := by
  have hcover := digitsHex_covers (Int.natCast_nonneg value.toNat)
  have hf := @copyIn_finish buf start (numeralText 16 value.toNat).reverse
    (by rw [List.length_reverse]; exact h)
  rw [List.reverse_reverse] at hf
  rw [← hf, convertHex, emitDigits_eq digitsHex buf start _ hcover, bind_assoc]
  rfl

theorem numeralText_canonical {b n : Nat} (hb : 1 < b) : CanonicalText b n (numeralText b n) :=
  ⟨numeral b n, numeral_canonical hb, rfl⟩

theorem numeralText_length_le {b n k : Nat} (hb : 1 < b) (hk : 0 < k) (h : n < b ^ k) :
    (numeralText b n).length ≤ k := by
  rw [numeralText, List.length_map]
  exact numeral_length_le hb hk h

theorem sign_length_le (v : Int) : (sign v).length ≤ 1 := by
  rw [sign]
  split <;> decide

theorem decimalText_length_le (v : Integer) : (decimalText v.value).length ≤ 21 := by
  have hs := sign_length_le v.value
  have hd := numeralText_length_le (by decide : 1 < 10) (by decide) v.natAbs_lt
  rw [decimalText, List.length_append]
  omega

theorem hexText_length_le (value : UInt64) : (numeralText 16 value.toNat).length ≤ 16 :=
  numeralText_length_le (by decide) (by decide) value.toNat_lt

theorem ofDecimalText_decimalText (v : Int) : ofDecimalText (decimalText v) = some v := by
  have hread : ofNumeralText 10 (numeralText 10 v.natAbs) = some v.natAbs :=
    ofNumeralText_numeralText (by decide) (by decide)
  by_cases hv : v < 0
  · rw [decimalText, sign, if_pos hv, ofDecimalText]
    change (ofNumeralText 10 (numeralText 10 v.natAbs)).map _ = _
    rw [hread, Option.map_some]
    exact congrArg some (by omega)
  · have hhead : (numeralText 10 v.natAbs).head? ≠ some 45 := by
      intro h
      have hmem := List.mem_of_mem_head? (Option.mem_def.mpr h)
      rw [← decimal_eq_numeralText] at hmem
      exact absurd (decimal_digits 45 hmem).1 (by decide)
    rw [decimalText, sign, if_neg hv, List.nil_append, ofDecimalText, if_neg hhead, hread,
      Option.map_some]
    exact congrArg some (by omega)

/-- The memory `buf` with `text` and a NUL at `start`. -/
def written (buf : List UInt8) (start : Nat) (text : List UInt8) : List UInt8 :=
  buf.take start ++ (text ++ [0]) ++ buf.drop (start + (text.length + 1))

theorem copyIn_written {buf : List UInt8} {start : Nat} {text : List UInt8}
    (h : start + text.length + 1 ≤ buf.length) :
    StdVector.copyIn buf start (text ++ [0]) = .ok (written buf start text) := by
  have hlen : (text ++ [0]).length = text.length + 1 := List.length_append
  rw [StdVector.copyIn_eq _ _ _ (by rw [hlen]; omega), hlen, written]

theorem convert_ok {buf : List UInt8} {start : Nat} (v : Integer)
    (h : start + kMaxNumericSize ≤ buf.length) :
    convert buf start v.value =
      .ok (written buf start (decimalText v.value), (decimalText v.value).length) := by
  have hlen := decimalText_length_le v
  have hfit : start + (decimalText v.value).length + 1 ≤ buf.length := by
    rw [kMaxNumericSize] at h
    omega
  rw [convert_eq _ hfit, copyIn_written hfit, ok_bind]
  rfl

theorem convertHex_ok {buf : List UInt8} {start : Nat} (value : UInt64)
    (h : start + kMaxNumericSize ≤ buf.length) :
    convertHex buf (start + 2) value =
      .ok (written buf (start + 2) (numeralText 16 value.toNat),
        (numeralText 16 value.toNat).length) := by
  have hlen := hexText_length_le value
  have hfit : start + 2 + (numeralText 16 value.toNat).length + 1 ≤ buf.length := by
    rw [kMaxNumericSize] at h
    omega
  rw [convertHex_eq _ hfit, copyIn_written hfit, ok_bind]
  rfl

/-- With the room that the stream checks for, `convert` writes the canonical decimal text of
every value of every integer type, `convertHex` behind its prefix the canonical upper-case
hexadecimal text of every address; both add a NUL, return the length of the text, leave the
rest of the memory alone and fit in the room. -/
theorem conversions_exact {buf : List UInt8} {start : Nat}
    (h : start + kMaxNumericSize ≤ buf.length) :
    (∀ v : Integer, ∃ ds,
      convert buf start v.value =
        .ok (written buf start (sign v.value ++ ds), (sign v.value ++ ds).length) ∧
      CanonicalText 10 v.value.natAbs ds ∧ ofDecimalText (sign v.value ++ ds) = some v.value ∧
      (sign v.value ++ ds).length + 1 ≤ kMaxNumericSize) ∧
    ∀ value : UInt64, ∃ ds,
      convertHex buf (start + 2) value = .ok (written buf (start + 2) ds, ds.length) ∧
      CanonicalText 16 value.toNat ds ∧ ofNumeralText 16 ds = some value.toNat ∧
      2 + ds.length + 1 ≤ kMaxNumericSize := by
  constructor
  · intro v
    refine ⟨numeralText 10 v.value.natAbs, convert_ok v h, numeralText_canonical (by decide),
      ofDecimalText_decimalText v.value, ?_⟩
    have hlen := decimalText_length_le v
    rw [decimalText] at hlen
    rw [kMaxNumericSize]
    omega
  · intro value
    refine ⟨numeralText 16 value.toNat, convertHex_ok value h, numeralText_canonical (by decide),
      ofNumeralText_numeralText (by decide) (by decide), ?_⟩
    have hlen := hexText_length_le value
    rw [kMaxNumericSize]
    omega

theorem conversions_exact_at_end :
    0 + kMaxNumericSize ≤ (List.replicate 32 (0 : UInt8)).length ∧
    ∃ ds, convert (List.replicate 32 0) 0 (-9223372036854775808) =
      .ok (written (List.replicate 32 0) 0 (sign (-9223372036854775808) ++ ds),
        (sign (-9223372036854775808) ++ ds).length) ∧
      CanonicalText 10 9223372036854775808 ds := by
  obtain ⟨hdec, _⟩ := @conversions_exact (List.replicate 32 0) 0 (by decide)
  obtain ⟨ds, hconv, hcanonical, _⟩ := hdec ⟨.long, -9223372036854775808, by decide, by decide⟩
  exact ⟨by decide, ds, hconv, hcanonical⟩

end Muduo.Base
