import Mathlib.Algebra.Order.Ring.Nat
import Mathlib.Data.List.Basic

/-! The bytes of a word in memory, and the swap that makes their order big-endian.
Nothing here depends on the modelled program. -/
namespace Muduo.Support

/-- The order in which a machine stores the bytes of a word. -/
inductive ByteOrder where
  | little | big
  deriving DecidableEq, Repr

namespace ByteOrder

/-- The `n` low digits to the base 256, least significant first. -/
def digits : Nat → Nat → List UInt8
  | 0, _ => []
  | n + 1, x => UInt8.ofNat x :: digits n (x / 256)

def ofDigits : List UInt8 → Nat
  | [] => 0
  | b :: bs => b.toNat + 256 * ofDigits bs

@[simp] theorem digits_length (n x : Nat) : (digits n x).length = n := by
  induction n generalizing x with
  | zero => rfl
  | succ n ih => rw [digits, List.length_cons, ih]

theorem ofDigits_lt (bs : List UInt8) : ofDigits bs < 256 ^ bs.length := by
  induction bs with
  | nil => decide
  | cons b bs ih =>
    have hb := b.toNat_lt
    rw [ofDigits, List.length_cons, Nat.pow_succ]
    omega

theorem ofDigits_digits (n x : Nat) : ofDigits (digits n x) = x % 256 ^ n := by
  induction n generalizing x with
  | zero => rw [digits, ofDigits, Nat.pow_zero, Nat.mod_one]
  | succ n ih =>
    calc
      ofDigits (digits (n + 1) x) = x % 256 + 256 * (x / 256 % 256 ^ n) := by
        rw [digits, ofDigits, ih, UInt8.toNat_ofNat']
      _ = x % 256 ^ (n + 1) := by rw [Nat.pow_succ', Nat.mod_mul]

theorem digits_ofDigits (bs : List UInt8) : digits bs.length (ofDigits bs) = bs := by
  induction bs with
  | nil => rfl
  | cons b bs ih =>
    have hb := b.toNat_lt
    have hdiv : (b.toNat + 256 * ofDigits bs) / 256 = ofDigits bs := by omega
    have hmod : UInt8.ofNat (b.toNat + 256 * ofDigits bs) = b := by
      apply UInt8.toNat_inj.mp
      rw [UInt8.toNat_ofNat']
      omega
    rw [List.length_cons, ofDigits, digits, hdiv, ih, hmod]

variable {n : Nat} (x : BitVec (8 * n))

/-- Most significant byte first. -/
def bigEndian : List UInt8 := (digits n x.toNat).reverse

/-- A word as it lies in memory. -/
def store (o : ByteOrder) : List UInt8 :=
  match o with
  | .little => digits n x.toNat
  | .big => (digits n x.toNat).reverse

/-- The word that lies in memory as `bs`. -/
def load (o : ByteOrder) (n : Nat) (bs : List UInt8) : BitVec (8 * n) :=
  match o with
  | .little => BitVec.ofNat (8 * n) (ofDigits bs)
  | .big => BitVec.ofNat (8 * n) (ofDigits bs.reverse)

/-- The bytes of a word the other way round. -/
def swap : BitVec (8 * n) := BitVec.ofNat (8 * n) (ofDigits (bigEndian x))

/-- From the machine's order to big-endian; the way back is the same swap. -/
def toBig (o : ByteOrder) : BitVec (8 * n) :=
  match o with
  | .little => swap x
  | .big => x

private theorem ofNat_ofDigits_toNat {bs : List UInt8} (h : bs.length = n) :
    (BitVec.ofNat (8 * n) (ofDigits bs)).toNat = ofDigits bs := by
  have hlt := ofDigits_lt bs
  rw [h] at hlt
  rw [BitVec.toNat_ofNat, Nat.pow_mul]
  exact Nat.mod_eq_of_lt hlt

private theorem ofNat_ofDigits_digits : BitVec.ofNat (8 * n) (ofDigits (digits n x.toNat)) = x := by
  have hlt : x.toNat < 256 ^ n := by
    have := x.isLt
    rwa [Nat.pow_mul] at this
  rw [ofDigits_digits, Nat.mod_eq_of_lt hlt, BitVec.ofNat_toNat, BitVec.setWidth_eq]

@[simp] theorem bigEndian_length : (bigEndian x).length = n := by
  rw [bigEndian, List.length_reverse, digits_length]

theorem digits_swap : digits n (swap x).toNat = bigEndian x := by
  have hd := digits_ofDigits (bigEndian x)
  rw [bigEndian_length] at hd
  rw [swap, ofNat_ofDigits_toNat (bigEndian_length x)]
  exact hd

theorem swap_swap : swap (swap x) = x := by
  have hback : bigEndian (swap x) = digits n x.toNat := by
    rw [bigEndian, digits_swap, bigEndian, List.reverse_reverse]
  rw [swap, hback, ofNat_ofDigits_digits]

theorem load_store (o : ByteOrder) : o.load n (o.store x) = x := by
  cases o with
  | little => exact ofNat_ofDigits_digits x
  | big =>
    rw [load, store, List.reverse_reverse]
    exact ofNat_ofDigits_digits x

/-- What is swapped before it is stored lies in memory big-endian on every machine. -/
theorem store_toBig (o : ByteOrder) : o.store (o.toBig x) = bigEndian x := by
  cases o with
  | little => exact digits_swap x
  | big => rfl

theorem toBig_toBig (o : ByteOrder) : o.toBig (o.toBig x) = x := by
  cases o with
  | little => exact swap_swap x
  | big => rfl

theorem toBig_load (o : ByteOrder) : o.toBig (o.load n (bigEndian x)) = x := by
  rw [← store_toBig x o, load_store, toBig_toBig]

/-- A single byte has only one order. -/
theorem store_byte (o : ByteOrder) (x : BitVec (8 * 1)) : o.store x = bigEndian x := by
  cases o with
  | little => rfl
  | big => rfl

theorem load_byte (o : ByteOrder) (x : BitVec (8 * 1)) : o.load 1 (bigEndian x) = x := by
  rw [← store_byte, load_store]

end ByteOrder
end Muduo.Support
