import Mathlib.Logic.Basic
import Mathlib.Algebra.Group.Nat.Defs

/-! Decimal numerals as bytes. Nothing here depends on the modelled program. -/
namespace Muduo.Support

/-- ASCII text as bytes. -/
def ascii (cs : List Char) : List UInt8 := cs.map fun c => c.toNat.toUInt8

/-- The decimal numeral of a natural number. -/
def decimal (n : Nat) : List UInt8 := ascii (Nat.toDigits 10 n)

private theorem digit_lt {c : Char} (h : c.isDigit = true) : c.toNat < 256 := by
  simp only [Char.isDigit, Bool.and_eq_true, decide_eq_true_eq] at h
  have hle := UInt32.le_iff_toNat_le.mp h.2
  change c.val.toNat ≤ 57 at hle
  change c.val.toNat < 256
  omega

private theorem digit_injective {c d : Char} (hc : c.isDigit = true) (hd : d.isDigit = true)
    (h : c.toNat.toUInt8 = d.toNat.toUInt8) : c = d := by
  have hn := congrArg UInt8.toNat h
  simp only [Nat.toUInt8, UInt8.toNat_ofNat', Nat.mod_eq_of_lt (digit_lt hc),
    Nat.mod_eq_of_lt (digit_lt hd)] at hn
  exact Char.toNat_inj.mp hn

private theorem ascii_injective {cs ds : List Char} (hc : ∀ c ∈ cs, c.isDigit = true)
    (hd : ∀ d ∈ ds, d.isDigit = true) (h : ascii cs = ascii ds) : cs = ds := by
  induction cs generalizing ds with
  | nil => exact (List.map_eq_nil_iff.mp h.symm).symm
  | cons c cs ih =>
    cases ds with
    | nil => cases h
    | cons d ds =>
      obtain ⟨hcd, h⟩ := List.cons.inj h
      obtain ⟨hc, hcs⟩ := List.forall_mem_cons.mp hc
      obtain ⟨hd, hds⟩ := List.forall_mem_cons.mp hd
      rw [digit_injective hc hd hcd, ih hcs hds h]

theorem decimal_injective {m n : Nat} (h : decimal m = decimal n) : m = n := by
  have digits : ∀ k, ∀ c ∈ Nat.toDigits 10 k, c.isDigit = true := by
    intro k c hc
    exact Nat.isDigit_of_mem_toDigits (by decide) (by decide) hc
  have hd : Nat.toDigits 10 m = Nat.toDigits 10 n := ascii_injective (digits m) (digits n) h
  rw [← Nat.ofDigitChars_ten_toDigits (n := m), hd, Nat.ofDigitChars_ten_toDigits]

theorem decimal_length_le {n k : Nat} (hk : 0 < k) (h : n < 10 ^ k) : (decimal n).length ≤ k := by
  rw [decimal, ascii, List.length_map]
  exact (Nat.length_toDigits_le_iff (by decide) hk).mpr h

/-- Reading a decimal numeral. -/
def ofDecimal (bs : List UInt8) : Option Nat :=
  if bs ≠ [] ∧ bs.all (fun b => 48 ≤ b ∧ b ≤ 57) then
    some (bs.foldl (fun n b => 10 * n + (b.toNat - 48)) 0)
  else none

theorem decimal_digits {n : Nat} : ∀ b ∈ decimal n, 48 ≤ b ∧ b ≤ 57 := by
  intro b hb
  obtain ⟨c, hc, rfl⟩ := List.mem_map.mp hb
  have hd := Nat.isDigit_of_mem_toDigits (by decide) (by decide) hc
  have hlt := digit_lt hd
  simp only [Char.isDigit, Bool.and_eq_true, decide_eq_true_eq] at hd
  have hlow := UInt32.le_iff_toNat_le.mp hd.1
  have hhigh := UInt32.le_iff_toNat_le.mp hd.2
  change 48 ≤ c.toNat at hlow
  change c.toNat ≤ 57 at hhigh
  simp only [UInt8.le_iff_toNat_le, Nat.toUInt8, UInt8.toNat_ofNat', Nat.mod_eq_of_lt hlt]
  exact ⟨hlow, hhigh⟩

private theorem foldl_ascii {cs : List Char} (h : ∀ c ∈ cs, c.isDigit = true) (k : Nat) :
    (ascii cs).foldl (fun n b => 10 * n + (b.toNat - 48)) k = Nat.ofDigitChars 10 cs k := by
  induction cs generalizing k with
  | nil => rfl
  | cons c cs ih =>
    obtain ⟨hc, hcs⟩ := List.forall_mem_cons.mp h
    have hbyte : c.toNat.toUInt8.toNat = c.toNat := by
      simp only [Nat.toUInt8, UInt8.toNat_ofNat', Nat.mod_eq_of_lt (digit_lt hc)]
    rw [Nat.ofDigitChars_cons, ← ih hcs]
    simp only [ascii, List.map_cons, List.foldl_cons, hbyte]
    rfl

theorem ofDecimal_decimal (n : Nat) : ofDecimal (decimal n) = some n := by
  have hne : decimal n ≠ [] := by
    simp [decimal, ascii, Nat.toDigits_ne_nil]
  have hall : (decimal n).all (fun b => 48 ≤ b ∧ b ≤ 57) = true :=
    List.all_eq_true.mpr fun b hb => decide_eq_true (decimal_digits b hb)
  rw [ofDecimal, if_pos ⟨hne, hall⟩, decimal, foldl_ascii fun c hc =>
    Nat.isDigit_of_mem_toDigits (by decide) (by decide) hc, Nat.ofDigitChars_ten_toDigits]

end Muduo.Support
