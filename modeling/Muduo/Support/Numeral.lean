import Muduo.Support.Decimal
import Mathlib.Data.Nat.Digits.Lemmas

/-! Positional numerals, the most significant digit first. Nothing here depends on the
modelled program. -/
namespace Muduo.Support

/-- The digits of a number in base `b`; zero has the one digit `0`. -/
def numeral (b n : Nat) : List Nat := if n = 0 then [0] else (Nat.digits b n).reverse

/-- The digits `ds` are the canonical numeral of `n` in base `b`. -/
structure Canonical (b n : Nat) (ds : List Nat) : Prop where
  nonempty : ds ≠ []
  digit : ∀ d ∈ ds, d < b
  value : Nat.ofDigits b ds.reverse = n
  leading : ds.head? = some 0 → ds = [0]

variable {b n : Nat}

theorem numeral_of_lt (h : n < b) : numeral b n = [n] := by
  by_cases hn : n = 0
  · rw [numeral, if_pos hn, hn]
  · rw [numeral, if_neg hn, Nat.digits_of_lt b n hn h, List.reverse_singleton]

theorem numeral_of_le (hb : 1 < b) (h : b ≤ n) :
    numeral b n = numeral b (n / b) ++ [n % b] := by
  have hn : n ≠ 0 := by omega
  have hq : n / b ≠ 0 := (Nat.div_pos h (by omega)).ne'
  rw [numeral, if_neg hn, numeral, if_neg hq, Nat.digits_eq_cons_digits_div hb hn,
    List.reverse_cons]

/-- A digit is split off until the quotient is zero, and at least once. -/
theorem numeral_split (hb : 1 < b) :
    numeral b n = (if n / b = 0 then [] else numeral b (n / b)) ++ [n % b] := by
  by_cases h : n < b
  · rw [if_pos (Nat.div_eq_of_lt h), numeral_of_lt h, Nat.mod_eq_of_lt h, List.nil_append]
  · have hle : b ≤ n := Nat.le_of_not_lt h
    rw [if_neg (Nat.div_pos hle (by omega)).ne', numeral_of_le hb hle]

theorem numeral_ne_nil : numeral b n ≠ [] := by
  by_cases hn : n = 0
  · rw [numeral, if_pos hn]
    exact List.cons_ne_nil 0 []
  · rw [numeral, if_neg hn]
    exact fun h => Nat.digits_ne_nil_iff_ne_zero.mpr hn (List.reverse_eq_nil_iff.mp h)

theorem numeral_lt (hb : 1 < b) : ∀ d ∈ numeral b n, d < b := by
  intro d hd
  by_cases hn : n = 0
  · rw [numeral, if_pos hn, List.mem_singleton] at hd
    omega
  · rw [numeral, if_neg hn, List.mem_reverse] at hd
    exact Nat.digits_lt_base hb hd

theorem numeral_value : Nat.ofDigits b (numeral b n).reverse = n := by
  by_cases hn : n = 0
  · rw [numeral, if_pos hn, hn, List.reverse_singleton, Nat.ofDigits_singleton]
  · rw [numeral, if_neg hn, List.reverse_reverse, Nat.ofDigits_digits]

theorem numeral_leading (h : (numeral b n).head? = some 0) : numeral b n = [0] := by
  by_cases hn : n = 0
  · rw [numeral, if_pos hn]
  · rw [numeral, if_neg hn, List.head?_reverse] at h
    have hne := Nat.digits_ne_nil_iff_ne_zero (b := b).mpr hn
    rw [List.getLast?_eq_some_getLast hne, Option.some.injEq] at h
    exact absurd h (Nat.getLast_digit_ne_zero b hn)

theorem numeral_canonical (hb : 1 < b) : Canonical b n (numeral b n) :=
  ⟨numeral_ne_nil, numeral_lt hb, numeral_value, numeral_leading⟩

/-- There is one canonical numeral of a number. -/
theorem Canonical.unique {ds : List Nat} (hb : 1 < b) (h : Canonical b n ds) :
    ds = numeral b n := by
  by_cases hn : n = 0
  · have hz : ds = [0] := by
      apply h.leading
      cases ds with
      | nil => exact absurd rfl h.nonempty
      | cons d ds =>
        have hv := h.value
        rw [List.reverse_cons, Nat.ofDigits_append, Nat.ofDigits_singleton, hn] at hv
        have hd : d = 0 := by
          have hp : 0 < b ^ ds.reverse.length := Nat.pow_pos (by omega)
          rcases Nat.mul_eq_zero.mp (Nat.eq_zero_of_add_eq_zero_left hv) with hz | hz
          · omega
          · exact hz
        rw [hd, List.head?_cons]
    rw [hz, numeral, if_pos hn]
  · have hlast : ∀ hne : ds.reverse ≠ [], ds.reverse.getLast hne ≠ 0 := by
      intro hne hz
      rw [List.getLast_reverse] at hz
      have hone : ds = [0] := h.leading (by rw [List.head?_eq_some_head h.nonempty, hz])
      have hv := h.value
      rw [hone, List.reverse_singleton, Nat.ofDigits_singleton] at hv
      exact hn hv.symm
    have hd := Nat.digits_ofDigits b hb ds.reverse
      (fun d hd => h.digit d (List.mem_reverse.mp hd)) hlast
    rw [numeral, if_neg hn, ← h.value, hd, List.reverse_reverse]

theorem numeral_length_le {k : Nat} (hb : 1 < b) (hk : 0 < k) (h : n < b ^ k) :
    (numeral b n).length ≤ k := by
  by_cases hn : n = 0
  · rw [numeral, if_pos hn]
    exact hk
  · rw [numeral, if_neg hn, List.length_reverse]
    exact (Nat.digits_length_le_iff hb n).mpr h

theorem lt_numeral_length {k : Nat} (hb : 1 < b) (h : b ^ k ≤ n) : k < (numeral b n).length := by
  have hn : n ≠ 0 := (Nat.lt_of_lt_of_le (Nat.pow_pos (by omega)) h).ne'
  rw [numeral, if_neg hn, List.length_reverse]
  exact (Nat.lt_digits_length_iff hb n).mpr h

/-- The character of a digit up to fifteen, in upper case. -/
def digitChar (d : Nat) : UInt8 := (if d < 10 then 48 + d else 55 + d).toUInt8

def digitValue (c : UInt8) : Option Nat :=
  if 48 ≤ c ∧ c ≤ 57 then some (c.toNat - 48)
  else if 65 ≤ c ∧ c ≤ 70 then some (c.toNat - 55)
  else none

/-- The numeral of `n` as text. -/
def numeralText (b n : Nat) : List UInt8 := (numeral b n).map digitChar

/-- Reading a numeral in base `b`. -/
def ofNumeralText (b : Nat) (text : List UInt8) : Option Nat := do
  let ds ← text.mapM digitValue
  if ds ≠ [] ∧ ∀ d ∈ ds, d < b then some (Nat.ofDigits b ds.reverse) else none

theorem digitValue_digitChar : ∀ d < 16, digitValue (digitChar d) = some d := by decide

theorem mapM_digitValue {ds : List Nat} (h : ∀ d ∈ ds, d < 16) :
    (ds.map digitChar).mapM digitValue = some ds := by
  induction ds with
  | nil => rfl
  | cons d ds ih =>
    obtain ⟨hd, hds⟩ := List.forall_mem_cons.mp h
    rw [List.map_cons, List.mapM_cons, digitValue_digitChar d hd, ih hds]
    rfl

theorem ofNumeralText_numeralText (hb : 1 < b) (h16 : b ≤ 16) :
    ofNumeralText b (numeralText b n) = some n := by
  have hlt : ∀ d ∈ numeral b n, d < 16 := fun d hd => (numeral_lt hb d hd).trans_le h16
  rw [ofNumeralText, numeralText, mapM_digitValue hlt]
  change (if _ then _ else _) = _
  rw [if_pos ⟨numeral_ne_nil, numeral_lt hb⟩, numeral_value]

theorem numeralText_reverse (hb : 1 < b) :
    (numeralText b n).reverse =
      digitChar (n % b) :: if n / b = 0 then [] else (numeralText b (n / b)).reverse := by
  rw [numeralText, numeral_split hb, List.map_append, List.reverse_append]
  split
  · rfl
  · rfl

theorem decimal_eq_numeralText (n : Nat) : decimal n = numeralText 10 n := by
  have digit : ∀ d < 10, (Nat.digitChar d).toNat.toUInt8 = digitChar d := by decide
  induction n using Nat.strong_induction_on with
  | _ n ih =>
    by_cases h : n < 10
    · rw [numeralText, numeral_of_lt h, decimal, Nat.toDigits_of_lt_base h]
      exact congrArg (fun c => [c]) (digit n h)
    · have hle : 10 ≤ n := Nat.le_of_not_lt h
      rw [numeralText, numeral_of_le (by decide) hle, List.map_append, ← numeralText,
        ← ih (n / 10) (by omega), decimal, Nat.toDigits_of_base_le (by decide) hle, ascii,
        List.map_append]
      exact congrArg (fun c => decimal (n / 10) ++ [c]) (digit (n % 10) (by omega))

end Muduo.Support
