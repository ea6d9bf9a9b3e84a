import Muduo.Base.LogTime
import Mathlib.Algebra.Order.Round
import Mathlib.Data.Rat.Floor
import Mathlib.Tactic.Linarith
import Mathlib.Tactic.NormNum

/-! `formatSI` and `formatIEC`: a quantity with three digits and the letter of its unit. The
arithmetic is exact, and `printf` rounds to a nearest decimal. -/
namespace Muduo.Base
open Muduo.Support

/-- `%.*f`: the digits that are printed with so many decimals, as an integer; ties may go
either way. -/
structure Printf where
  scaled : Nat → ℚ → Int
  near : ∀ d x, |x * 10 ^ d - scaled d x| ≤ 1 / 2

/-- The rounding that takes ties up. -/
def Printf.halfUp : Printf := ⟨fun d x => round (x * 10 ^ d), fun _ _ => abs_sub_round _⟩

/-- The text of a number with `d` decimals. -/
def fixedPoint (d : Nat) (r : Int) : List UInt8 :=
  sign r ++ (numeralText 10 (r.natAbs / 10 ^ d) ++
    if d = 0 then [] else ascii ['.'] ++ fixedText 10 d r.natAbs)

def Printf.f (p : Printf) (d : Nat) (x : ℚ) : List UInt8 := fixedPoint d (p.scaled d x)

section
variable (p : Printf)

def formatSI (s : Int) : List UInt8 :=
  let n : ℚ := s
  printTo 64 <|
    if s < 1000 then decimalText s
    else if s < 9995 then p.f 2 (n / 1e3) ++ ascii ['K']
    else if s < 99950 then p.f 1 (n / 1e3) ++ ascii ['K']
    else if s < 999500 then p.f 0 (n / 1e3) ++ ascii ['K']
    else if s < 9995000 then p.f 2 (n / 1e6) ++ ascii ['M']
    else if s < 99950000 then p.f 1 (n / 1e6) ++ ascii ['M']
    else if s < 999500000 then p.f 0 (n / 1e6) ++ ascii ['M']
    else if s < 9995000000 then p.f 2 (n / 1e9) ++ ascii ['G']
    else if s < 99950000000 then p.f 1 (n / 1e9) ++ ascii ['G']
    else if s < 999500000000 then p.f 0 (n / 1e9) ++ ascii ['G']
    else if s < 9995000000000 then p.f 2 (n / 1e12) ++ ascii ['T']
    else if s < 99950000000000 then p.f 1 (n / 1e12) ++ ascii ['T']
    else if s < 999500000000000 then p.f 0 (n / 1e12) ++ ascii ['T']
    else if s < 9995000000000000 then p.f 2 (n / 1e15) ++ ascii ['P']
    else if s < 99950000000000000 then p.f 1 (n / 1e15) ++ ascii ['P']
    else if s < 999500000000000000 then p.f 0 (n / 1e15) ++ ascii ['P']
    else p.f 2 (n / 1e18) ++ ascii ['E']

def Ki : ℚ := 1024.0
def Mi : ℚ := Ki * 1024.0
def Gi : ℚ := Mi * 1024.0
def Ti : ℚ := Gi * 1024.0
def Pi : ℚ := Ti * 1024.0
def Ei : ℚ := Pi * 1024.0

def formatIEC (s : Int) : List UInt8 :=
  let n : ℚ := s
  printTo 64 <|
    if n < Ki then decimalText s
    else if n < Ki * 9.995 then p.f 2 (n / Ki) ++ ascii ['K', 'i']
    else if n < Ki * 99.95 then p.f 1 (n / Ki) ++ ascii ['K', 'i']
    else if n < Ki * 1023.5 then p.f 0 (n / Ki) ++ ascii ['K', 'i']
    else if n < Mi * 9.995 then p.f 2 (n / Mi) ++ ascii ['M', 'i']
    else if n < Mi * 99.95 then p.f 1 (n / Mi) ++ ascii ['M', 'i']
    else if n < Mi * 1023.5 then p.f 0 (n / Mi) ++ ascii ['M', 'i']
    else if n < Gi * 9.995 then p.f 2 (n / Gi) ++ ascii ['G', 'i']
    else if n < Gi * 99.95 then p.f 1 (n / Gi) ++ ascii ['G', 'i']
    else if n < Gi * 1023.5 then p.f 0 (n / Gi) ++ ascii ['G', 'i']
    else if n < Ti * 9.995 then p.f 2 (n / Ti) ++ ascii ['T', 'i']
    else if n < Ti * 99.95 then p.f 1 (n / Ti) ++ ascii ['T', 'i']
    else if n < Ti * 1023.5 then p.f 0 (n / Ti) ++ ascii ['T', 'i']
    else if n < Pi * 9.995 then p.f 2 (n / Pi) ++ ascii ['P', 'i']
    else if n < Pi * 99.95 then p.f 1 (n / Pi) ++ ascii ['P', 'i']
    else if n < Pi * 1023.5 then p.f 0 (n / Pi) ++ ascii ['P', 'i']
    else if n < Ei * 9.995 then p.f 2 (n / Ei) ++ ascii ['E', 'i']
    else p.f 1 (n / Ei) ++ ascii ['E', 'i']

end

/-- The letters of the `k`-th unit. -/
def siSuffix : Nat → List UInt8
  | 0 => []
  | 1 => ascii ['K']
  | 2 => ascii ['M']
  | 3 => ascii ['G']
  | 4 => ascii ['T']
  | 5 => ascii ['P']
  | _ => ascii ['E']

def iecSuffix : Nat → List UInt8
  | 0 => []
  | k + 1 => siSuffix (k + 1) ++ ascii ['i']

/-- The text shows `s` as a number in units of `base ^ k`. Plain integers are exact; else the
number has at least three digits, no more than three unless it is an integer below `base`, and
is off by at most half a unit of its last digit. -/
def Shows (base : Nat) (suffix : Nat → List UInt8) (s : Int) (text : List UInt8) : Prop :=
  ∃ d k r : Nat, text = fixedPoint d r ++ suffix k ∧ d ≤ 2 ∧ k ≤ 6 ∧
    |(r : ℚ) / 10 ^ d * base ^ k - s| ≤ base ^ k / 10 ^ d / 2 ∧
    (k = 0 → d = 0 ∧ (r : Int) = s) ∧ (0 < k → 100 ≤ r) ∧ r < if d = 0 then base else 1000

variable {p : Printf} {s : Int} {base : Nat} {suffix : Nat → List UInt8}

/-- One branch: the value is in the range of its format, away from both ends by half a digit. -/
theorem shows_rounded (d k : Nat) {x : ℚ} (hk : 0 < k) (hk₆ : k ≤ 6) (hd : d ≤ 2) (hbase : 0 < base)
    (hx : (s : ℚ) = x * base ^ k) (hlow : 99.5 < x * 10 ^ d)
    (hhigh : x * 10 ^ d + 0.5 < (if d = 0 then base else 1000 : Nat)) :
    Shows base suffix s (p.f d x ++ suffix k) := by
  have hnear := abs_le.mp (p.near d x)
  have hlow' : (100 : Int) ≤ p.scaled d x := by
    have h : ((99 : Int) : ℚ) < p.scaled d x := by
      push_cast
      linarith [hnear.2]
    exact Int.add_one_le_iff.mpr (by exact_mod_cast h)
  obtain ⟨r, hr⟩ := Int.eq_ofNat_of_zero_le ((by decide : (0 : Int) ≤ 100).trans hlow')
  refine ⟨d, k, r, by rw [Printf.f, hr], hd, hk₆, ?_, fun h => absurd h hk.ne',
    fun _ => by omega, ?_⟩
  · have hpow : (0 : ℚ) < base ^ k / 10 ^ d := by positivity
    have herror : (r : ℚ) / 10 ^ d * base ^ k - s =
        -((x * 10 ^ d - p.scaled d x) * (base ^ k / 10 ^ d)) := by
      rw [hx, hr]
      push_cast
      field_simp
      ring
    rw [herror, abs_neg, abs_mul, abs_of_pos hpow]
    calc |x * 10 ^ d - p.scaled d x| * (base ^ k / 10 ^ d)
        ≤ 1 / 2 * (base ^ k / 10 ^ d) := mul_le_mul_of_nonneg_right (p.near d x) hpow.le
      _ = base ^ k / 10 ^ d / 2 := by ring
  · have h : (r : ℚ) < (if d = 0 then base else 1000 : Nat) := by
      have hcast : ((p.scaled d x : Int) : ℚ) = r := by rw [hr]; rfl
      linarith [hnear.1]
    exact_mod_cast h

/-- A plain integer. -/
theorem shows_plain (h₀ : 0 ≤ s) (h : s < base) (hsuffix : suffix 0 = []) :
    Shows base suffix s (decimalText s) := by
  obtain ⟨r, rfl⟩ := Int.eq_ofNat_of_zero_le h₀
  refine ⟨0, 0, r, ?_, by decide, by decide, ?_, fun _ => ⟨rfl, rfl⟩, fun h => absurd h (by decide),
    ?_⟩
  · rw [fixedPoint, if_pos rfl, List.append_nil, pow_zero, Nat.div_one, hsuffix, List.append_nil,
      decimalText]
  · push_cast
    simp
  · rw [if_pos rfl]
    exact_mod_cast h

theorem fixedPoint_length_le {d r : Nat} (hd : d ≤ 2) (hr : r < if d = 0 then 1024 else 1000) :
    (fixedPoint d r).length ≤ 4 := by
  have hsign : sign (r : Int) = [] := if_neg (Int.not_lt.mpr (Int.natCast_nonneg r))
  rw [fixedPoint, hsign, List.nil_append, Int.natAbs_natCast, List.length_append]
  have hdigits : ∀ {w n : Nat}, 0 < w → n < 10 ^ w → (numeralText 10 n).length ≤ w :=
    fun hw h => numeralText_length_le (by decide) hw h
  have hpoint : (ascii ['.']).length = 1 := rfl
  interval_cases d
  · rw [if_pos rfl] at hr
    have hlen := hdigits (w := 4) (n := r / 10 ^ 0) (by decide) (by omega)
    exact hlen
  · rw [if_neg (by decide)] at hr
    have hlen := hdigits (w := 2) (n := r / 10 ^ 1) (by decide) (by omega)
    rw [if_neg (by decide), List.length_append, hpoint, fixedText_length]
    omega
  · rw [if_neg (by decide)] at hr
    have hlen := hdigits (w := 1) (n := r / 10 ^ 2) (by decide) (by omega)
    rw [if_neg (by decide), List.length_append, hpoint, fixedText_length]
    omega

/-- What is shown takes four characters and the letters of the unit. -/
theorem Shows.length_le {text : List UInt8} {w : Nat} (h : Shows base suffix s text)
    (hbase : base ≤ 1024) (hsuffix : ∀ k, (suffix k).length ≤ w) : text.length ≤ 4 + w := by
  obtain ⟨d, k, r, rfl, hd, _, _, _, _, hr⟩ := h
  have hlen := fixedPoint_length_le hd (r := r) (by split_ifs at hr ⊢ <;> omega)
  have hk := hsuffix k
  rw [List.length_append]
  omega

theorem siSuffix_length_le (k : Nat) : (siSuffix k).length ≤ 1 := by
  rw [siSuffix.eq_def]
  split <;> decide

theorem iecSuffix_length_le (k : Nat) : (iecSuffix k).length ≤ 2 := by
  cases k with
  | zero => decide
  | succ k =>
    have hlen := siSuffix_length_le (k + 1)
    rw [iecSuffix, List.length_append]
    change _ + 1 ≤ 2
    omega

/-- A text in the buffer of 64 bytes is not cut. -/
theorem Shows.printTo {text : List UInt8} (h : Shows base suffix s text) (hbase : base ≤ 1024)
    (hsuffix : ∀ k, (suffix k).length ≤ 2) : Shows base suffix s (printTo 64 text) := by
  have hlen := h.length_le hbase hsuffix
  rw [printTo_of_lt (by omega)]
  exact h

/-- The three formats of a unit: each threshold is half a digit below the next format, and the
last is high enough for the next unit. -/
theorem shows_unit (k : Nat) {U : ℚ} {c₂ c₁ c₀ : Prop} [Decidable c₂] [Decidable c₁] [Decidable c₀]
    {rest : List UInt8} (hk : 0 < k) (hk₆ : k ≤ 6) (hbase : 1000 ≤ base) (hU : U = base ^ k)
    (hlow : (base : ℚ) ^ k * 0.9995 ≤ s) (h₂ : c₂ ↔ s < U * 9.995) (h₁ : c₁ ↔ s < U * 99.95)
    (h₀ : c₀ ↔ s < U * (base - 0.5))
    (hrest : (base : ℚ) ^ (k + 1) * 0.9995 ≤ s → Shows base suffix s rest) :
    Shows base suffix s (if c₂ then p.f 2 (s / U) ++ suffix k
      else if c₁ then p.f 1 (s / U) ++ suffix k
      else if c₀ then p.f 0 (s / U) ++ suffix k
      else rest) := by
  have hbase₀ : 0 < base := by omega
  have hpos : 0 < U := by
    rw [hU]
    positivity
  have hx : (s : ℚ) = s / U * base ^ k := by rw [← hU, div_mul_cancel₀ _ hpos.ne']
  have hge : ∀ {a : ℚ}, U * a ≤ s → a ≤ s / U := fun h => (le_div_iff₀' hpos).mpr h
  have hlt : ∀ {a : ℚ}, s < U * a → s / U < a := fun h => (div_lt_iff₀' hpos).mpr h
  by_cases hc₂ : c₂
  · have hhigh := hlt (h₂.mp hc₂)
    have hlow' := hge (hU ▸ hlow)
    rw [if_pos hc₂]
    refine shows_rounded 2 k hk hk₆ (by decide) hbase₀ hx ?_ ?_
    · linarith
    · rw [if_neg (by decide)]
      push_cast
      linarith
  · have hmid := hge (le_of_not_gt fun h => hc₂ (h₂.mpr h))
    rw [if_neg hc₂]
    by_cases hc₁ : c₁
    · have hhigh := hlt (h₁.mp hc₁)
      rw [if_pos hc₁]
      refine shows_rounded 1 k hk hk₆ (by decide) hbase₀ hx ?_ ?_
      · linarith
      · rw [if_neg (by decide)]
        push_cast
        linarith
    · have hlast := hge (le_of_not_gt fun h => hc₁ (h₁.mpr h))
      rw [if_neg hc₁]
      by_cases hc₀ : c₀
      · have hhigh := hlt (h₀.mp hc₀)
        rw [if_pos hc₀]
        refine shows_rounded 0 k hk hk₆ (by decide) hbase₀ hx ?_ ?_
        · linarith
        · rw [if_pos rfl]
          linarith
      · have htop := le_of_not_gt fun h => hc₀ (h₀.mpr h)
        have hbase' : (1000 : ℚ) ≤ base := by exact_mod_cast hbase
        rw [if_neg hc₀]
        apply hrest
        calc (base : ℚ) ^ (k + 1) * 0.9995
            = U * (base * 0.9995) := by rw [pow_succ, ← hU, mul_assoc]
          _ ≤ U * (base - 0.5) := mul_le_mul_of_nonneg_left (by linarith) hpos.le
          _ ≤ s := htop

/-- An integer threshold of `formatSI` as a multiple of the unit. -/
theorem lt_iff_cast {t : Int} {a : ℚ} (h : (t : ℚ) = a) : s < t ↔ (s : ℚ) < a := by
  rw [← h, Int.cast_lt]

theorem formatSI_shows (p : Printf) (h₀ : 0 ≤ s) (h : s < 2 ^ 63) :
    Shows 1000 siSuffix s (formatSI p s) := by
  refine Shows.printTo ?_ (by decide) fun k => (siSuffix_length_le k).trans (by decide)
  by_cases hplain : s < 1000
  · rw [if_pos hplain]
    exact shows_plain h₀ hplain rfl
  rw [if_neg hplain]
  have hlow : (1000 : ℚ) ≤ s := by exact_mod_cast le_of_not_gt hplain
  have hhigh : (s : ℚ) < 2 ^ 63 := by exact_mod_cast h
  refine shows_unit 1 (by decide) (by decide) le_rfl (by norm_num) (by norm_num; linarith)
    (lt_iff_cast (by norm_num)) (lt_iff_cast (by norm_num)) (lt_iff_cast (by norm_num)) fun hM => ?_
  refine shows_unit 2 (by decide) (by decide) le_rfl (by norm_num) hM
    (lt_iff_cast (by norm_num)) (lt_iff_cast (by norm_num)) (lt_iff_cast (by norm_num)) fun hG => ?_
  refine shows_unit 3 (by decide) (by decide) le_rfl (by norm_num) hG
    (lt_iff_cast (by norm_num)) (lt_iff_cast (by norm_num)) (lt_iff_cast (by norm_num)) fun hT => ?_
  refine shows_unit 4 (by decide) (by decide) le_rfl (by norm_num) hT
    (lt_iff_cast (by norm_num)) (lt_iff_cast (by norm_num)) (lt_iff_cast (by norm_num)) fun hP => ?_
  refine shows_unit 5 (by decide) (by decide) le_rfl (by norm_num) hP
    (lt_iff_cast (by norm_num)) (lt_iff_cast (by norm_num)) (lt_iff_cast (by norm_num)) fun hE => ?_
  refine shows_rounded 2 6 (by decide) (by decide) (by decide) (by decide) (by norm_num) ?_ ?_
  · norm_num at hE ⊢
    linarith
  · norm_num at hhigh ⊢
    linarith

theorem unit_eq : Ki = 1024 ^ 1 ∧ Mi = 1024 ^ 2 ∧ Gi = 1024 ^ 3 ∧ Ti = 1024 ^ 4 ∧ Pi = 1024 ^ 5 ∧
    Ei = 1024 ^ 6 := by
  rw [Ei, Pi, Ti, Gi, Mi, Ki]
  norm_num

theorem formatIEC_shows (p : Printf) (h₀ : 0 ≤ s) (h : s < 2 ^ 63) :
    Shows 1024 iecSuffix s (formatIEC p s) := by
  obtain ⟨hKi, hMi, hGi, hTi, hPi, hEi⟩ := unit_eq
  have hhigh : (s : ℚ) < 2 ^ 63 := by exact_mod_cast h
  have hthird : ∀ {U : ℚ}, (s : ℚ) < U * 1023.5 ↔ (s : ℚ) < U * ((1024 : Nat) - 0.5) := by
    intro U
    norm_num
  refine Shows.printTo ?_ (by decide) iecSuffix_length_le
  by_cases hplain : (s : ℚ) < Ki
  · rw [if_pos hplain]
    rw [hKi] at hplain
    exact shows_plain h₀ (by exact_mod_cast hplain) rfl
  rw [if_neg hplain]
  have hlow : ((1024 : Nat) : ℚ) ^ 1 * 0.9995 ≤ s := by
    rw [hKi] at hplain
    norm_num at hplain ⊢
    linarith
  have hbase : 1000 ≤ 1024 := by decide
  refine shows_unit 1 (by decide) (by decide) hbase hKi hlow Iff.rfl Iff.rfl hthird fun hM => ?_
  refine shows_unit 2 (by decide) (by decide) hbase hMi hM Iff.rfl Iff.rfl hthird fun hG => ?_
  refine shows_unit 3 (by decide) (by decide) hbase hGi hG Iff.rfl Iff.rfl hthird fun hT => ?_
  refine shows_unit 4 (by decide) (by decide) hbase hTi hT Iff.rfl Iff.rfl hthird fun hP => ?_
  refine shows_unit 5 (by decide) (by decide) hbase hPi hP Iff.rfl Iff.rfl hthird fun hE => ?_
  have hexbi : (s : ℚ) < Ei * 9.995 := by
    rw [hEi]
    norm_num at hhigh ⊢
    linarith
  rw [if_pos hexbi]
  refine shows_rounded 2 6 (by decide) (by decide) (by decide) (by decide) ?_ ?_ ?_
  · rw [hEi]
    norm_num
  · rw [hEi]
    norm_num at hE ⊢
    linarith
  · rw [hEi]
    norm_num at hhigh ⊢
    linarith

/-- However ties are rounded, the texts keep to the widths that the header documents, are right
to half a unit of their last digit, and never round up to a digit more than their format has. -/
theorem unit_formats (p : Printf) (h₀ : 0 ≤ s) (h : s < 2 ^ 63) :
    (formatSI p s).length ≤ 5 ∧ Shows 1000 siSuffix s (formatSI p s) ∧
      (formatIEC p s).length ≤ 6 ∧ Shows 1024 iecSuffix s (formatIEC p s) := by
  have hsi := formatSI_shows p h₀ h
  have hiec := formatIEC_shows p h₀ h
  exact ⟨hsi.length_le (by decide) siSuffix_length_le, hsi,
    hiec.length_le (by decide) iecSuffix_length_le, hiec⟩

theorem unit_formats_max :
    ((0 : Int) ≤ 9223372036854775807 ∧ (9223372036854775807 : Int) < 2 ^ 63) ∧
      (formatSI .halfUp 9223372036854775807).length ≤ 5 ∧
      (formatIEC .halfUp 9223372036854775807).length ≤ 6 := by
  obtain ⟨hsi, _, hiec, _⟩ := unit_formats .halfUp (s := 9223372036854775807) (by decide) (by decide)
  exact ⟨⟨by decide, by decide⟩, hsi, hiec⟩

end Muduo.Base
