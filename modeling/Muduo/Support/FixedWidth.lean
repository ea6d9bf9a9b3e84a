import Muduo.Support.Numeral

/-! Numerals of a fixed width, and the order of texts made of fields of a fixed width. Nothing
here depends on the modelled program. -/
namespace Muduo.Support

/-- The order of texts that `memcmp` decides. -/
def LexBefore (a b : List UInt8) : Prop := List.Lex (fun c d => c.toNat < d.toNat) a b

variable {a b x y : List UInt8}

theorem lexBefore_cons {c d : UInt8} :
    LexBefore (c :: a) (d :: b) ↔ c.toNat < d.toNat ∨ c = d ∧ LexBefore a b :=
  List.cons_lex_cons_iff

theorem not_lexBefore_self (a : List UInt8) : ¬ LexBefore a a := by
  induction a with
  | nil => exact List.not_lex_nil
  | cons c a ih =>
    rw [lexBefore_cons]
    rintro (h | ⟨_, h⟩)
    · exact absurd h (Nat.lt_irrefl _)
    · exact ih h

/-- Between texts of one length the first decides, and the rest only if they are equal. -/
theorem lexBefore_append (h : a.length = b.length) :
    LexBefore (a ++ x) (b ++ y) ↔ LexBefore a b ∨ a = b ∧ LexBefore x y := by
  induction a generalizing b with
  | nil =>
    obtain rfl := List.length_eq_zero_iff.mp h.symm
    constructor
    · exact fun hlt => .inr ⟨rfl, hlt⟩
    · rintro (hlt | ⟨_, hlt⟩)
      · exact absurd hlt (not_lexBefore_self [])
      · exact hlt
  | cons c a ih =>
    cases b with
    | nil => cases h
    | cons d b =>
      rw [List.cons_append, List.cons_append, lexBefore_cons, lexBefore_cons,
        ih (Nat.succ.inj h), List.cons.injEq, and_or_left, ← and_assoc, or_assoc]

theorem lexBefore_append_same (a : List UInt8) : LexBefore (a ++ x) (a ++ y) ↔ LexBefore x y := by
  rw [lexBefore_append rfl, or_iff_right (not_lexBefore_self a), and_iff_right rfl]

/-- Texts in the order of what they stand for determine it. -/
theorem eq_of_before_iff {α : Type} [LinearOrder α] {m n : α}
    (h : LexBefore a b ↔ m < n) (h' : LexBefore b a ↔ n < m) (he : a = b) : m = n := by
  subst he
  rcases lt_trichotomy m n with hlt | heq | hgt
  · exact absurd (h.mpr hlt) (not_lexBefore_self a)
  · exact heq
  · exact absurd (h'.mpr hgt) (not_lexBefore_self a)

/-- The numbers in `P` as texts of `w` characters, in the order of the numbers. -/
structure OrderedField (w : Nat) (P : Int → Prop) (text : Int → List UInt8) : Prop where
  length : ∀ n, P n → (text n).length = w
  order : ∀ m n, P m → P n → (LexBefore (text m) (text n) ↔ m < n)

namespace OrderedField
variable {w : Nat} {P : Int → Prop} {text : Int → List UInt8} {m n : Int}

theorem injective (h : OrderedField w P text) (hm : P m) (hn : P n) (he : text m = text n) :
    m = n := eq_of_before_iff (h.order m n hm hn) (h.order n m hn hm) he

theorem append (h : OrderedField w P text) (hm : P m) (hn : P n) :
    LexBefore (text m ++ x) (text n ++ y) ↔ m < n ∨ m = n ∧ LexBefore x y := by
  rw [lexBefore_append ((h.length m hm).trans (h.length n hn).symm), h.order m n hm hn]
  have hinj : text m = text n ↔ m = n :=
    ⟨h.injective hm hn, fun he => he ▸ rfl⟩
  rw [hinj]

end OrderedField

/-- The last `w` digits of a number. -/
def fixedText (base : Nat) : Nat → Nat → List UInt8
  | 0, _ => []
  | w + 1, n => fixedText base w (n / base) ++ [digitChar (n % base)]

variable {base : Nat}

theorem fixedText_length (w n : Nat) : (fixedText base w n).length = w := by
  induction w generalizing n with
  | zero => rfl
  | succ w ih => rw [fixedText, List.length_append, ih, List.length_singleton]

theorem digitChar_lt_iff : ∀ c < 16, ∀ d < 16,
    ((digitChar c).toNat < (digitChar d).toNat ↔ c < d) := by decide

theorem fixedText_lt_iff (hb : 1 < base) (h16 : base ≤ 16) (w : Nat) {m n : Nat}
    (hm : m < base ^ w) (hn : n < base ^ w) :
    LexBefore (fixedText base w m) (fixedText base w n) ↔ m < n := by
  induction w generalizing m n with
  | zero =>
    rw [pow_zero] at hm hn
    have hlt : ¬ m < n := by omega
    exact iff_of_false (not_lexBefore_self []) hlt
  | succ w ih =>
    have hpos : 0 < base := by omega
    rw [pow_succ] at hm hn
    have hm' : m / base < base ^ w := Nat.div_lt_of_lt_mul (by rw [Nat.mul_comm]; exact hm)
    have hn' : n / base < base ^ w := Nat.div_lt_of_lt_mul (by rw [Nat.mul_comm]; exact hn)
    have heq : fixedText base w (m / base) = fixedText base w (n / base) ↔
        m / base = n / base :=
      ⟨eq_of_before_iff (ih hm' hn') (ih hn' hm'), fun he => by rw [he]⟩
    have hdigit : LexBefore [digitChar (m % base)] [digitChar (n % base)] ↔
        m % base < n % base := by
      rw [lexBefore_cons, digitChar_lt_iff _ ((Nat.mod_lt m hpos).trans_le h16) _
        ((Nat.mod_lt n hpos).trans_le h16), or_iff_left fun h => not_lexBefore_self [] h.2]
    rw [fixedText, fixedText, lexBefore_append (by rw [fixedText_length, fixedText_length]),
      ih hm' hn', heq, hdigit]
    have hdm := Nat.div_add_mod m base
    have hdn := Nat.div_add_mod n base
    constructor
    · rintro (hlt | ⟨he, hlt⟩)
      · exact lt_of_not_ge fun hge => absurd (Nat.div_le_div_right hge) (Nat.not_le.mpr hlt)
      · rw [he] at hdm
        omega
    · intro hlt
      rcases Nat.lt_or_ge (m / base) (n / base) with hq | hq
      · exact .inl hq
      · have he : m / base = n / base := Nat.le_antisymm (Nat.div_le_div_right hlt.le) hq
        rw [he] at hdm
        exact .inr ⟨he, by omega⟩

theorem fixedText_zero (w : Nat) : fixedText base w 0 = List.replicate w 48 := by
  induction w with
  | zero => rfl
  | succ w ih =>
    rw [fixedText, Nat.zero_div, Nat.zero_mod, ih, List.replicate_succ']
    rfl

/-- A numeral that is padded by zeros is of fixed width. -/
theorem padded_eq_fixedText (hb : 1 < base) {w n : Nat} (hw : 0 < w) (h : n < base ^ w) :
    List.replicate (w - (numeralText base n).length) 48 ++ numeralText base n =
      fixedText base w n := by
  induction w generalizing n with
  | zero => cases hw
  | succ w ih =>
    by_cases hn : n < base
    · rw [fixedText, Nat.div_eq_of_lt hn, Nat.mod_eq_of_lt hn, fixedText_zero, numeralText,
        numeral_of_lt hn]
      rfl
    · have hle : base ≤ n := Nat.le_of_not_lt hn
      have hw' : 0 < w := by
        rcases Nat.eq_zero_or_pos w with rfl | hpos
        · rw [Nat.zero_add, pow_one] at h
          exact absurd h hn
        · exact hpos
      have hlt : n / base < base ^ w :=
        Nat.div_lt_of_lt_mul (by rw [Nat.mul_comm, ← pow_succ]; exact h)
      rw [numeralText, numeral_of_le hb hle, List.map_append, ← numeralText, List.length_append,
        fixedText, ← ih hw' hlt, List.append_assoc]
      congr 2
      exact Nat.add_sub_add_right w 1 _

end Muduo.Support
