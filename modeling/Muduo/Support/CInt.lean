import Mathlib.Data.Int.Order.Basic

/-! The `int` arithmetic of C on 32 bits, where an overflow and a division by zero have no
value. Division truncates. -/
namespace Muduo.Support

structure CInt where
  value : Option Int
  deriving DecidableEq, Repr

namespace CInt

def ofInt (n : Int) : CInt := ⟨if -2147483648 ≤ n ∧ n ≤ 2147483647 then some n else none⟩

def lift (f : Int → Int → CInt) (x y : CInt) : CInt :=
  match x.value, y.value with
  | some a, some b => f a b
  | _, _ => ⟨none⟩

instance (n : Nat) : OfNat CInt n := ⟨ofInt n⟩
instance : Add CInt := ⟨lift fun a b => ofInt (a + b)⟩
instance : Sub CInt := ⟨lift fun a b => ofInt (a - b)⟩
instance : Mul CInt := ⟨lift fun a b => ofInt (a * b)⟩
instance : Div CInt := ⟨lift fun a b => if b = 0 then ⟨none⟩ else ofInt (a.tdiv b)⟩
instance : Mod CInt := ⟨lift fun a b => if b = 0 then ⟨none⟩ else ofInt (a.tmod b)⟩

/-- The value of the expression is `n`, unless something in it has none; under `P` it has. -/
structure Evaluates (P : Prop) (x : CInt) (n : Int) : Prop where
  computes : ∀ v, x.value = some v → v = n
  defined : P → x.value = some n

variable {P : Prop} {x y : CInt} {a b n m : Int}

theorem Evaluates.of_eq (h : x.Evaluates P n) (he : n = m) : x.Evaluates P m := he ▸ h

theorem ofInt_evaluates (h : P → -2147483648 ≤ n ∧ n ≤ 2147483647) :
    (ofInt n).Evaluates P n := by
  refine ⟨fun v hv => ?_, fun hp => if_pos (h hp)⟩
  unfold ofInt at hv
  dsimp only at hv
  split_ifs at hv
  exact (Option.some.inj hv).symm

theorem lit_evaluates (n : Nat) (h : n ≤ 2147483647) : (OfNat.ofNat n : CInt).Evaluates P n :=
  ofInt_evaluates fun _ => by omega

theorem lift_evaluates {f : Int → Int → CInt} (hx : x.Evaluates P a) (hy : y.Evaluates P b)
    (hf : (f a b).Evaluates P n) : (lift f x y).Evaluates P n := by
  constructor
  · intro v hv
    unfold lift at hv
    cases hxv : x.value with
    | none => simp [hxv] at hv
    | some a' =>
      cases hyv : y.value with
      | none => simp [hxv, hyv] at hv
      | some b' =>
        obtain rfl := hx.computes a' hxv
        obtain rfl := hy.computes b' hyv
        simp only [hxv, hyv] at hv
        exact hf.computes v hv
  · intro hp
    simp only [lift, hx.defined hp, hy.defined hp]
    exact hf.defined hp

theorem Evaluates.add (hx : x.Evaluates P a) (hy : y.Evaluates P b)
    (h : P → -2147483648 ≤ a + b ∧ a + b ≤ 2147483647) : (x + y).Evaluates P (a + b) :=
  lift_evaluates hx hy (ofInt_evaluates h)

theorem Evaluates.sub (hx : x.Evaluates P a) (hy : y.Evaluates P b)
    (h : P → -2147483648 ≤ a - b ∧ a - b ≤ 2147483647) : (x - y).Evaluates P (a - b) :=
  lift_evaluates hx hy (ofInt_evaluates h)

theorem Evaluates.mul (hx : x.Evaluates P a) (hy : y.Evaluates P b)
    (h : P → -2147483648 ≤ a * b ∧ a * b ≤ 2147483647) : (x * y).Evaluates P (a * b) :=
  lift_evaluates hx hy (ofInt_evaluates h)

/-- Of a dividend that is not negative truncation takes the floor, which is no overflow. -/
theorem Evaluates.div (hx : x.Evaluates P a) (hy : y.Evaluates P b) (ha : 0 ≤ a) (hb : 0 < b)
    (h : P → a ≤ 2147483647) : (x / y).Evaluates P (a / b) := by
  apply lift_evaluates hx hy
  rw [if_neg (ne_of_gt hb), Int.tdiv_eq_ediv_of_nonneg ha]
  apply ofInt_evaluates
  intro hp
  have hle := Int.ediv_le_self b ha
  have hnonneg := Int.ediv_nonneg ha (le_of_lt hb)
  have := h hp
  omega

theorem Evaluates.mod (hx : x.Evaluates P a) (hy : y.Evaluates P b) (hb : 0 < b)
    (h : P → b ≤ 2147483647) : (x % y).Evaluates P (a.tmod b) := by
  apply lift_evaluates hx hy
  rw [if_neg (ne_of_gt hb)]
  apply ofInt_evaluates
  intro hp
  have hlow := Int.lt_tmod_of_pos a hb
  have hhigh := Int.tmod_lt_of_pos a hb
  have := h hp
  omega

end CInt
end Muduo.Support
