import Muduo.Support.Machine

/-! Two calls, and two machines, in lockstep. Nothing here depends on the modelled program. -/
namespace Muduo.Support

variable {α β γ δ σ τ : Type} {R : α → β → Prop} {S : γ → δ → Prop}

/-- The two calls fail alike, or their results are related. -/
inductive Both (R : α → β → Prop) : Except Fault α → Except Fault β → Prop where
  | ok {a : α} {b : β} (h : R a b) : Both R (.ok a) (.ok b)
  | error (e : Fault) : Both R (.error e) (.error e)

theorem Both.symm {x : Except Fault α} {y : Except Fault β} (h : Both R x y) :
    Both (fun b a => R a b) y x := by
  cases h with
  | ok h => exact .ok h
  | error e => exact .error e

theorem Both.bind {x : Except Fault α} {y : Except Fault β} {f : α → Except Fault γ}
    {g : β → Except Fault δ} (h : Both R x y) (hf : ∀ a b, R a b → Both S (f a) (g b)) :
    Both S (x >>= f) (y >>= g) := by
  cases h with
  | ok h => exact hf _ _ h
  | error e => exact .error e

/-- Two calls that begin with the same one. -/
theorem Both.bind_same (x : Except Fault α) {f : α → Except Fault γ} {g : α → Except Fault δ}
    (hf : ∀ a, x = .ok a → Both S (f a) (g a)) : Both S (x >>= f) (x >>= g) := by
  cases x with
  | ok a => exact hf a rfl
  | error e => exact .error e

theorem Both.assert_bind {p q : Prop} [Decidable p] [Decidable q] (h : p ↔ q)
    {f : Unit → Except Fault γ} {g : Unit → Except Fault δ} (hf : p → Both S (f ()) (g ())) :
    Both S (assert p >>= f) (assert q >>= g) := by
  by_cases hp : p
  · rw [assert_bind_true hp, assert_bind_true (h.mp hp)]
    exact hf hp
  · rw [assert_bind_false hp, assert_bind_false fun hq => hp (h.mpr hq)]
    exact .error _

theorem Both.ite {p q : Prop} [Decidable p] [Decidable q] (h : p ↔ q) {x x' : Except Fault α}
    {y y' : Except Fault β} (ht : p → Both R x y) (he : ¬ p → Both R x' y') :
    Both R (if p then x else x') (if q then y else y') := by
  by_cases hp : p
  · rw [if_pos hp, if_pos (h.mp hp)]
    exact ht hp
  · rw [if_neg hp, if_neg fun hq => hp (h.mpr hq)]
    exact he hp

namespace Machine
variable {M : Machine σ α} {N : Machine τ α}

/-- Related states have the same steps, which lead to related states. -/
structure Lockstep (M : Machine σ α) (N : Machine τ α) (R : σ → τ → Prop) : Prop where
  enabled : ∀ s t a, R s t → (M.enabled s a ↔ N.enabled t a)
  step : ∀ s t a, R s t → Both R (M.step s a) (N.step t a)

theorem Lockstep.symm {R : σ → τ → Prop} (h : M.Lockstep N R) :
    N.Lockstep M (fun t s => R s t) :=
  ⟨fun t s a hR => (h.enabled s t a hR).symm, fun t s a hR => (h.step s t a hR).symm⟩

theorem Lockstep.run {R : σ → τ → Prop} (h : M.Lockstep N R) {s s' : σ} {t : τ} {as : List α}
    (hr : M.Run s as s') (hi : R s t) : ∃ t', N.Run t as t' ∧ R s' t' := by
  induction hr generalizing t with
  | nil => exact ⟨t, .nil t, hi⟩
  | @cons s s₁ s' a as he hs _ ih =>
    have hboth := h.step s t a hi
    rw [hs] at hboth
    generalize ht : N.step t a = y at hboth
    cases hboth with
    | ok hR =>
      obtain ⟨t', hr', hR'⟩ := ih hR
      exact ⟨t', .cons ((h.enabled s t a hi).mp he) ht hr', hR'⟩

end Machine
end Muduo.Support
