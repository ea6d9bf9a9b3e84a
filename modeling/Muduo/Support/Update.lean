import Mathlib.Logic.Function.Basic

/-! Tables that are changed at one key. Nothing here depends on the modelled program. -/
namespace Muduo.Support

variable {κ β : Type} [DecidableEq κ] {f : κ → Option β} {a b : κ} {x : Option β} {y z : β}

theorem update_some (h : Function.update f a (some y) b = some z) :
    b = a ∧ z = y ∨ b ≠ a ∧ f b = some z := by
  by_cases hb : b = a
  · subst hb
    rw [Function.update_self] at h
    cases h
    exact .inl ⟨rfl, rfl⟩
  · rw [Function.update_of_ne hb] at h
    exact .inr ⟨hb, h⟩

theorem update_none (h : Function.update f a none b = some z) : b ≠ a ∧ f b = some z := by
  have hb : b ≠ a := by
    rintro rfl
    rw [Function.update_self] at h
    cases h
  exact ⟨hb, by rwa [Function.update_of_ne hb] at h⟩

/-- A new key hides no entry. -/
theorem update_kept (ha : f a = none) (hb : f b = some z) :
    Function.update f a x b = some z := by
  have hba : b ≠ a := by
    rintro rfl
    cases ha.symm.trans hb
  rwa [Function.update_of_ne hba]

end Muduo.Support
