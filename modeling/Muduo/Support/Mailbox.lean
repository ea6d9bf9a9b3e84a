import Mathlib.Logic.Function.Basic
import Mathlib.Data.List.Count

/-! Queues that carry tokens between parties. Nothing here depends on the modelled
program. -/
namespace Muduo.Support

/-- One first-in first-out queue for each party. -/
abbrev Mailbox (ι α : Type) := ι → List α

namespace Mailbox
variable {ι α τ : Type}

/-- How many messages of queue `i` carry the token `t`. -/
def carried [DecidableEq τ] (token : α → Option τ) (q : Mailbox ι α) (i : ι) (t : τ) : Nat :=
  ((q i).filterMap token).count t

theorem carried_eq_zero [DecidableEq τ] {token : α → Option τ} {q : Mailbox ι α} {i : ι} {t : τ}
    (h : ∀ a ∈ q i, token a ≠ some t) : carried token q i t = 0 := by
  apply List.count_eq_zero.mpr
  intro hm
  obtain ⟨a, ha, ht⟩ := List.mem_filterMap.mp hm
  exact h a ha ht

variable [DecidableEq ι]

def post (q : Mailbox ι α) (i : ι) (as : List α) : Mailbox ι α :=
  Function.update q i (q i ++ as)

/-- The queues behind the front of queue `i`. -/
def take (q : Mailbox ι α) (i : ι) : Mailbox ι α := Function.update q i (q i).tail

variable {q : Mailbox ι α} {i j : ι} {a b : α} {as : List α}

@[simp] theorem post_nil : q.post i [] = q := by simp [post]

theorem mem_post : b ∈ q.post i as j ↔ b ∈ q j ∨ j = i ∧ b ∈ as := by
  by_cases hj : j = i
  · subst hj
    simp [post]
  · simp [post, hj]

theorem mem_of_take (h : b ∈ q.take i j) : b ∈ q j := by
  by_cases hj : j = i
  · subst hj
    simp only [take, Function.update_self] at h
    exact List.mem_of_mem_tail h
  · simpa only [take, Function.update_of_ne hj] using h

variable [DecidableEq τ] {token : α → Option τ} {t : τ}

theorem carried_post : carried token (q.post i [a]) j t =
    carried token q j t + if j = i ∧ token a = some t then 1 else 0 := by
  by_cases hj : j = i
  · subst hj
    cases ha : token a with
    | none => simp [carried, post, ha]
    | some u => by_cases hu : u = t <;> simp [carried, post, ha, hu]
  · simp [carried, post, hj]

/-- Messages that carry no token. -/
theorem carried_post_none (h : ∀ a ∈ as, token a = none) :
    carried token (q.post i as) j t = carried token q j t := by
  have hn : as.filterMap token = [] := List.filterMap_eq_nil_iff.mpr h
  by_cases hj : j = i
  · subst hj
    simp [carried, post, hn]
  · simp [carried, post, hj]

theorem carried_take (h : q i = a :: as) : carried token q j t =
    carried token (q.take i) j t + if j = i ∧ token a = some t then 1 else 0 := by
  by_cases hj : j = i
  · subst hj
    cases ha : token a with
    | none => simp [carried, take, h, ha]
    | some u => by_cases hu : u = t <;> simp [carried, take, h, ha, hu]
  · simp [carried, take, hj]

end Mailbox

/-- In the queue no `b` waits behind an `a`. -/
def NoneBehind {α : Type} (a b : α) (q : List α) : Prop := ¬ [a, b].Sublist q

namespace NoneBehind
variable {α : Type} {a b c : α} {q : List α}

theorem of_not_mem (h : a ∉ q) : NoneBehind a b q := fun hs => h (hs.subset List.mem_cons_self)

theorem tail (h : NoneBehind a b (c :: q)) : NoneBehind a b q := fun hs => h (hs.cons c)

theorem not_mem_of_head (h : NoneBehind a b (a :: q)) : b ∉ q :=
  fun hb => h ((List.singleton_sublist.mpr hb).cons_cons a)

private theorem push_cases (hs : [a, b].Sublist (q ++ [c])) : [a, b].Sublist q ∨ a ∈ q ∧ b = c := by
  obtain ⟨l, r, hl, hlq, hr⟩ := List.sublist_append_iff.mp hs
  match l, hl with
  | [], hl =>
    rw [List.nil_append] at hl
    exact absurd (hl ▸ hr).length_le (by simp)
  | [x], hl =>
    obtain ⟨rfl, rfl⟩ := List.cons.inj hl
    exact .inr ⟨List.singleton_sublist.mp hlq, by simpa using hr⟩
  | [x, y], hl =>
    simp only [List.cons_append, List.cons.injEq, List.nil_append] at hl
    obtain ⟨rfl, rfl, rfl⟩ := hl
    exact .inl hlq

theorem push (h : NoneBehind a b q) (hc : a ∈ q → b ≠ c) : NoneBehind a b (q ++ [c]) := by
  intro hs
  rcases push_cases hs with hs | ⟨ha, hb⟩
  · exact h hs
  · exact hc ha hb

end NoneBehind
end Muduo.Support
