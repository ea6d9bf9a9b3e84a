import Mathlib.Data.Int.CardIntervalMod

/-! Handing out the members of a list in turn. Nothing here depends on the modelled program. -/
namespace Muduo.Support

section
variable {α : Type} {ls : List α} {m n : Nat}

/-- The member of a list whose turn the `k`-th is, from 0 on. -/
def turn (ls : List α) (h : ls ≠ []) (k : Nat) : α :=
  ls.get ⟨k % ls.length, Nat.mod_lt k (List.length_pos_iff.mpr h)⟩

/-- The first `m` turns. -/
def turns (ls : List α) (h : ls ≠ []) (m : Nat) : List α := (List.range m).map (turn ls h)

theorem getElem?_mod_length (h : ls ≠ []) (k : Nat) :
    ls[k % ls.length]? = some (turn ls h k) :=
  List.getElem?_eq_getElem (Nat.mod_lt k (List.length_pos_iff.mpr h))

theorem turn_mem (h : ls ≠ []) (k : Nat) : turn ls h k ∈ ls := List.get_mem ls _

theorem turns_succ (h : ls ≠ []) (m : Nat) :
    turns ls h (m + 1) = turns ls h m ++ [turn ls h m] := by
  rw [turns, List.range_succ, List.map_append]
  rfl

theorem getElem?_turns (h : ls ≠ []) {k : Nat} (hk : k < m) :
    (turns ls h m)[k]? = ls[k % ls.length]? := by
  rw [turns, List.getElem?_map, List.getElem?_range hk, getElem?_mod_length h]
  rfl

/-- A cursor that goes back to the start at the end stands where the next turn is. -/
theorem cursor_mod (hn : 0 < n) (m : Nat) :
    (if m % n + 1 ≥ n then 0 else m % n + 1) = (m + 1) % n := by
  rw [← Nat.mod_add_mod]
  by_cases hwrap : m % n + 1 ≥ n
  · have hlast : m % n + 1 = n := Nat.le_antisymm (Nat.mod_lt m hn) hwrap
    rw [if_pos hwrap, hlast, Nat.mod_self]
  · rw [if_neg hwrap, Nat.mod_eq_of_lt (Nat.lt_of_not_ge hwrap)]

theorem turn_eq_get_iff (hnodup : ls.Nodup) (h : ls ≠ []) (i : Fin ls.length) (k : Nat) :
    turn ls h k = ls.get i ↔ k ≡ i [MOD ls.length] := by
  rw [turn, hnodup.get_inj_iff, Fin.ext_iff, Nat.ModEq, Nat.mod_eq_of_lt i.isLt]

variable [DecidableEq α]

/-- The members before the cursor have had one turn more. -/
theorem count_turns (hnodup : ls.Nodup) (h : ls ≠ []) (i : Fin ls.length) (m : Nat) :
    (turns ls h m).count (ls.get i) =
      m / ls.length + if i.val < m % ls.length then 1 else 0 := by
  have hcount : (turns ls h m).count (ls.get i) = m.count (· ≡ i [MOD ls.length]) := by
    rw [turns, List.count, List.countP_map, Nat.count]
    apply List.countP_congr
    intro k _
    rw [Function.comp_apply, beq_iff_eq, decide_eq_true_eq]
    exact turn_eq_get_iff hnodup h i k
  rw [hcount, Nat.count_modEq_card m (List.length_pos_iff.mpr h), Nat.mod_eq_of_lt i.isLt]

/-- Two members differ by at most one turn. -/
theorem turns_balanced (hnodup : ls.Nodup) (h : ls ≠ []) (m : Nat) {a b : α} (ha : a ∈ ls)
    (hb : b ∈ ls) : (turns ls h m).count a ≤ (turns ls h m).count b + 1 := by
  obtain ⟨i, rfl⟩ := List.get_of_mem ha
  obtain ⟨j, rfl⟩ := List.get_of_mem hb
  rw [count_turns hnodup, count_turns hnodup]
  split <;> split <;> omega

end

end Muduo.Support
