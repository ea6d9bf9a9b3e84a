import Muduo.Support.Machine
import Mathlib.Data.List.Basic

/-! A `std::vector` as a list, written and copied one element at a time the way
`std::copy` does, so that overlapping ranges mean what they mean in memory. -/
namespace Muduo.Support.StdVector
variable {α : Type}

def load (v : List α) (i : Nat) : Except Fault α :=
  match v[i]? with
  | some a => .ok a
  | none => .error .memory

def store (v : List α) (i : Nat) (a : α) : Except Fault (List α) :=
  if i < v.length then .ok (v.set i a) else .error .memory

/-- `resize(n)`: cut, or extend by value-initialised elements. -/
def resize [Inhabited α] (v : List α) (n : Nat) : List α :=
  v.take n ++ List.replicate (n - v.length) default

/-- `std::copy` of an outside range to position `d`. -/
def copyIn (v : List α) (d : Nat) : List α → Except Fault (List α)
  | [] => .ok v
  | a :: as => do
      let v ← store v d a
      copyIn v (d + 1) as

/-- `std::copy` of `n` elements from `first` to `d` within one vector, front first:
each element is read after the earlier ones were written. -/
def copyWithin (v : List α) (first d : Nat) : Nat → Except Fault (List α)
  | 0 => .ok v
  | n + 1 => do
      let a ← load v first
      let v ← store v d a
      copyWithin v (first + 1) (d + 1) n

/-- The elements at positions `first` up to `last`, the C++ range `[first, last)`. -/
def range (v : List α) (first last : Nat) : List α := (v.drop first).take (last - first)

@[simp] theorem range_length (v : List α) (first last : Nat) :
    (range v first last).length = min (last - first) (v.length - first) := by simp [range]

theorem range_length_of_le {v : List α} (first : Nat) {last : Nat} (h : last ≤ v.length) :
    (range v first last).length = last - first := by rw [range_length]; omega

theorem range_self (v : List α) (i : Nat) : range v i i = [] := by simp [range]

theorem range_all (v : List α) : range v 0 v.length = v := by
  rw [range, List.drop_zero, Nat.sub_zero, List.take_length]

theorem range_drop (v : List α) (first last k : Nat) :
    (range v first last).drop k = range v (first + k) last := by
  rw [range, range, List.drop_take, List.drop_drop, Nat.sub_sub]

theorem range_take (v : List α) (first last : Nat) {k : Nat} (h : k ≤ last - first) :
    (range v first last).take k = range v first (first + k) := by
  rw [range, range, List.take_take, Nat.min_eq_left h, Nat.add_sub_cancel_left]

theorem range_append (v : List α) {i j k : Nat} (hij : i ≤ j) (hjk : j ≤ k) :
    range v i j ++ range v j k = range v i k := by
  have hd : (range v i k).drop (j - i) = range v j k := by
    rw [range_drop, Nat.add_sub_cancel' hij]
  have ht : (range v i k).take (j - i) = range v i j := by
    rw [range_take v i k (by omega), Nat.add_sub_cancel' hij]
  rw [← hd, ← ht, List.take_append_drop]

theorem resize_length [Inhabited α] (v : List α) (n : Nat) : (resize v n).length = n := by
  simp only [resize, List.length_append, List.length_take, List.length_replicate]
  omega

/-- Growing a vector keeps every range inside the old size. -/
theorem range_resize [Inhabited α] (v : List α) {n first last : Nat} (hn : v.length ≤ n)
    (hl : last ≤ v.length) : range (resize v n) first last = range v first last := by
  rw [resize, List.take_of_length_le hn]
  by_cases hf : first ≤ v.length
  · rw [range, range, List.drop_append_of_le_length hf, List.take_append_of_le_length]
    rw [List.length_drop]
    omega
  · have hz : last - first = 0 := by omega
    rw [range, range, hz, List.take_zero, List.take_zero]

/-- `std::reverse` of the range `[first, last)`. -/
def reverse (v : List α) (first last : Nat) : List α :=
  v.take first ++ (range v first last).reverse ++ v.drop last

theorem copyIn_singleton (v : List α) (d : Nat) (a : α) : copyIn v d [a] = store v d a := by
  cases h : store v d a with
  | ok w => rw [copyIn, h, ok_bind, copyIn]
  | error e => rw [copyIn, h, error_bind]

theorem copyIn_append (v : List α) (d : Nat) (as bs : List α) :
    copyIn v d (as ++ bs) = copyIn v d as >>= fun w => copyIn w (d + as.length) bs := by
  induction as generalizing v d with
  | nil => rfl
  | cons a as ih =>
    rw [List.cons_append, copyIn, copyIn, bind_assoc]
    congr 1
    funext w
    rw [ih, List.length_cons, Nat.add_assoc, Nat.add_comm 1]

theorem copyIn_length {v w : List α} {d : Nat} {as : List α} (h : copyIn v d as = .ok w) :
    w.length = v.length := by
  induction as generalizing v d with
  | nil => cases h; rfl
  | cons a as ih =>
    obtain ⟨u, hu, hr⟩ := bind_ok.mp h
    unfold store at hu
    split at hu
    · cases hu
      rw [ih hr, List.length_set]
    · cases hu

/-- A copy that fits replaces exactly its destination range. -/
theorem copyIn_eq (v : List α) (d : Nat) (as : List α) (h : d + as.length ≤ v.length) :
    copyIn v d as = .ok (v.take d ++ as ++ v.drop (d + as.length)) := by
  induction as generalizing v d with
  | nil => simp [copyIn]
  | cons a as ih =>
    rw [List.length_cons] at h
    have hd : d < v.length := by omega
    rw [copyIn, store, if_pos hd, ok_bind, ih _ _ (by rw [List.length_set]; omega)]
    have ht : (v.set d a).take (d + 1) = v.take d ++ [a] := by
      rw [List.take_set, List.take_succ_eq_append_getElem hd,
        List.set_append_right _ _ (by rw [List.length_take]; omega)]
      have hz : d - (v.take d).length = 0 := by rw [List.length_take]; omega
      rw [hz, List.set_cons_zero]
    have hr : (v.set d a).drop (d + 1 + as.length) = v.drop (d + (as.length + 1)) := by
      rw [List.drop_set_of_lt (by omega)]
      congr 1
      omega
    rw [ht, hr, List.length_cons]
    simp

/-- A copy that starts outside ends in the first store. -/
theorem copyIn_outside {v : List α} {d : Nat} {as : List α} (h : v.length ≤ d) (ha : as ≠ []) :
    copyIn v d as = .error .memory := by
  cases as with
  | nil => exact absurd rfl ha
  | cons a as => rw [copyIn, store, if_neg (Nat.not_lt.mpr h), error_bind]

theorem range_copyIn {v w : List α} {d : Nat} {as : List α} (h : copyIn v d as = .ok w)
    (hd : d + as.length ≤ v.length) : range w d (d + as.length) = as := by
  rw [copyIn_eq v d as hd] at h
  cases h
  have hl : (v.take d).length = d := by rw [List.length_take]; omega
  rw [range, List.append_assoc, List.drop_append, hl, List.drop_of_length_le (by omega),
    Nat.sub_self, Nat.add_sub_cancel_left]
  simp

/-- Ranges that end before the destination are kept. -/
theorem range_copyIn_before {v w : List α} {d last : Nat} {as : List α} (first : Nat)
    (h : copyIn v d as = .ok w) (hd : d + as.length ≤ v.length) (hl : last ≤ d) :
    range w first last = range v first last := by
  rw [copyIn_eq v d as hd] at h
  cases h
  rw [range, range, List.append_assoc]
  by_cases hf : first ≤ last
  · have hlen : (v.take d).length = d := by rw [List.length_take]; omega
    rw [List.drop_append_of_le_length (by omega),
      List.take_append_of_le_length (by rw [List.length_drop]; omega), List.drop_take,
      List.take_take, Nat.min_eq_left (by omega)]
  · have hz : last - first = 0 := by omega
    rw [hz, List.take_zero, List.take_zero]

/-- Ranges that start after the destination are kept. -/
theorem range_copyIn_after {v w : List α} {d first : Nat} {as : List α} (last : Nat)
    (h : copyIn v d as = .ok w) (hd : d + as.length ≤ v.length) (hf : d + as.length ≤ first) :
    range w first last = range v first last := by
  rw [copyIn_eq v d as hd] at h
  cases h
  have hlen : (v.take d ++ as).length = d + as.length := by
    rw [List.length_append, List.length_take]
    omega
  rw [range, range, List.drop_append, hlen, List.drop_of_length_le (by omega),
    List.drop_drop, List.nil_append, Nat.add_sub_cancel' hf]

theorem reverse_append (xs as ys : List α) :
    reverse (xs ++ (as ++ ys)) xs.length (xs.length + as.length) = xs ++ (as.reverse ++ ys) := by
  rw [reverse, range, List.take_left' rfl, List.drop_left' rfl, Nat.add_sub_cancel_left,
    List.take_left' rfl, ← List.drop_drop, List.drop_left' rfl, List.drop_left' rfl,
    List.append_assoc]

/-- What was just copied is reversed where it stands. -/
theorem copyIn_reverse {v : List α} {d : Nat} {as bs : List α}
    (h : d + (as ++ bs).length ≤ v.length) :
    ∃ w, copyIn v d (as ++ bs) = .ok w ∧
      copyIn v d (as.reverse ++ bs) = .ok (reverse w d (d + as.length)) := by
  refine ⟨_, copyIn_eq v d _ h, ?_⟩
  have hlen : (as.reverse ++ bs).length = (as ++ bs).length := by simp
  have hd : d = (v.take d).length := by
    rw [List.length_take, Nat.min_eq_left (Nat.le_of_add_right_le h)]
  have hr := reverse_append (v.take d) as (bs ++ v.drop (d + (as ++ bs).length))
  rw [← hd] at hr
  rw [copyIn_eq v d _ (hlen ▸ h), hlen]
  simp only [List.append_assoc] at hr ⊢
  rw [hr]

/-- A forward copy to a lower position is a move: although the ranges may overlap,
every element is read before it is overwritten. -/
theorem copyWithin_eq (v : List α) (first d n : Nat) (hd : d ≤ first)
    (h : first + n ≤ v.length) :
    copyWithin v first d n = copyIn v d (range v first (first + n)) := by
  induction n generalizing v first d with
  | zero => rw [Nat.add_zero, range_self, copyWithin, copyIn]
  | succ n ih =>
    have hf : first < v.length := by omega
    have hr : range v first (first + (n + 1)) = v[first] :: range v (first + 1) (first + 1 + n) := by
      rw [range, range, List.drop_eq_getElem_cons hf, Nat.add_sub_cancel_left,
        Nat.add_sub_cancel_left, List.take_succ_cons]
    rw [hr, copyWithin, copyIn, load, List.getElem?_eq_getElem hf, ok_bind, store,
      if_pos (show d < v.length by omega), ok_bind, ok_bind,
      ih _ _ _ (by omega) (by rw [List.length_set]; omega)]
    congr 1
    rw [range, range, List.drop_set_of_lt (by omega)]

end Muduo.Support.StdVector
