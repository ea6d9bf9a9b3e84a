import Mathlib.Data.List.Basic
import Mathlib.Data.List.Infix

/-! The first occurrence of a pattern in a sequence, as `std::search` finds it. -/
namespace Muduo.Support
variable {α : Type} [DecidableEq α]

/-- Offset of the first occurrence of a nonempty pattern, `none` for `last`. -/
def search (pat : List α) : List α → Option Nat
  | [] => none
  | x :: xs => if pat <+: x :: xs then some 0 else (search pat xs).map (· + 1)

theorem search_cons_some {pat xs : List α} {x : α} {i : Nat} (h : search pat (x :: xs) = some i) :
    (pat <+: x :: xs ∧ i = 0) ∨
      (¬ pat <+: x :: xs ∧ ∃ j, search pat xs = some j ∧ i = j + 1) := by
  rw [search] at h
  split at h
  · rename_i hp
    exact .inl ⟨hp, (Option.some.inj h).symm⟩
  · rename_i hp
    obtain ⟨j, hj, hi⟩ := Option.map_eq_some_iff.mp h
    exact .inr ⟨hp, j, hj, hi.symm⟩

theorem search_cons_none {pat xs : List α} {x : α} :
    search pat (x :: xs) = none ↔ ¬ pat <+: x :: xs ∧ search pat xs = none := by
  rw [search]
  split
  · rename_i hp
    simp [hp]
  · rename_i hp
    simp [hp]

/-- The occurrence lies inside the sequence. -/
theorem search_add_le {pat xs : List α} {i : Nat} (h : search pat xs = some i) :
    i + pat.length ≤ xs.length := by
  induction xs generalizing i with
  | nil => cases h
  | cons x xs ih =>
    rcases search_cons_some h with ⟨hp, rfl⟩ | ⟨_, j, hj, rfl⟩
    · rw [Nat.zero_add]
      exact hp.length_le
    · have := ih hj
      rw [List.length_cons]
      omega

/-- More input never moves an occurrence that was already found. -/
theorem search_append {pat xs : List α} {i : Nat} (h : search pat xs = some i) (ys : List α) :
    search pat (xs ++ ys) = some i := by
  induction xs generalizing i with
  | nil => cases h
  | cons x xs ih =>
    have hle := search_add_le h
    rw [List.cons_append, search]
    rcases search_cons_some h with ⟨hp, rfl⟩ | ⟨hp, j, hj, rfl⟩
    · exact if_pos (hp.trans (List.prefix_append (x :: xs) ys))
    · have hp' : ¬ pat <+: x :: (xs ++ ys) := fun hpre =>
        hp (List.prefix_of_prefix_length_le hpre (List.prefix_append (x :: xs) ys) (by omega))
      rw [if_neg hp', ih hj]
      rfl

/-- A found pattern splits the sequence around its first occurrence. -/
theorem search_split {pat xs : List α} {i : Nat} (h : search pat xs = some i) :
    xs = xs.take i ++ pat ++ xs.drop (i + pat.length) := by
  induction xs generalizing i with
  | nil => cases h
  | cons x xs ih =>
    rcases search_cons_some h with ⟨⟨t, ht⟩, rfl⟩ | ⟨_, j, hj, rfl⟩
    · rw [← ht]
      simp
    · rw [List.take_succ_cons, Nat.add_right_comm, List.drop_succ_cons, List.cons_append,
        List.cons_append, ← ih hj]

/-- Nothing in front of the first occurrence is an occurrence. -/
theorem search_take {pat xs : List α} {i : Nat} (h : search pat xs = some i) :
    search pat (xs.take i) = none := by
  induction xs generalizing i with
  | nil => cases h
  | cons x xs ih =>
    rcases search_cons_some h with ⟨_, rfl⟩ | ⟨hp, j, hj, rfl⟩
    · rfl
    · rw [List.take_succ_cons, search_cons_none]
      exact ⟨fun hpre => hp (hpre.trans (List.take_prefix (j + 1) (x :: xs))), ih hj⟩

/-- A line: behind it the delimiter occurs at its end and not before. -/
def IsLine (pat line : List α) : Prop := search pat (line ++ pat) = some line.length

theorem IsLine.search {pat line : List α} (h : IsLine pat line) (rest : List α) :
    search pat (line ++ pat ++ rest) = some line.length := search_append h rest

/-- What stands in front of the first occurrence is a line. -/
theorem search_isLine {pat xs : List α} {i : Nat} (hp : pat ≠ []) (h : search pat xs = some i) :
    IsLine pat (xs.take i) := by
  have hlen : (xs.take i).length = i := by
    have := search_add_le h
    rw [List.length_take]
    omega
  rw [IsLine, hlen]
  clear hlen
  induction xs generalizing i with
  | nil => cases h
  | cons x xs ih =>
    rcases search_cons_some h with ⟨_, rfl⟩ | ⟨hn, j, hj, rfl⟩
    · obtain ⟨a, as, rfl⟩ := List.exists_cons_of_ne_nil hp
      simp [Support.search]
    · have hpre : x :: (xs.take j ++ pat) <+: x :: xs := by
        conv_rhs => rw [search_split hj]
        exact List.prefix_append (x :: (xs.take j ++ pat)) _
      rw [List.take_succ_cons, List.cons_append, Support.search,
        if_neg fun hq => hn (hq.trans hpre), ih hj]
      rfl

/-- Two lines in front of their delimiters are equal as soon as the sequences are. -/
theorem IsLine.unique {pat line line' rest rest' : List α} (h : IsLine pat line)
    (h' : IsLine pat line') (he : line ++ (pat ++ rest) = line' ++ (pat ++ rest')) :
    line = line' ∧ rest = rest' := by
  have hs := h.search rest
  rw [List.append_assoc, he, ← List.append_assoc, h'.search rest', Option.some.injEq] at hs
  obtain ⟨hl, hr⟩ := List.append_inj he hs.symm
  exact ⟨hl, List.append_cancel_left hr⟩

/-- A line without the first element of the delimiter. -/
theorem isLine_of_notMem {a : α} {pat line : List α} (h : a ∉ line) : IsLine (a :: pat) line := by
  rw [IsLine]
  induction line with
  | nil => simp [search]
  | cons x xs ih =>
    obtain ⟨hx, hxs⟩ := not_or.mp (List.mem_cons.not.mp h)
    have hp : ¬ a :: pat <+: x :: (xs ++ a :: pat) := fun hpre => hx (List.cons_prefix_cons.mp hpre).1
    rw [List.cons_append, search, if_neg hp, ih hxs]
    rfl

/-- What stands in front of the first delimiter and behind it. -/
def cutAt (pat xs : List α) : Option (List α × List α) :=
  (search pat xs).map fun i => (xs.take i, xs.drop (i + pat.length))

theorem cutAt_line {pat line : List α} (h : IsLine pat line) (rest : List α) :
    cutAt pat (line ++ pat ++ rest) = some (line, rest) := by
  rw [cutAt, h.search rest, Option.map_some, List.append_assoc, List.take_left,
    ← List.append_assoc, ← List.length_append, List.drop_left]

/-- A two-element delimiter behind a delimiter-free line is found at the line's end,
even when the line ends in the delimiter's first element. -/
theorem isLine_pair {a b : α} (hab : a ≠ b) {line : List α} :
    IsLine [a, b] line ↔ search [a, b] line = none := by
  constructor
  · intro h
    simpa using search_take h
  intro h
  rw [IsLine]
  induction line with
  | nil => simp [search]
  | cons x xs ih =>
    obtain ⟨hp, hn⟩ := search_cons_none.mp h
    have hp' : ¬ [a, b] <+: x :: (xs ++ [a, b]) := by
      intro hpre
      cases xs with
      | nil => simp [hab.symm] at hpre
      | cons y ys =>
        apply hp
        simpa using hpre
    rw [List.cons_append, search, if_neg hp', ih hn]
    rfl

end Muduo.Support
