import Muduo.Support.Scanner
import Muduo.Support.Search

/-! Scanners that take their input one delimited line at a time. -/
namespace Muduo.Support
variable {σ ρ α : Type} [DecidableEq α]

/-- What a complete line does: go on behind it, stop in front of it, or stop behind it. -/
inductive Verdict (σ ρ : Type) where
  | next (s : σ)
  | reject (r : ρ)
  | finish (r : ρ)

namespace Scanner

def lookLine (pat : List α) (onLine : σ → List α → Verdict σ ρ) (s : σ) (xs : List α) :
    Look σ ρ α :=
  match search pat xs with
  | none => .wait
  | some i =>
    match onLine s (xs.take i) with
    | .next t => .go t (xs.drop (i + pat.length))
    | .reject r => .stop r xs
    | .finish r => .stop r (xs.drop (i + pat.length))

variable {pat : List α} {onLine : σ → List α → Verdict σ ρ} {s t : σ} {r : ρ}
  {xs ys line rest : List α}

theorem lookLine_go : lookLine pat onLine s xs = .go t ys ↔ ∃ i, search pat xs = some i ∧
    onLine s (xs.take i) = .next t ∧ xs.drop (i + pat.length) = ys := by
  unfold lookLine
  cases h : search pat xs with
  | none => simp
  | some i => cases hv : onLine s (xs.take i) <;> simp [hv]

theorem lookLine_stop : lookLine pat onLine s xs = .stop r ys ↔ ∃ i, search pat xs = some i ∧
    ((onLine s (xs.take i) = .reject r ∧ xs = ys) ∨
      (onLine s (xs.take i) = .finish r ∧ xs.drop (i + pat.length) = ys)) := by
  unfold lookLine
  cases h : search pat xs with
  | none => simp
  | some i => cases hv : onLine s (xs.take i) <;> simp [hv]

private theorem found_append {i : Nat} (h : search pat xs = some i) (zs : List α) :
    search pat (xs ++ zs) = some i ∧ (xs ++ zs).take i = xs.take i ∧
      (xs ++ zs).drop (i + pat.length) = xs.drop (i + pat.length) ++ zs := by
  have hle := search_add_le h
  exact ⟨search_append h zs, List.take_append_of_le_length (by omega),
    List.drop_append_of_le_length hle⟩

/-- The scanner that decides line by line. -/
def lines (pat : List α) (hp : pat ≠ []) (onLine : σ → List α → Verdict σ ρ) :
    Scanner σ ρ α where
  look := lookLine pat onLine
  shrinks h := by
    obtain ⟨i, hi, _, rfl⟩ := lookLine_go.mp h
    have hle := search_add_le hi
    have hpos := List.length_pos_of_ne_nil hp
    rw [List.length_drop]
    omega
  go_append zs h := by
    obtain ⟨i, hi, hv, rfl⟩ := lookLine_go.mp h
    obtain ⟨hs, ht, hd⟩ := found_append hi zs
    exact lookLine_go.mpr ⟨i, hs, by rw [ht, hv], hd⟩
  stop_append zs h := by
    obtain ⟨i, hi, hv⟩ := lookLine_stop.mp h
    obtain ⟨hs, ht, hd⟩ := found_append hi zs
    refine lookLine_stop.mpr ⟨i, hs, ?_⟩
    rw [ht, hd]
    exact hv.imp (fun h => ⟨h.1, by rw [h.2]⟩) (fun h => ⟨h.1, by rw [h.2]⟩)

variable {hp : pat ≠ []}

theorem lines_wait (h : search pat xs = none) :
    (lines pat hp onLine).run s xs = .waiting s xs :=
  run_wait (by simp only [lines, lookLine, h])

omit [DecidableEq α] in
private theorem take_line (line rest : List α) : (line ++ pat ++ rest).take line.length = line := by
  rw [List.append_assoc, List.take_left]

omit [DecidableEq α] in
private theorem drop_line (line rest : List α) :
    (line ++ pat ++ rest).drop (line.length + pat.length) = rest := by
  rw [← List.length_append, List.drop_left]

theorem lines_next (hl : IsLine pat line) (h : onLine s line = .next t) :
    (lines pat hp onLine).run s (line ++ pat ++ rest) = (lines pat hp onLine).run t rest :=
  run_go (lookLine_go.mpr ⟨_, hl.search rest, by rw [take_line, h], drop_line line rest⟩)

theorem lines_reject (hl : IsLine pat line) (h : onLine s line = .reject r) :
    (lines pat hp onLine).run s (line ++ pat ++ rest) = .stopped r (line ++ pat ++ rest) :=
  run_stop (lookLine_stop.mpr ⟨_, hl.search rest, .inl ⟨by rw [take_line, h], rfl⟩⟩)

theorem lines_finish (hl : IsLine pat line) (h : onLine s line = .finish r) :
    (lines pat hp onLine).run s (line ++ pat ++ rest) = .stopped r rest :=
  run_stop (lookLine_stop.mpr ⟨_, hl.search rest, .inr ⟨by rw [take_line, h], drop_line line rest⟩⟩)

/-- An input holds a complete line or none. -/
theorem line_cases (hp : pat ≠ []) (xs : List α) :
    search pat xs = none ∨ ∃ line rest, IsLine pat line ∧ xs = line ++ pat ++ rest := by
  cases h : search pat xs with
  | none => exact .inl rfl
  | some i => exact .inr ⟨_, _, search_isLine hp h, search_split h⟩

end Scanner
end Muduo.Support
