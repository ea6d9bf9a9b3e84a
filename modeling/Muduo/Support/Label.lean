import Mathlib.Data.List.Basic

/-! Labels: a text, a separator and a number, of which only the first characters are kept.
Nothing here depends on the modelled program. -/
namespace Muduo.Support

section
variable {α : Type} {sep : α} {k : Nat} {p q d e : List α}

/-- The text `p` and the numeral `d`, parted by `sep`. -/
def label (sep : α) (p d : List α) : List α := p ++ sep :: d

/-- What is left for the numeral when `k` characters are kept. -/
def room (k : Nat) (p : List α) : Nat := k - (p.length + 1)

theorem length_label (sep : α) (p d : List α) :
    (label sep p d).length = p.length + 1 + d.length := by
  rw [label, List.length_append, List.length_cons]
  omega

/-- The first separator parts a text in one way. -/
theorem parted_inj (hd : sep ∉ d) (he : sep ∉ e) (h : d ++ sep :: p = e ++ sep :: q) :
    d = e ∧ p = q := by
  induction d generalizing e with
  | nil =>
    cases e with
    | nil => exact ⟨rfl, (List.cons.inj h).2⟩
    | cons b e =>
      obtain ⟨hb, _⟩ := List.cons.inj h
      exact absurd (List.mem_cons.mpr (.inl hb)) he
  | cons a d ih =>
    cases e with
    | nil =>
      obtain ⟨ha, _⟩ := List.cons.inj h
      exact absurd (List.mem_cons.mpr (.inl ha.symm)) hd
    | cons b e =>
      obtain ⟨hab, htail⟩ := List.cons.inj h
      obtain ⟨hde, hpq⟩ :=
        ih (List.not_mem_of_not_mem_cons hd) (List.not_mem_of_not_mem_cons he) htail
      exact ⟨hab ▸ hde ▸ rfl, hpq⟩

/-- A numeral without the separator starts behind the last one. -/
theorem label_inj (hd : sep ∉ d) (he : sep ∉ e) :
    label sep p d = label sep q e ↔ p = q ∧ d = e := by
  have hreverse : ∀ r s : List α, (label sep r s).reverse = s.reverse ++ sep :: r.reverse := by
    intro r s
    rw [label, List.reverse_append, List.reverse_cons, List.append_assoc, List.singleton_append]
  constructor
  · intro h
    have h' : d.reverse ++ sep :: p.reverse = e.reverse ++ sep :: q.reverse := by
      rw [← hreverse, ← hreverse, h]
    obtain ⟨hde, hpq⟩ := parted_inj (fun hm => hd (List.mem_reverse.mp hm))
      (fun hm => he (List.mem_reverse.mp hm)) h'
    exact ⟨List.reverse_inj.mp hpq, List.reverse_inj.mp hde⟩
  · rintro ⟨rfl, rfl⟩
    rfl

theorem take_label_of_le (d : List α) (h : k ≤ p.length) :
    (label sep p d).take k = p.take k := by
  rw [label, List.take_append_of_le_length h]

theorem take_label_of_lt (d : List α) (h : p.length < k) :
    (label sep p d).take k = label sep p (d.take (room k p)) := by
  have hk : k = p.length + (room k p + 1) := by
    rw [room]
    omega
  conv_lhs => rw [hk]
  rw [label, List.take_length_add_append, List.take_succ_cons, label]

theorem room_of_le (h : k ≤ p.length) : room k p = 0 := by
  rw [room]
  omega

/-- What is kept of `q` reads as `p` and the start of the numeral `d`. -/
def ReadsAs (sep : α) (k : Nat) (q p d : List α) : Prop :=
  p.length < k ∧ k ≤ q.length ∧ q.take k = label sep p (d.take (room k p))

/-- The two labels start alike: the same start of the text and of the numeral, or a text that
is long enough to hold the other label. -/
def SameStart (sep : α) (k : Nat) (p d q e : List α) : Prop :=
  (p.take k = q.take k ∧ d.take (room k p) = e.take (room k q)) ∨
    ReadsAs sep k q p d ∨ ReadsAs sep k p q e

instance [DecidableEq α] (sep : α) (k : Nat) (q p d : List α) :
    Decidable (ReadsAs sep k q p d) :=
  inferInstanceAs (Decidable (_ ∧ _))

instance [DecidableEq α] (sep : α) (k : Nat) (p d q e : List α) :
    Decidable (SameStart sep k p d q e) :=
  inferInstanceAs (Decidable (_ ∨ _))

theorem sameStart_comm : SameStart sep k p d q e ↔ SameStart sep k q e p d := by
  rw [SameStart, SameStart, or_comm (a := ReadsAs sep k q p d), eq_comm (a := p.take k),
    eq_comm (a := d.take (room k p))]

/-- A short text against a long one. -/
theorem take_label_eq_of_lt_of_le (hp : p.length < k) (hq : k ≤ q.length) :
    (label sep p d).take k = (label sep q e).take k ↔ SameStart sep k p d q e := by
  have hfirst : ¬ (p.take k = q.take k ∧ d.take (room k p) = e.take (room k q)) := by
    rintro ⟨h, _⟩
    have hlength := congrArg List.length h
    rw [List.length_take, List.length_take] at hlength
    omega
  have hqp : ¬ ReadsAs sep k p q e := fun h => absurd h.1 (Nat.not_lt.mpr hq)
  rw [take_label_of_lt d hp, take_label_of_le e hq, SameStart, or_iff_right hfirst,
    or_iff_left hqp, ReadsAs, and_iff_right hp, and_iff_right hq, eq_comm]

/-- The starts of two labels agree exactly then. -/
theorem take_label_eq_iff (hd : sep ∉ d) (he : sep ∉ e) :
    (label sep p d).take k = (label sep q e).take k ↔ SameStart sep k p d q e := by
  have hd' : sep ∉ d.take (room k p) := fun h => hd (List.mem_of_mem_take h)
  have he' : sep ∉ e.take (room k q) := fun h => he (List.mem_of_mem_take h)
  rcases Nat.lt_or_ge p.length k with hp | hp <;> rcases Nat.lt_or_ge q.length k with hq | hq
  case inl.inl =>
    have hpq : ¬ ReadsAs sep k q p d := fun h => absurd h.2.1 (Nat.not_le.mpr hq)
    have hqp : ¬ ReadsAs sep k p q e := fun h => absurd h.2.1 (Nat.not_le.mpr hp)
    rw [take_label_of_lt d hp, take_label_of_lt e hq, label_inj hd' he', SameStart,
      or_iff_left (not_or_intro hpq hqp), List.take_of_length_le (Nat.le_of_lt hp),
      List.take_of_length_le (Nat.le_of_lt hq)]
  case inr.inr =>
    have hpq : ¬ ReadsAs sep k q p d := fun h => absurd h.1 (Nat.not_lt.mpr hp)
    have hqp : ¬ ReadsAs sep k p q e := fun h => absurd h.1 (Nat.not_lt.mpr hq)
    rw [take_label_of_le d hp, take_label_of_le e hq, SameStart,
      or_iff_left (not_or_intro hpq hqp), room_of_le hp, room_of_le hq, List.take_zero,
      List.take_zero, and_iff_left rfl]
  case inl.inr => exact take_label_eq_of_lt_of_le hp hq
  case inr.inl =>
    rw [eq_comm, sameStart_comm]
    exact take_label_eq_of_lt_of_le hq hp

/-- Labels that are kept whole. -/
theorem sameStart_iff_of_fit (hd : sep ∉ d) (he : sep ∉ e) (hp : (label sep p d).length ≤ k)
    (hq : (label sep q e).length ≤ k) : SameStart sep k p d q e ↔ p = q ∧ d = e := by
  rw [← take_label_eq_iff hd he, List.take_of_length_le hp, List.take_of_length_le hq,
    label_inj hd he]

end

end Muduo.Support
