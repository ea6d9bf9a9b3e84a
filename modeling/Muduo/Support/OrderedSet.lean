import Mathlib.Data.List.Perm.Lattice
import Mathlib.Data.List.Nodup
import Mathlib.Data.Prod.Lex
import Mathlib.Order.Lattice

/-! A `std::set` as its elements in order, and the order of a `std::pair`. -/
namespace Muduo.Support

structure StdPair (α β : Type) where
  first : α
  second : β
  deriving DecidableEq, Repr

namespace StdPair
variable {α β : Type} [LinearOrder α] [LinearOrder β]

instance order : LinearOrder (StdPair α β) :=
  LinearOrder.lift' (fun p => toLex (p.first, p.second)) fun p q h => by
    have hp : (p.first, p.second) = (q.first, q.second) := congrArg ofLex h
    cases p
    cases q
    simpa using hp

theorem lt_iff {p q : StdPair α β} :
    p < q ↔ p.first < q.first ∨ p.first = q.first ∧ p.second < q.second :=
  Prod.Lex.toLex_lt_toLex

theorem le_iff {p q : StdPair α β} :
    p ≤ q ↔ p.first < q.first ∨ p.first = q.first ∧ p.second ≤ q.second :=
  Prod.Lex.toLex_le_toLex

end StdPair

structure OrderedSet (α : Type) [LinearOrder α] where
  toList : List α
  sorted : toList.Pairwise fun a b => a < b

namespace OrderedSet
variable {α : Type} [LinearOrder α]

instance : Membership α (OrderedSet α) := ⟨fun s a => a ∈ s.toList⟩

instance (a : α) (s : OrderedSet α) : Decidable (a ∈ s) := inferInstanceAs (Decidable (a ∈ s.toList))

def empty : OrderedSet α := ⟨[], .nil⟩

def size (s : OrderedSet α) : Nat := s.toList.length

/-- `*begin()`, unless the set is empty. -/
def first (s : OrderedSet α) : Option α := s.toList.head?

/-- Put an element in its place, unless it is there. -/
def place (a : α) : List α → List α
  | [] => [a]
  | b :: bs => if a < b then a :: b :: bs else if a = b then b :: bs else b :: place a bs

theorem mem_place {a x : α} {bs : List α} : x ∈ place a bs ↔ x = a ∨ x ∈ bs := by
  induction bs with
  | nil => simp [place]
  | cons b bs ih =>
    unfold place
    split_ifs with hlt heq
    · simp
    · simp [heq]
    · simp [ih, or_left_comm]

theorem place_sorted {a : α} {bs : List α} (h : bs.Pairwise fun a b => a < b) :
    (place a bs).Pairwise fun a b => a < b := by
  induction bs with
  | nil => exact List.pairwise_singleton _ _
  | cons b bs ih =>
    obtain ⟨hb, hs⟩ := List.pairwise_cons.mp h
    unfold place
    split_ifs with hlt heq
    · apply List.pairwise_cons.mpr
      refine ⟨fun x hx => ?_, h⟩
      rcases List.mem_cons.mp hx with rfl | hx
      · exact hlt
      · exact hlt.trans (hb x hx)
    · exact h
    · apply List.pairwise_cons.mpr
      refine ⟨fun x hx => ?_, ih hs⟩
      rcases mem_place.mp hx with rfl | hx
      · exact lt_of_le_of_ne (not_lt.mp hlt) (Ne.symm heq)
      · exact hb x hx

/-- `insert(a)`: the set, and whether `a` is new. -/
def insert (s : OrderedSet α) (a : α) : OrderedSet α × Bool :=
  (⟨place a s.toList, place_sorted s.sorted⟩, decide (a ∉ s))

/-- `erase(a)`: the set, and how many elements were removed. -/
def erase (s : OrderedSet α) (a : α) : OrderedSet α × Nat :=
  (⟨s.toList.filter (· ≠ a), s.sorted.filter _⟩, if a ∈ s then 1 else 0)

/-- The elements in front of `lower_bound(a)`. -/
def before (s : OrderedSet α) (a : α) : List α := s.toList.filter (· < a)

/-- The elements from `lower_bound(a)` on. -/
def fromBound (s : OrderedSet α) (a : α) : OrderedSet α :=
  ⟨s.toList.filter (a ≤ ·), s.sorted.filter _⟩

variable {s : OrderedSet α} {a x : α}

@[simp] theorem mem_toList : x ∈ s.toList ↔ x ∈ s := Iff.rfl

@[simp] theorem not_mem_empty : x ∉ (empty : OrderedSet α) := List.not_mem_nil

@[simp] theorem mem_insert : x ∈ (s.insert a).1 ↔ x = a ∨ x ∈ s := mem_place

@[simp] theorem insert_new : (s.insert a).2 = true ↔ a ∉ s := decide_eq_true_iff

@[simp] theorem mem_erase : x ∈ (s.erase a).1 ↔ x ∈ s ∧ x ≠ a := by
  change x ∈ s.toList.filter (· ≠ a) ↔ _
  simp

theorem erase_count (h : a ∈ s) : (s.erase a).2 = 1 := if_pos h

@[simp] theorem mem_before : x ∈ s.before a ↔ x ∈ s ∧ x < a := by simp [before]

@[simp] theorem mem_fromBound : x ∈ s.fromBound a ↔ x ∈ s ∧ a ≤ x := by
  change x ∈ s.toList.filter (a ≤ ·) ↔ _
  simp

theorem nodup (s : OrderedSet α) : s.toList.Nodup := s.sorted.imp ne_of_lt

theorem before_sorted (s : OrderedSet α) (a : α) : (s.before a).Pairwise fun x y => x < y :=
  s.sorted.filter _

theorem first_mem (h : s.first = some a) : a ∈ s := List.mem_of_mem_head? h

theorem first_le (h : s.first = some a) (hx : x ∈ s) : a ≤ x := by
  obtain ⟨l, hsorted⟩ := s
  cases l with
  | nil => cases h
  | cons b bs =>
    cases h
    rcases List.mem_cons.mp hx with rfl | hx
    · exact le_rfl
    · exact (List.rel_of_pairwise_cons hsorted hx).le

theorem exists_first (hx : x ∈ s) : ∃ a, s.first = some a := by
  obtain ⟨l, hsorted⟩ := s
  cases l with
  | nil => exact absurd hx List.not_mem_nil
  | cons b bs => exact ⟨b, rfl⟩

/-- Two sets whose elements carry the same labels, each label once, have one size. -/
theorem size_eq {β γ : Type} [LinearOrder β] (s : OrderedSet α) (t : OrderedSet β)
    (f : α → γ) (g : β → γ) (hf : ∀ a ∈ s, ∀ b ∈ s, f a = f b → a = b)
    (hg : ∀ a ∈ t, ∀ b ∈ t, g a = g b → a = b)
    (h : ∀ c, (∃ a, a ∈ s ∧ f a = c) ↔ ∃ b, b ∈ t ∧ g b = c) : s.size = t.size := by
  have hs : (s.toList.map f).Nodup := s.nodup.map_on hf
  have ht : (t.toList.map g).Nodup := t.nodup.map_on hg
  have hp : (s.toList.map f).Perm (t.toList.map g) := by
    apply (List.perm_ext_iff_of_nodup hs ht).mpr
    intro c
    rw [List.mem_map, List.mem_map]
    exact h c
  simpa [size] using hp.length_eq

end OrderedSet
end Muduo.Support
