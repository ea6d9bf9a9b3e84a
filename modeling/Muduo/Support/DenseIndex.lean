import Mathlib.Logic.Basic

/-! A vector of slots in which each live object knows its own position, with removal by
swapping the last slot in. Nothing here depends on the modelled program. -/
namespace Muduo.Support

/-- How an object shows whether it has a slot, at which position, and which slots it can own. -/
structure SlotView (κ γ β : Type) where
  live : γ → Prop
  index : γ → Int
  owns : κ → γ → β → Prop

/-- The positions of the live objects are those of the slots, one to one. -/
structure Dense {κ γ β : Type} (v : SlotView κ γ β) (objects : κ → γ) (slots : Array β) :
    Prop where
  slot : ∀ k, v.live (objects k) →
    ∃ i b, v.index (objects k) = Int.ofNat i ∧ slots[i]? = some b ∧ v.owns k (objects k) b
  owner : ∀ i, i < slots.size → ∃ k, v.live (objects k) ∧ v.index (objects k) = Int.ofNat i
  unique : ∀ j k, v.live (objects j) → v.live (objects k) →
    v.index (objects j) = v.index (objects k) → j = k

namespace Dense
variable {κ γ β : Type} {v : SlotView κ γ β} {objects : κ → γ} {slots : Array β} {k : κ}

theorem empty (h : ∀ k, ¬ v.live (objects k)) : Dense v objects #[] where
  slot k hk := absurd hk (h k)
  owner i hi := absurd hi (by simp)
  unique j _ hj := absurd hj (h j)

theorem slot_lt (h : Dense v objects slots) (hk : v.live (objects k)) {i : Nat}
    (hi : v.index (objects k) = Int.ofNat i) : i < slots.size := by
  obtain ⟨j, b, hj, hb, _⟩ := h.slot k hk
  rw [hi] at hj
  cases hj
  exact (Array.getElem?_eq_some_iff.mp hb).1

/-- The slot at a live object's position is one that it owns. -/
theorem owns_slot (h : Dense v objects slots) (hk : v.live (objects k)) {i : Nat} {b : β}
    (hi : v.index (objects k) = Int.ofNat i) (hb : slots[i]? = some b) :
    v.owns k (objects k) b := by
  obtain ⟨j, b', hj, hb', how⟩ := h.slot k hk
  rw [hi] at hj
  cases hj
  rw [hb] at hb'
  cases hb'
  exact how

variable {objects' : κ → γ} {b : β}

/-- Objects and slots may change as long as positions stay and slots stay owned. -/
theorem congr (h : Dense v objects slots) {slots' : Array β} (hsize : slots'.size = slots.size)
    (hlive : ∀ k, v.live (objects' k) ↔ v.live (objects k))
    (hidx : ∀ k, v.index (objects' k) = v.index (objects k))
    (how : ∀ k (i : Nat) b, slots[i]? = some b → v.owns k (objects k) b →
      ∃ b', slots'[i]? = some b' ∧ v.owns k (objects' k) b') : Dense v objects' slots' where
  slot k hk := by
    obtain ⟨i, b, hi, hb, hown⟩ := h.slot k ((hlive k).mp hk)
    obtain ⟨b', hb', hown'⟩ := how k i b hb hown
    exact ⟨i, b', (hidx k).trans hi, hb', hown'⟩
  owner i hi := by
    obtain ⟨k, hk, hki⟩ := h.owner i (hsize ▸ hi)
    exact ⟨k, (hlive k).mpr hk, (hidx k).trans hki⟩
  unique j k hj hk hjk :=
    h.unique j k ((hlive j).mp hj) ((hlive k).mp hk) (by rw [← hidx j, ← hidx k, hjk])

/-- A new object takes the position behind the last. -/
theorem push (h : Dense v objects slots) (hk : ¬ v.live (objects k))
    (hrest : ∀ j, j ≠ k → objects' j = objects j) (hlive : v.live (objects' k))
    (hidx : v.index (objects' k) = Int.ofNat slots.size) (how : v.owns k (objects' k) b) :
    Dense v objects' (slots.push b) where
  slot j hj := by
    by_cases hjk : j = k
    · subst hjk
      exact ⟨_, b, hidx, by simp, how⟩
    · rw [hrest j hjk] at hj ⊢
      obtain ⟨i, b', hi, hb', how'⟩ := h.slot j hj
      have hlt := h.slot_lt hj hi
      exact ⟨i, b', hi, by rw [Array.getElem?_push, if_neg (by omega), hb'], how'⟩
  owner i hi := by
    rw [Array.size_push] at hi
    by_cases hlast : i = slots.size
    · exact ⟨k, hlive, by rw [hidx, hlast]⟩
    · obtain ⟨j, hj, hji⟩ := h.owner i (by omega)
      have hjk : j ≠ k := fun hjk => hk (hjk ▸ hj)
      exact ⟨j, by rwa [hrest j hjk], by rwa [hrest j hjk]⟩
  unique i j hi hj hij := by
    -- an older object sits below the new position
    have below : ∀ j, j ≠ k → v.live (objects' j) → v.index (objects' j) ≠ v.index (objects' k) := by
      intro j hjk hj he
      rw [hrest j hjk] at hj he
      exact absurd (h.slot_lt hj (he.trans hidx)) (Nat.lt_irrefl _)
    by_cases hik : i = k
    · subst hik
      exact Classical.byContradiction fun hne => below j (Ne.symm hne) hj hij.symm
    · by_cases hjk : j = k
      · subst hjk
        exact absurd hij (below i hik hi)
      · rw [hrest i hik] at hi hij
        rw [hrest j hjk] at hj hij
        exact h.unique i j hi hj hij

/-- An object that keeps its position takes a new slot there. -/
theorem set (h : Dense v objects slots) {i : Nat} (hk : v.live (objects k))
    (hi : v.index (objects k) = Int.ofNat i) (hrest : ∀ j, j ≠ k → objects' j = objects j)
    (hlive : v.live (objects' k)) (hidx : v.index (objects' k) = Int.ofNat i)
    (how : v.owns k (objects' k) b) : Dense v objects' (slots.setIfInBounds i b) where
  slot j hj := by
    by_cases hjk : j = k
    · subst hjk
      exact ⟨i, b, hidx, Array.getElem?_setIfInBounds_self_of_lt (h.slot_lt hk hi), how⟩
    · rw [hrest j hjk] at hj ⊢
      obtain ⟨l, b', hl, hb', how'⟩ := h.slot j hj
      refine ⟨l, b', hl, ?_, how'⟩
      rw [Array.getElem?_setIfInBounds_ne, hb']
      rintro rfl
      exact hjk (h.unique j k hj hk (hl.trans hi.symm))
  owner l hl := by
    rw [Array.size_setIfInBounds] at hl
    obtain ⟨j, hj, hjl⟩ := h.owner l hl
    by_cases hjk : j = k
    · subst hjk
      exact ⟨j, hlive, hidx.trans (hi.symm.trans hjl)⟩
    · exact ⟨j, by rwa [hrest j hjk], by rwa [hrest j hjk]⟩
  unique j l hj hl hjl := by
    have same : ∀ j, v.live (objects' j) → v.live (objects j) ∧
        v.index (objects j) = v.index (objects' j) := by
      intro j hj
      by_cases hjk : j = k
      · subst hjk
        exact ⟨hk, hi.trans hidx.symm⟩
      · rw [hrest j hjk] at hj ⊢
        exact ⟨hj, rfl⟩
    obtain ⟨hj, hjx⟩ := same j hj
    obtain ⟨hl, hlx⟩ := same l hl
    exact h.unique j l hj hl (hjx.trans (hjl.trans hlx.symm))

/-- The object of the last position goes, and its slot with it. -/
theorem pop (h : Dense v objects slots) {i : Nat} (hk : v.live (objects k))
    (hi : v.index (objects k) = Int.ofNat i) (hlast : i + 1 = slots.size)
    (hgone : ¬ v.live (objects' k)) (hrest : ∀ j, j ≠ k → objects' j = objects j) :
    Dense v objects' slots.pop where
  slot j hj := by
    have hjk : j ≠ k := fun hjk => hgone (hjk ▸ hj)
    rw [hrest j hjk] at hj ⊢
    obtain ⟨l, b, hl, hb, how⟩ := h.slot j hj
    have hli : l ≠ i := by
      rintro rfl
      exact hjk (h.unique j k hj hk (hl.trans hi.symm))
    have hlt := h.slot_lt hj hl
    exact ⟨l, b, hl, by rw [Array.getElem?_pop, if_pos (by omega), hb], how⟩
  owner l hl := by
    rw [Array.size_pop] at hl
    obtain ⟨j, hj, hjl⟩ := h.owner l (by omega)
    have hjk : j ≠ k := by
      rintro rfl
      rw [hi] at hjl
      cases hjl
      omega
    exact ⟨j, by rwa [hrest j hjk], by rwa [hrest j hjk]⟩
  unique j l hj hl hjl := by
    have hjk : j ≠ k := fun hjk => hgone (hjk ▸ hj)
    have hlk : l ≠ k := fun hlk => hgone (hlk ▸ hl)
    rw [hrest j hjk] at hj hjl
    rw [hrest l hlk] at hl hjl
    exact h.unique j l hj hl hjl

theorem getElem?_swap_pop {i n l : Nat} (hn : n + 1 = slots.size) (hin : i < n) (hl : l < n) :
    (slots.swapIfInBounds i n).pop[l]? = if l = i then slots[n]? else slots[l]? := by
  have hni : n < slots.size := by omega
  rw [Array.getElem?_pop, Array.size_swapIfInBounds, if_pos (by omega),
    Array.swapIfInBounds_def, dif_pos (by omega), dif_pos hni, Array.getElem?_swap,
    if_neg (by omega), Array.getElem?_eq_getElem hni]
  exact ite_congr (propext eq_comm) (fun _ => rfl) (fun _ => rfl)

/-- The object `k` goes; the slot behind all others takes its place, and the object `m`
that owns it is told. -/
theorem swap_pop (h : Dense v objects slots) {m : κ} {i n : Nat} (hk : v.live (objects k))
    (hi : v.index (objects k) = Int.ofNat i) (hn : n + 1 = slots.size) (hin : i < n)
    (hm : v.live (objects m)) (hmn : v.index (objects m) = Int.ofNat n)
    (hgone : ¬ v.live (objects' k)) (hlive : v.live (objects' m))
    (hidx : v.index (objects' m) = Int.ofNat i)
    (howns : ∀ b, v.owns m (objects m) b → v.owns m (objects' m) b)
    (hrest : ∀ j, j ≠ k → j ≠ m → objects' j = objects j) :
    Dense v objects' (slots.swapIfInBounds i n).pop := by
  -- any other object is neither at the place of `k` nor at that of `m`
  have other : ∀ j, j ≠ m → v.live (objects' j) → objects' j = objects j ∧ v.live (objects j) ∧
      v.index (objects j) ≠ Int.ofNat i ∧ v.index (objects j) ≠ Int.ofNat n := by
    intro j hjm hj
    have hjk : j ≠ k := fun hjk => hgone (hjk ▸ hj)
    rw [hrest j hjk hjm] at hj ⊢
    exact ⟨rfl, hj, fun he => hjk (h.unique j k hj hk (he.trans hi.symm)),
      fun he => hjm (h.unique j m hj hm (he.trans hmn.symm))⟩
  constructor
  · intro j hj
    by_cases hjm : j = m
    · subst hjm
      obtain ⟨l, b, hl, hb, how⟩ := h.slot j hm
      rw [hmn] at hl
      cases hl
      exact ⟨i, b, hidx, by rw [getElem?_swap_pop hn hin hin, if_pos rfl, hb], howns b how⟩
    · obtain ⟨hsame, hj, hji, hjn⟩ := other j hjm hj
      rw [hsame]
      obtain ⟨l, b, hl, hb, how⟩ := h.slot j hj
      rw [hl] at hji hjn
      have hlt := h.slot_lt hj hl
      have hln : l ≠ n := fun he => hjn (by rw [he])
      refine ⟨l, b, hl, ?_, how⟩
      rw [getElem?_swap_pop hn hin (by omega), if_neg (fun he => hji (by rw [he])), hb]
  · intro l hl
    rw [Array.size_pop, Array.size_swapIfInBounds] at hl
    by_cases hli : l = i
    · exact ⟨m, hlive, by rw [hidx, hli]⟩
    · obtain ⟨j, hj, hjl⟩ := h.owner l (by omega)
      have hjk : j ≠ k := by
        rintro rfl
        rw [hi] at hjl
        cases hjl
        exact hli rfl
      have hjm : j ≠ m := by
        rintro rfl
        rw [hmn] at hjl
        cases hjl
        omega
      exact ⟨j, by rwa [hrest j hjk hjm], by rwa [hrest j hjk hjm]⟩
  · intro j l hj hl hjl
    by_cases hjm : j = m
    · subst hjm
      refine Classical.byContradiction fun hne => ?_
      obtain ⟨hsame, _, hli, _⟩ := other l (Ne.symm hne) hl
      exact hli (by rw [← hsame, ← hjl, hidx])
    · obtain ⟨hsj, hj, hji, _⟩ := other j hjm hj
      by_cases hlm : l = m
      · subst hlm
        exact absurd (by rw [← hsj, hjl, hidx]) hji
      · obtain ⟨hsl, hl, _⟩ := other l hlm hl
        rw [hsj, hsl] at hjl
        exact h.unique j l hj hl hjl

end Dense
end Muduo.Support
