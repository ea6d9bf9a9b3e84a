import Mathlib.Data.List.Lex
import Mathlib.Order.Lattice

/-! A `std::map` as its entries in key order, one per key. -/
namespace Muduo.Support

/-- The order of unsigned bytes, and through it the order of byte strings. -/
instance byteOrder : LinearOrder UInt8 where
  le_refl := UInt8.le_refl
  le_trans _ _ _ := UInt8.le_trans
  le_antisymm _ _ := UInt8.le_antisymm
  le_total := UInt8.le_total
  lt_iff_le_not_ge a b := by
    rw [UInt8.not_le, UInt8.le_iff_toNat_le, UInt8.lt_iff_toNat_lt]
    omega
  toDecidableLE := inferInstance

structure OrderedMap (κ β : Type) [LinearOrder κ] where
  entries : List (κ × β)
  sorted : entries.Pairwise fun a b => a.1 < b.1

namespace OrderedMap
variable {κ β : Type} [LinearOrder κ]

instance [DecidableEq β] : DecidableEq (OrderedMap κ β) := fun m m' =>
  decidable_of_iff (m.entries = m'.entries) (by cases m; cases m'; simp)

def empty : OrderedMap κ β := ⟨[], .nil⟩

/-- Put an entry in its place, over the one that has its key. -/
def place (k : κ) (v : β) : List (κ × β) → List (κ × β)
  | [] => [(k, v)]
  | e :: es => if k < e.1 then (k, v) :: e :: es
      else if k = e.1 then (k, v) :: es else e :: place k v es

theorem mem_place {k : κ} {v : β} {es : List (κ × β)} {e : κ × β} (h : e ∈ place k v es) :
    e = (k, v) ∨ e ∈ es := by
  induction es with
  | nil => exact .inl (List.mem_singleton.mp h)
  | cons d ds ih =>
    rw [place] at h
    split at h
    · exact List.mem_cons.mp h
    · split at h
      · exact (List.mem_cons.mp h).imp_right (List.mem_cons_of_mem _)
      · rcases List.mem_cons.mp h with rfl | h
        · exact .inr List.mem_cons_self
        · exact (ih h).imp_right (List.mem_cons_of_mem _)

theorem place_sorted {k : κ} {v : β} {es : List (κ × β)}
    (h : es.Pairwise fun a b => a.1 < b.1) : (place k v es).Pairwise fun a b => a.1 < b.1 := by
  induction es with
  | nil => exact List.pairwise_singleton _ _
  | cons d ds ih =>
    obtain ⟨hd, hs⟩ := List.pairwise_cons.mp h
    rw [place]
    split
    · next hlt =>
      refine List.pairwise_cons.mpr ⟨fun e he => ?_, h⟩
      rcases List.mem_cons.mp he with rfl | he
      · exact hlt
      · exact hlt.trans (hd e he)
    · next hle =>
      split
      · next heq => exact List.pairwise_cons.mpr ⟨fun e he => heq ▸ hd e he, hs⟩
      · next hne =>
        refine List.pairwise_cons.mpr ⟨fun e he => ?_, ih hs⟩
        rcases mem_place he with rfl | he
        · exact lt_of_le_of_ne (not_lt.mp hle) (Ne.symm hne)
        · exact hd e he

/-- `m[k] = v`. -/
def insert (m : OrderedMap κ β) (k : κ) (v : β) : OrderedMap κ β :=
  ⟨place k v m.entries, place_sorted m.sorted⟩

/-- `m.erase(k)`; the returned count is that of the key before. -/
def erase (m : OrderedMap κ β) (k : κ) : OrderedMap κ β :=
  ⟨m.entries.filter fun e => e.1 ≠ k, m.sorted.filter _⟩

def find (m : OrderedMap κ β) (k : κ) : Option β :=
  (m.entries.find? fun e => e.1 = k).map Prod.snd

/-- The values, in the order of their keys. -/
def values (m : OrderedMap κ β) : List β := m.entries.map Prod.snd

@[simp] theorem find_empty (k : κ) : (empty : OrderedMap κ β).find k = none := rfl

theorem find_eq_some_iff {m : OrderedMap κ β} {k : κ} {v : β} :
    m.find k = some v ↔ (k, v) ∈ m.entries := by
  obtain ⟨es, hs⟩ := m
  simp only [find]
  induction es with
  | nil => simp
  | cons e es ih =>
    obtain ⟨he, hs⟩ := List.pairwise_cons.mp hs
    by_cases hk : e.1 = k
    · subst hk
      rw [List.find?_cons_of_pos (by simp), List.mem_cons]
      constructor
      · intro h
        cases h
        exact .inl rfl
      · rintro (h | hm)
        · rw [← h]
          rfl
        · exact absurd (he _ hm) (lt_irrefl _)
    · rw [List.find?_cons_of_neg (by simpa using hk), ih hs, List.mem_cons]
      constructor
      · exact .inr
      · rintro (rfl | hm)
        · exact absurd rfl hk
        · exact hm

theorem mem_values {m : OrderedMap κ β} {v : β} : v ∈ m.values ↔ ∃ k, m.find k = some v := by
  simp only [values, find_eq_some_iff, List.mem_map, Prod.exists, exists_eq_right]

/-- Values that tell their keys do not repeat. -/
theorem values_nodup {m : OrderedMap κ β}
    (h : ∀ k k' v, m.find k = some v → m.find k' = some v → k = k') : m.values.Nodup := by
  apply List.pairwise_map.mpr
  apply m.sorted.imp_of_mem
  rintro ⟨k, v⟩ ⟨k', v'⟩ hk hk' hlt heq
  dsimp only at hlt heq
  subst heq
  exact hlt.ne (h k k' v (find_eq_some_iff.mpr hk) (find_eq_some_iff.mpr hk'))

private theorem find_place (k k' : κ) (v : β) (es : List (κ × β)) :
    ((place k v es).find? fun e => e.1 = k').map Prod.snd =
      if k' = k then some v else (es.find? fun e => e.1 = k').map Prod.snd := by
  induction es with
  | nil => by_cases h : k = k' <;> simp [place, h, eq_comm]
  | cons d ds ih =>
    rw [place]
    by_cases hk : k' = k
    · subst hk
      rw [if_pos rfl] at ih ⊢
      split_ifs with h₁ h₂
      · simp
      · simp
      · rw [List.find?_cons_of_neg (by simpa using Ne.symm h₂), ih]
    · have hn : ¬ k = k' := Ne.symm hk
      split_ifs with h₁ h₂
      · simp [hn]
      · simp [hn, ← h₂]
      · by_cases hd : d.1 = k' <;> simp_all

/-- Assigning to one key changes what is found there and nowhere else. -/
theorem find_insert (m : OrderedMap κ β) (k k' : κ) (v : β) :
    (m.insert k v).find k' = if k' = k then some v else m.find k' :=
  find_place k k' v m.entries

theorem place_last {k : κ} {v : β} {es : List (κ × β)} (h : ∀ e ∈ es, e.1 < k) :
    place k v es = es ++ [(k, v)] := by
  induction es with
  | nil => rfl
  | cons e es ih =>
    obtain ⟨he, hes⟩ := List.forall_mem_cons.mp h
    rw [place, if_neg he.asymm, if_neg (ne_of_gt he), ih hes]
    rfl

/-- The map that assigning the entries in turn makes. -/
def ofList (es : List (κ × β)) : OrderedMap κ β := es.foldl (fun m e => m.insert e.1 e.2) empty

theorem ofList_entries (m : OrderedMap κ β) : ofList m.entries = m := by
  have hprefix : ∀ (es : List (κ × β)) (m' : OrderedMap κ β),
      (m'.entries ++ es).Pairwise (fun a b => a.1 < b.1) →
      (es.foldl (fun m e => m.insert e.1 e.2) m').entries = m'.entries ++ es := by
    intro es
    induction es with
    | nil =>
      intro m' _
      exact (List.append_nil _).symm
    | cons e es ih =>
      intro m' hs
      have hlast : (m'.insert e.1 e.2).entries = m'.entries ++ [e] :=
        place_last fun d hd => (List.pairwise_append.mp hs).2.2 d hd e List.mem_cons_self
      rw [List.foldl_cons, ih, hlast, List.append_assoc]
      · rfl
      · rw [hlast, List.append_assoc]
        exact hs
  obtain ⟨es, hs⟩ := m
  have hall := hprefix es empty hs
  simp only [ofList]
  cases hm : es.foldl (fun m e => m.insert e.1 e.2) (empty : OrderedMap κ β) with
  | mk es' hs' =>
    rw [hm] at hall
    cases hall
    rfl

/-- Erasing a key changes what is found there and nowhere else. -/
theorem find_erase (m : OrderedMap κ β) (k k' : κ) :
    (m.erase k).find k' = if k' = k then none else m.find k' := by
  simp only [find, erase]
  induction m.entries with
  | nil => simp
  | cons e es ih =>
    by_cases he : e.1 = k
    · rw [List.filter_cons_of_neg (by simp [he]), ih]
      by_cases hk : k' = k
      · rw [if_pos hk, if_pos hk]
      · rw [if_neg hk, if_neg hk, List.find?_cons_of_neg (by simp [he, Ne.symm hk])]
    · rw [List.filter_cons_of_pos (by simp [he])]
      by_cases hk : e.1 = k'
      · rw [List.find?_cons_of_pos (by simp [hk]), List.find?_cons_of_pos (by simp [hk]),
          if_neg (hk ▸ he)]
      · rw [List.find?_cons_of_neg (by simp [hk]), List.find?_cons_of_neg (by simp [hk]), ih]

end OrderedMap
end Muduo.Support
