import Mathlib.Data.List.Nodup
import Mathlib.Logic.Function.Basic
import Muduo.Support.Machine

/-! The descriptors of a process, each with whom it belongs to, and at most `limit` of them. -/
namespace Muduo.Support

structure Descriptors (ω : Type) where
  limit : Nat
  owner : Nat → Option ω

namespace Descriptors
variable {ω : Type}

/-- The number that the next descriptor gets. -/
def lowest (d : Descriptors ω) : Option Nat :=
  (List.range d.limit).find? fun fd => (d.owner fd).isNone

def put (d : Descriptors ω) (fd : Nat) (o : ω) : Descriptors ω :=
  { d with owner := Function.update d.owner fd (some o) }

/-- `close(fd)` by `o`: a number that is not in use is refused, and no harm is done. -/
def close [DecidableEq ω] (d : Descriptors ω) (o : ω) (fd : Nat) : Except Fault (Descriptors ω) :=
  match d.owner fd with
  | none => .ok d
  | some p => if p = o then .ok { d with owner := Function.update d.owner fd none }
    else .error .memory

variable {d : Descriptors ω} {fd : Nat} {o : ω}

theorem lowest_spec (h : d.lowest = some fd) : d.owner fd = none ∧ fd < d.limit := by
  have hfree := List.find?_some h
  have hmem := List.mem_of_find?_eq_some h
  exact ⟨Option.isNone_iff_eq_none.mp hfree, List.mem_range.mp hmem⟩

theorem exists_lowest (hfree : d.owner fd = none) (hlt : fd < d.limit) :
    ∃ fd', d.lowest = some fd' := by
  refine Option.isSome_iff_exists.mp (List.find?_isSome.mpr ⟨fd, List.mem_range.mpr hlt, ?_⟩)
  exact Option.isNone_iff_eq_none.mpr hfree

/-- A close makes no room disappear. -/
theorem exists_lowest_close (hl : d.lowest = some fd) (x : Nat) :
    ∃ fd', ({ d with owner := Function.update d.owner x none } : Descriptors ω).lowest =
      some fd' := by
  obtain ⟨hfree, hlt⟩ := lowest_spec hl
  have hstill : Function.update d.owner x none fd = none := by
    by_cases hx : fd = x
    · subst hx
      exact Function.update_self ..
    · exact (Function.update_of_ne hx ..).trans hfree
  exact exists_lowest hstill hlt

theorem close_own [DecidableEq ω] (h : d.owner fd = some o) :
    d.close o fd = .ok { d with owner := Function.update d.owner fd none } := by
  rw [close, h]
  exact if_pos rfl

/-- The descriptors of `o` are the numbers `fds`, each within the limit. -/
structure Holds (d : Descriptors ω) (o : ω) (fds : List Nat) : Prop where
  owner : ∀ fd, d.owner fd = some o ↔ fd ∈ fds
  nodup : fds.Nodup
  bound : ∀ fd ∈ fds, fd < d.limit

theorem Holds.put {fds : List Nat} (h : d.Holds o fds) (hl : d.lowest = some fd) :
    (d.put fd o).Holds o (fds ++ [fd]) := by
  obtain ⟨hfree, hlt⟩ := lowest_spec hl
  have hnot : fd ∉ fds := fun hm => by
    rw [(h.owner fd).mpr hm] at hfree
    cases hfree
  refine ⟨fun x => ?_, ?_, fun x hx => ?_⟩
  · by_cases hx : x = fd
    · subst hx
      simp [Descriptors.put]
    · simp [Descriptors.put, hx, h.owner x]
  · refine List.nodup_append.mpr ⟨h.nodup, List.nodup_singleton fd, fun x hx y hy hxy => ?_⟩
    rw [List.mem_singleton.mp hy] at hxy
    exact hnot (hxy ▸ hx)
  · rcases List.mem_append.mp hx with hx | hx
    · exact h.bound x hx
    · rw [List.mem_singleton.mp hx]
      exact hlt

/-- What another opens is not among them. -/
theorem Holds.put_other {fds : List Nat} {p : ω} (h : d.Holds o fds) (hp : p ≠ o)
    (hl : d.lowest = some fd) : (d.put fd p).Holds o fds := by
  obtain ⟨hfree, _⟩ := lowest_spec hl
  refine ⟨fun x => ?_, h.nodup, h.bound⟩
  by_cases hx : x = fd
  · subst hx
    rw [← h.owner x, hfree]
    simp [Descriptors.put, hp]
  · simp [Descriptors.put, hx, h.owner x]

/-- The last of them is closed. -/
theorem Holds.close {fds : List Nat} (h : d.Holds o (fds ++ [fd])) :
    ({ d with owner := Function.update d.owner fd none } : Descriptors ω).Holds o fds := by
  have hnodup := List.nodup_append.mp h.nodup
  refine ⟨fun x => ?_, hnodup.1, fun x hx => h.bound x (List.mem_append_left _ hx)⟩
  by_cases hx : x = fd
  · subst hx
    have hnot : x ∉ fds := fun hm => hnodup.2.2 x hm x (List.mem_singleton_self x) rfl
    simp [hnot]
  · simp [hx, h.owner x]

theorem Holds.close_other {fds : List Nat} {p : ω} (h : d.Holds o fds) (hp : p ≠ o)
    (hfd : d.owner fd = some p) :
    ({ d with owner := Function.update d.owner fd none } : Descriptors ω).Holds o fds := by
  refine ⟨fun x => ?_, h.nodup, h.bound⟩
  by_cases hx : x = fd
  · subst hx
    rw [← h.owner x, hfd]
    simp [hp]
  · simp [hx, h.owner x]

end Descriptors
end Muduo.Support
