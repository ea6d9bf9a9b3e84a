import Mathlib.Data.List.Basic

/-! Scanners that can be cut off anywhere and resumed. A scanner looks at its
unread input and asks for more, moves on, or stops; what it has decided does not
depend on what comes after. -/
namespace Muduo.Support

/-- One look at the unread input. -/
inductive Look (σ ρ α : Type) where
  | wait
  | go (s : σ) (rest : List α)
  | stop (r : ρ) (rest : List α)

/-- Where a scan stands: out of input, or stopped with a result. -/
inductive Scan (σ ρ α : Type) where
  | waiting (s : σ) (rest : List α)
  | stopped (r : ρ) (rest : List α)

/-- A scanner: moving on consumes input, and decisions are stable under more input. -/
structure Scanner (σ ρ α : Type) where
  look : σ → List α → Look σ ρ α
  shrinks : ∀ {s t xs ys}, look s xs = .go t ys → ys.length < xs.length
  go_append : ∀ {s t xs ys} zs, look s xs = .go t ys → look s (xs ++ zs) = .go t (ys ++ zs)
  stop_append : ∀ {s r xs ys} zs, look s xs = .stop r ys → look s (xs ++ zs) = .stop r (ys ++ zs)

namespace Scanner
variable {σ ρ α : Type} (P : Scanner σ ρ α)

/-- Look until the scanner waits or stops. -/
def run (s : σ) (xs : List α) : Scan σ ρ α :=
  match h : P.look s xs with
  | .wait => .waiting s xs
  | .go t ys =>
    have := P.shrinks h
    run t ys
  | .stop r ys => .stopped r ys
termination_by xs.length

/-- More input: a waiting scan resumes, a stopped one keeps it unread. -/
def feed : Scan σ ρ α → List α → Scan σ ρ α
  | .waiting s rest, xs => P.run s (rest ++ xs)
  | .stopped r rest, xs => .stopped r (rest ++ xs)

variable {P} {s t : σ} {r : ρ} {xs ys zs : List α}

theorem run_wait (h : P.look s xs = .wait) : P.run s xs = .waiting s xs := by
  rw [run]
  split <;> simp_all

theorem run_go (h : P.look s xs = .go t ys) : P.run s xs = P.run t ys := by
  rw [run]
  split <;> simp_all

theorem run_stop (h : P.look s xs = .stop r ys) : P.run s xs = .stopped r ys := by
  rw [run]
  split <;> simp_all

/-- The induction rule of a scan: one case for each kind of look. -/
theorem run_induction {motive : σ → List α → Prop}
    (wait : ∀ s xs, P.look s xs = .wait → motive s xs)
    (go : ∀ s t xs ys, P.look s xs = .go t ys → motive t ys → motive s xs)
    (stop : ∀ s r xs ys, P.look s xs = .stop r ys → motive s xs) (s : σ) (xs : List α) :
    motive s xs := by
  induction hn : xs.length using Nat.strongRecOn generalizing s xs with
  | ind n ih =>
    cases h : P.look s xs with
    | wait => exact wait s xs h
    | go t ys => exact go s t xs ys h (ih _ (hn ▸ P.shrinks h) t ys rfl)
    | stop r ys => exact stop s r xs ys h

/-- Cutting the input changes nothing: scanning the whole is resuming the scan of the
first part with the second. -/
theorem run_append (P : Scanner σ ρ α) (s : σ) (xs zs : List α) :
    P.run s (xs ++ zs) = P.feed (P.run s xs) zs := by
  induction s, xs using run_induction (P := P) with
  | wait s xs h => rw [run_wait h, feed]
  | go s t xs ys h ih => rw [run_go h, run_go (P.go_append zs h), ih]
  | stop s r xs ys h => rw [run_stop h, run_stop (P.stop_append zs h), feed]

/-- What stops at the very end of its input was still waiting at every earlier point. -/
theorem run_prefix_waiting (h : P.run s (xs ++ zs) = .stopped r []) (hz : zs ≠ []) :
    ∃ t rest, P.run s xs = .waiting t rest := by
  rw [run_append] at h
  cases hx : P.run s xs with
  | waiting t rest => exact ⟨t, rest, rfl⟩
  | stopped r' rest =>
    rw [hx, feed, Scan.stopped.injEq] at h
    exact absurd (List.append_eq_nil_iff.mp h.2).2 hz

end Scanner
end Muduo.Support
