import Mathlib.Logic.Basic

/-! Calls that may fault, and runs of a machine whose steps carry a precondition.
Nothing here depends on the modelled program. -/
namespace Muduo.Support

/-- Why a call does not return: a failed `assert`, an access outside an object,
a loop that spins for ever, or the exception of a container asked to be too long. -/
inductive Fault where
  | assertion | memory | spin | lengthError
  deriving DecidableEq, Repr

def assert (p : Prop) [Decidable p] : Except Fault Unit :=
  if p then .ok () else .error .assertion

@[simp] theorem assert_true {p : Prop} [Decidable p] (h : p) : assert p = .ok () := if_pos h

@[simp] theorem ok_bind {α β : Type} (a : α) (f : α → Except Fault β) :
    ((Except.ok a : Except Fault α) >>= f) = f a := rfl

@[simp] theorem error_bind {α β : Type} (e : Fault) (f : α → Except Fault β) :
    ((Except.error e : Except Fault α) >>= f) = .error e := rfl

theorem bind_ok {α β : Type} {x : Except Fault α} {f : α → Except Fault β} {r : β} :
    (x >>= f) = .ok r ↔ ∃ a, x = .ok a ∧ f a = .ok r := by
  cases x with
  | ok a => simp
  | error e => simp

theorem assert_bind_ok {β : Type} {p : Prop} [Decidable p] {f : Unit → Except Fault β} {r : β} :
    (assert p >>= f) = .ok r ↔ p ∧ f () = .ok r := by
  by_cases h : p <;> simp [assert, h]

theorem assert_bind_true {β : Type} {p : Prop} [Decidable p] (h : p)
    (f : Unit → Except Fault β) : (assert p >>= f) = f () := by rw [assert_true h, ok_bind]

theorem assert_bind_false {β : Type} {p : Prop} [Decidable p] (h : ¬ p)
    (f : Unit → Except Fault β) : (assert p >>= f) = .error .assertion := by
  rw [assert, if_neg h, error_bind]

/-- A call that can fail in no other way than by an assertion, and else ends in `R`. -/
def Asserted {β : Type} (x : Except Fault β) (R : β → Prop) : Prop :=
  x = .error .assertion ∨ ∃ r, x = .ok r ∧ R r

theorem Asserted.intro {β : Type} {R : β → Prop} {r : β} (h : R r) : Asserted (.ok r) R :=
  .inr ⟨r, rfl, h⟩

theorem Asserted.assert_bind {β : Type} {R : β → Prop} {p : Prop} [Decidable p]
    {f : Unit → Except Fault β} (h : p → Asserted (f ()) R) : Asserted (assert p >>= f) R := by
  by_cases hp : p
  · rw [assert_true hp]
    exact h hp
  · exact .inl (by rw [assert, if_neg hp]; rfl)

/-- A machine: the precondition of a step and its effect, which may fault. -/
structure Machine (σ α : Type) where
  enabled : σ → α → Prop
  step : σ → α → Except Fault σ

namespace Machine
variable {σ α : Type} {M : Machine σ α}

/-- `M.Run s as t`: the steps `as`, each within its precondition, lead from `s` to `t`. -/
inductive Run (M : Machine σ α) : σ → List α → σ → Prop where
  | nil (s : σ) : Run M s [] s
  | cons {s t u : σ} {a : α} {as : List α} (he : M.enabled s a) (hs : M.step s a = .ok t)
      (hr : Run M t as u) : Run M s (a :: as) u

theorem Run.singleton {s t : σ} {a : α} (he : M.enabled s a) (hs : M.step s a = .ok t) :
    Run M s [a] t := .cons he hs (.nil t)

theorem run_append {s t : σ} {as bs : List α} :
    M.Run s (as ++ bs) t ↔ ∃ u, M.Run s as u ∧ M.Run u bs t := by
  induction as generalizing s with
  | nil =>
    constructor
    · exact fun h => ⟨s, .nil s, h⟩
    · rintro ⟨u, h, hr⟩
      cases h
      exact hr
  | cons a as ih =>
    constructor
    · intro h
      cases h with
      | cons he hs hr =>
        obtain ⟨u, hr₁, hr₂⟩ := ih.mp hr
        exact ⟨u, .cons he hs hr₁, hr₂⟩
    · rintro ⟨u, h, hr₂⟩
      cases h with
      | cons he hs hr => exact .cons he hs (ih.mpr ⟨u, hr, hr₂⟩)

/-- Runs by evaluation, for machines whose preconditions are decidable. -/
def exec (M : Machine σ α) [∀ s a, Decidable (M.enabled s a)] (s : σ) : List α → Except Fault σ
  | [] => .ok s
  | a :: as => do
      assert (M.enabled s a)
      let t ← M.step s a
      exec M t as

theorem run_of_exec [∀ s a, Decidable (M.enabled s a)] {s t : σ} {as : List α}
    (h : M.exec s as = .ok t) : M.Run s as t := by
  induction as generalizing s with
  | nil => cases h; exact .nil _
  | cons a as ih =>
    obtain ⟨he, h⟩ := assert_bind_ok.mp h
    obtain ⟨u, hs, hr⟩ := bind_ok.mp h
    exact .cons he hs (ih hr)

theorem exists_run (M : Machine σ α) [∀ s a, Decidable (M.enabled s a)] {β : Type} (s : σ)
    (as : List α) (f : σ → β) (b : β) (h : (M.exec s as).map f = .ok b) :
    ∃ t, M.Run s as t ∧ f t = b := by
  cases ht : M.exec s as with
  | ok t =>
    rw [ht] at h
    exact ⟨t, run_of_exec ht, Except.ok.inj h⟩
  | error e =>
    rw [ht] at h
    cases h

/-- The invariant rule: what every step keeps, every run keeps. -/
theorem Run.invariant {I : σ → Prop}
    (keep : ∀ s a t, I s → M.enabled s a → M.step s a = .ok t → I t)
    {s t : σ} {as : List α} (h : Run M s as t) (hi : I s) : I t := by
  induction h with
  | nil => exact hi
  | cons he hs _ ih => exact ih (keep _ _ _ hi he hs)

/-- `P` holds in every state that the run labelled `as` passes through. -/
def Throughout (M : Machine σ α) (s : σ) (as : List α) (P : σ → Prop) : Prop :=
  ∀ pre suf t, as = pre ++ suf → M.Run s pre t → P t

/-- `K` holds of every step of the run labelled `as`, in the state it is taken from. -/
def EveryStep (M : Machine σ α) (s : σ) (as : List α) (K : σ → α → Prop) : Prop :=
  ∀ pre a suf t, as = pre ++ a :: suf → M.Run s pre t → K t a

theorem throughout_cons {s t : σ} {a : α} {as : List α} {P : σ → Prop} (he : M.enabled s a)
    (hs : M.step s a = .ok t) :
    M.Throughout s (a :: as) P ↔ P s ∧ M.Throughout t as P := by
  constructor
  · intro h
    refine ⟨h [] (a :: as) s rfl (.nil s), fun pre suf u he' hr => ?_⟩
    exact h (a :: pre) suf u (by rw [he', List.cons_append]) (.cons he hs hr)
  · rintro ⟨h₀, h⟩ pre suf u he' hr
    cases hr with
    | nil => exact h₀
    | cons _ hs' hr =>
      rw [List.cons_append] at he'
      obtain ⟨rfl, rfl⟩ := List.cons.inj he'
      rw [hs] at hs'
      cases hs'
      exact h _ suf u rfl hr

theorem everyStep_cons {s t : σ} {a : α} {as : List α} {K : σ → α → Prop} (he : M.enabled s a)
    (hs : M.step s a = .ok t) :
    M.EveryStep s (a :: as) K ↔ K s a ∧ M.EveryStep t as K := by
  constructor
  · intro h
    refine ⟨h [] a as s rfl (.nil s), fun pre b suf u he' hr => ?_⟩
    exact h (a :: pre) b suf u (by rw [he', List.cons_append]) (.cons he hs hr)
  · rintro ⟨h₀, h⟩ pre b suf u he' hr
    cases hr with
    | nil =>
      obtain ⟨rfl, _⟩ := List.cons.inj he'
      exact h₀
    | cons _ hs' hr =>
      rw [List.cons_append] at he'
      obtain ⟨rfl, rfl⟩ := List.cons.inj he'
      rw [hs] at hs'
      cases hs'
      exact h _ b suf u rfl hr

theorem EveryStep.cons {s t : σ} {a : α} {as : List α} {K : σ → α → Prop} (he : M.enabled s a)
    (hs : M.step s a = .ok t) (ha : K s a) (h : M.EveryStep t as K) :
    M.EveryStep s (a :: as) K := (everyStep_cons he hs).mpr ⟨ha, h⟩

theorem EveryStep.left {s : σ} {as bs : List α} {K : σ → α → Prop}
    (h : M.EveryStep s (as ++ bs) K) : M.EveryStep s as K := by
  rintro pre a suf t rfl hr
  exact h pre a (suf ++ bs) t (by rw [List.append_assoc, List.cons_append]) hr

theorem everyStep_of_forall {s : σ} {as : List α} {K : σ → α → Prop}
    (h : ∀ a ∈ as, ∀ s, K s a) : M.EveryStep s as K := by
  rintro pre a suf t rfl _
  exact h a (List.mem_append_right _ List.mem_cons_self) t

/-- The invariant rule for runs whose steps all meet `K`. -/
theorem Run.invariant_of_everyStep {I : σ → Prop} {K : σ → α → Prop}
    (keep : ∀ s a t, I s → M.enabled s a → K s a → M.step s a = .ok t → I t)
    {s t : σ} {as : List α} (h : Run M s as t) (hk : M.EveryStep s as K) (hi : I s) : I t := by
  induction h with
  | nil => exact hi
  | cons he hs _ ih =>
    obtain ⟨ha, has⟩ := (everyStep_cons he hs).mp hk
    exact ih has (keep _ _ _ hi he ha hs)

/-- A step that does not meet `K` leads to a state with `I`, in which the run stays. -/
theorem Run.invariant_of_not_everyStep {J I : σ → Prop} {K : σ → α → Prop}
    (reach : ∀ s a t, J s → M.enabled s a → M.step s a = .ok t → J t)
    (enter : ∀ s a t, J s → M.enabled s a → ¬ K s a → M.step s a = .ok t → I t)
    (keep : ∀ s a t, J s → I s → M.enabled s a → M.step s a = .ok t → I t)
    {s t : σ} {as : List α} (h : Run M s as t) (hj : J s) (hk : ¬ M.EveryStep s as K) : I t := by
  induction h with
  | nil s =>
    exact absurd (fun pre a suf _ he _ => by cases pre <;> cases he) hk
  | @cons s t u a as he hs hr ih =>
    by_cases ha : K s a
    · exact ih (reach _ _ _ hj he hs) fun has => hk ((everyStep_cons he hs).mpr ⟨ha, has⟩)
    · have both : J u ∧ I u := by
        apply hr.invariant (I := fun s => J s ∧ I s)
        · intro s a t hi he hs
          exact ⟨reach s a t hi.1 he hs, keep s a t hi.1 hi.2 he hs⟩
        · exact ⟨reach _ _ _ hj he hs, enter _ _ _ hj he ha hs⟩
      exact both.2

/-- Where a step raises `D` exactly when it does not meet `K`, and no step lowers it, a run
ends with `D` exactly when it began so or some step did not meet `K`. -/
theorem Run.raised_iff {I D : σ → Prop} {K : σ → α → Prop}
    (keep : ∀ s a t, I s → M.enabled s a → M.step s a = .ok t → I t ∧ (D t ↔ D s ∨ ¬ K s a))
    {s t : σ} {as : List α} (h : Run M s as t) (hi : I s) :
    I t ∧ (D t ↔ D s ∨ ¬ M.EveryStep s as K) := by
  induction h with
  | nil s =>
    have hk : M.EveryStep s [] K := fun pre a suf _ he _ => by cases pre <;> cases he
    exact ⟨hi, (or_iff_left fun hn => hn hk).symm⟩
  | cons he hs _ ih =>
    obtain ⟨hi', hd⟩ := keep _ _ _ hi he hs
    obtain ⟨hi'', hd'⟩ := ih hi'
    refine ⟨hi'', ?_⟩
    rw [hd', hd, everyStep_cons he hs, not_and_or, or_assoc]

/-- Where one step from a good state is good exactly under `K`, a run stays good
exactly when all its steps meet `K`. -/
theorem Run.throughout_iff {I P : σ → Prop} {K : σ → α → Prop}
    (keep : ∀ s a t, I s → P s → M.enabled s a → M.step s a = .ok t → I t ∧ (P t ↔ K s a))
    {s t : σ} {as : List α} (h : Run M s as t) (hi : I s) (hp : P s) :
    M.Throughout s as P ↔ M.EveryStep s as K := by
  induction h with
  | nil s =>
    constructor
    · intro _ pre a suf u he
      cases pre <;> cases he
    · intro _ pre suf u he hr
      obtain ⟨rfl, rfl⟩ := List.append_eq_nil_iff.mp he.symm
      cases hr
      exact hp
  | @cons s t u a as he hs hr ih =>
    obtain ⟨hi', hpk⟩ := keep s a t hi hp he hs
    rw [throughout_cons he hs, everyStep_cons he hs]
    constructor
    · rintro ⟨_, h⟩
      have ht : P t := h [] as t rfl (.nil t)
      exact ⟨hpk.mp ht, (ih hi' ht).mp h⟩
    · rintro ⟨hk, h⟩
      exact ⟨hp, (ih hi' (hpk.mpr hk)).mpr h⟩

/-- Once `D` holds in a state of the run labelled `as`, `R` relates that state to every
state from there on. -/
def Since (M : Machine σ α) (s : σ) (as : List α) (D : σ → Prop) (R : σ → σ → Prop) : Prop :=
  ∀ pre mid suf t u, as = pre ++ (mid ++ suf) → M.Run s pre t → M.Run t mid u → D t → R t u

theorem since_cons {s t : σ} {a : α} {as : List α} {D : σ → Prop} {R : σ → σ → Prop}
    (he : M.enabled s a) (hs : M.step s a = .ok t) :
    M.Since s (a :: as) D R ↔
      M.Throughout s (a :: as) (fun u => D s → R s u) ∧ M.Since t as D R := by
  constructor
  · intro h
    refine ⟨fun mid suf u he' hr hd => h [] mid suf s u he' (.nil s) hr hd, ?_⟩
    intro pre mid suf u v he' hr hr' hd
    exact h (a :: pre) mid suf u v (by rw [he', List.cons_append]) (.cons he hs hr) hr' hd
  · rintro ⟨h₀, h⟩ pre mid suf u v he' hr hr' hd
    cases hr with
    | nil => exact h₀ mid suf v he' hr' hd
    | cons _ hs' hr =>
      rw [List.cons_append] at he'
      obtain ⟨rfl, rfl⟩ := List.cons.inj he'
      rw [hs] at hs'
      cases hs'
      exact h _ mid suf u v rfl hr hr' hd

/-- Where a state stays in `D`, and one step is as `R` wants it exactly under `K`, so is
a whole run. -/
theorem Run.since_iff {I D : σ → Prop} {R : σ → σ → Prop} {K : σ → α → Prop}
    (trans : ∀ s t u, R s t → R t u → R s u)
    (keep : ∀ s a t, I s → (D s → R s s) → M.enabled s a → M.step s a = .ok t →
      I t ∧ (D s → D t) ∧ ((D s → R s t) ∧ (D t → R t t) ↔ K s a))
    {s t : σ} {as : List α} (h : Run M s as t) (hi : I s) (hr : D s → R s s) :
    M.Since s as D R ↔ M.EveryStep s as K := by
  induction h with
  | nil s =>
    constructor
    · intro _ pre a suf u he
      cases pre <;> cases he
    · intro _ pre mid suf u v he hu hv hd
      obtain ⟨rfl, hrest⟩ := List.append_eq_nil_iff.mp he.symm
      obtain ⟨rfl, rfl⟩ := List.append_eq_nil_iff.mp hrest
      cases hu
      cases hv
      exact hr hd
  | @cons s u t a as he hs _ ih =>
    obtain ⟨hi', hstay, hk⟩ := keep s a u hi hr he hs
    rw [since_cons he hs, everyStep_cons he hs]
    constructor
    · rintro ⟨hfrom, hsince⟩
      have hru : D u → R u u := hsince [] [] as u u rfl (.nil u) (.nil u)
      refine ⟨hk.mp ⟨hfrom [a] as u rfl (.cons he hs (.nil u)), hru⟩, (ih hi' hru).mp hsince⟩
    · rintro ⟨hka, hkas⟩
      obtain ⟨hsu, hru⟩ := hk.mpr hka
      have hsince := (ih hi' hru).mpr hkas
      refine ⟨?_, hsince⟩
      refine (throughout_cons (P := fun v => D s → R s v) he hs).mpr
        ⟨hr, fun mid suf v he' hv hd => ?_⟩
      exact trans s u v (hsu hd) (hsince [] mid suf u v he' (.nil u) hv (hstay hd))

/-- The machine that takes only the steps that meet `K`. -/
def restrict (M : Machine σ α) (K : σ → α → Prop) : Machine σ α :=
  ⟨fun s a => M.enabled s a ∧ K s a, M.step⟩

instance restrictDecidable {K : σ → α → Prop} [∀ s a, Decidable (M.enabled s a)]
    [∀ s a, Decidable (K s a)] (s : σ) (a : α) : Decidable ((M.restrict K).enabled s a) :=
  inferInstanceAs (Decidable (M.enabled s a ∧ K s a))

theorem run_restrict {K : σ → α → Prop} {s t : σ} {as : List α} :
    (M.restrict K).Run s as t ↔ M.Run s as t ∧ M.EveryStep s as K := by
  constructor
  · intro h
    induction h with
    | nil s => exact ⟨.nil s, fun pre a suf _ he _ => by cases pre <;> cases he⟩
    | cons he hs _ ih => exact ⟨.cons he.1 hs ih.1, (everyStep_cons he.1 hs).mpr ⟨he.2, ih.2⟩⟩
  · rintro ⟨h, hk⟩
    induction h with
    | nil s => exact .nil s
    | cons he hs _ ih =>
      obtain ⟨ha, has⟩ := (everyStep_cons he hs).mp hk
      exact .cons ⟨he, ha⟩ hs (ih has)

/-- Where the steps of `M` that meet `K` are, through `proj`, steps of `N` or no steps at all,
so are runs. -/
theorem Run.refines {τ β : Type} {N : Machine τ β} (proj : σ → τ) {I : σ → Prop}
    {K : σ → α → Prop}
    (keep : ∀ s a t, I s → M.enabled s a → K s a → M.step s a = .ok t → I t ∧
      (proj t = proj s ∨ ∃ b, N.enabled (proj s) b ∧ N.step (proj s) b = .ok (proj t)))
    {s t : σ} {as : List α} (h : Run M s as t) (hk : M.EveryStep s as K) (hi : I s) :
    I t ∧ ∃ bs, N.Run (proj s) bs (proj t) := by
  induction h with
  | nil s => exact ⟨hi, [], .nil _⟩
  | cons he hs _ ih =>
    obtain ⟨ha, has⟩ := (everyStep_cons he hs).mp hk
    obtain ⟨hi', hstep⟩ := keep _ _ _ hi he ha hs
    obtain ⟨hi'', bs, hr⟩ := ih has hi'
    rcases hstep with hsame | ⟨b, heb, hsb⟩
    · exact ⟨hi'', bs, hsame ▸ hr⟩
    · exact ⟨hi'', b :: bs, .cons heb hsb hr⟩

/-- A total specification that the machine's enabled steps simulate without faulting. -/
structure Simulates {τ : Type} (M : Machine σ α) (spec : τ → α → τ) (R : σ → τ → Prop) : Prop where
  step : ∀ s a t, R s t → M.enabled s a → ∃ s', M.step s a = .ok s' ∧ R s' (spec t a)

theorem Simulates.run {τ : Type} {spec : τ → α → τ} {R : σ → τ → Prop} (h : M.Simulates spec R)
    {s s' : σ} {t : τ} {as : List α} (hr : M.Run s as s') (hi : R s t) :
    R s' (as.foldl spec t) := by
  induction hr generalizing t with
  | nil => exact hi
  | cons he hs _ ih =>
    obtain ⟨u, hu, hR⟩ := h.step _ _ _ hi he
    rw [hs] at hu
    cases hu
    exact ih hR

end Machine
end Muduo.Support
