import Muduo.Base.MutexLock

/-! Between any steps of any number of threads, an object under a `MutexLock` is as its methods
leave it when they run one at a time. -/
namespace Muduo.Base
open Muduo.Support

namespace MutexLock
variable {T σ γ κ : Type} [DecidableEq T] [DecidableEq κ] {M : Methods σ γ κ} {tid : T → Nat}
  {s s' : MutexLock T σ γ κ} {t : T} {q : Phase γ κ}

/-- The thread that goes on in its loop, with the condition whose wakeup it has not answered. -/
def answering (s : MutexLock T σ γ κ) : Option (T × κ) :=
  s.owner.bind fun t => (s.phase t).pending.map (t, ·)

/-- The object as its methods see it. A woken thread counts as woken until it has decided
whether it waits again. -/
def monitor (s : MutexLock T σ γ κ) : Monitor T σ γ κ where
  data := s.data
  conds := match s.answering with
    | some (t, k) => Function.update s.conds k ((s.conds k).retain t)
    | none => s.conds
  call := fun t => (s.phase t).waited

omit [DecidableEq T] [DecidableEq κ] in
theorem answering_of_owner (ho : s.owner = some t) :
    s.answering = (s.phase t).pending.map (t, ·) := by
  rw [answering, ho]
  rfl

omit [DecidableEq κ] in
theorem answering_update {x : Option (T × κ)} (hp : s'.phase = Function.update s.phase t q)
    (ho : s'.owner = some t) (hx : q.pending.map (t, ·) = x) : s'.answering = x := by
  rw [answering_of_owner ho, hp, Function.update_self, hx]

omit [DecidableEq T] [DecidableEq κ] in
theorem answering_of_free (ho : s.owner = none) : s.answering = none := by
  rw [answering, ho]
  rfl

omit [DecidableEq κ] in
theorem waited_update (hp : s'.phase = Function.update s.phase t q) :
    (fun u => (s'.phase u).waited) = Function.update (fun u => (s.phase u).waited) t q.waited := by
  funext u
  rw [hp]
  by_cases hu : u = t
  · subst hu
    rw [Function.update_self, Function.update_self]
  · rw [Function.update_of_ne hu, Function.update_of_ne hu]

/-- The thread goes on, and its methods see nothing of it. -/
theorem monitor_goto (hd : s'.data = s.data) (hc : s'.conds = s.conds)
    (hp : s'.phase = Function.update s.phase t q) (hw : q.waited = (s.phase t).waited)
    (ha : s'.answering = s.answering) : s'.monitor = s.monitor := by
  have hcall : (fun u => (s'.phase u).waited) = fun u => (s.phase u).waited := by
    rw [waited_update hp, hw, Function.update_eq_self_iff]
  rw [monitor, monitor, hd, hc, hcall, ha]

omit [DecidableEq κ] in
theorem answering_aside (h : Held tid s) (hs : (s.phase t).holds = false)
    (hp : s'.phase = Function.update s.phase t q) (ho : s'.owner = s.owner) :
    s'.answering = s.answering := by
  cases hu : s.owner with
  | none => rw [answering_of_free hu, answering_of_free (ho.trans hu)]
  | some u =>
    have hne : u ≠ t := by
      rintro rfl
      rw [(h.owns u).mpr hu] at hs
      cases hs
    rw [answering_of_owner hu, answering_of_owner (ho.trans hu), hp, Function.update_of_ne hne]

theorem monitor_waiting (k : κ) : (s.monitor.conds k).waiting = (s.conds k).waiting := by
  rw [monitor]
  cases s.answering with
  | none => rfl
  | some p =>
    obtain ⟨t, j⟩ := p
    by_cases hk : k = j
    · subst hk
      dsimp only
      rw [Function.update_self]
      rfl
    · dsimp only
      rw [Function.update_of_ne hk]

theorem monitor_reaches {woken : Option T} {n : Option (Notification κ)}
    (h : Monitor.Reaches s.conds woken n) : Monitor.Reaches s.monitor.conds woken n :=
  h.congr monitor_waiting

/-- The step is one of the atomic methods, or they see nothing of it. -/
def Refines (M : Methods σ γ κ) (s s' : MutexLock T σ γ κ) : Prop :=
  s'.monitor = s.monitor ∨ ∃ b, (Monitor.machine M).enabled s.monitor b ∧
    (Monitor.machine M).step s.monitor b = .ok s'.monitor

/-- The test of a loop, at the first time or after a `wait()`, and what follows from it. -/
theorem Inv.decides (h : Inv M tid s) {c : γ} {after : Option κ} (ho : s.owner = some t)
    (hs : (s.phase t).pending = after ∧ (s.phase t).waited = after.map fun _ => c)
    (hf : Phase.free (s.phase t) = true) (woken : Option T)
    (hr : Monitor.Wakes M s.conds c s.data woken)
    (hp : s'.phase = Function.update s.phase t q) (hn : s'.answering = none)
    (hgo : (⟨s.data, s.conds, s.monitor.call⟩ : Monitor T σ γ κ).go M t c woken =
      .ok ⟨s'.data, s'.conds, Function.update s.monitor.call t q.waited⟩) : Refines M s s' := by
  have ha := answering_of_owner ho
  rw [hs.1] at ha
  have hm' : s'.monitor = ⟨s'.data, s'.conds, Function.update s.monitor.call t q.waited⟩ := by
    rw [monitor, hn, waited_update hp]
    rfl
  cases after with
  | none =>
    have hm : s.monitor = ⟨s.data, s.conds, s.monitor.call⟩ := by
      rw [monitor, ha]
      rfl
    refine .inr ⟨.enter t c woken, ⟨hs.2, fun data hw hb => monitor_reaches (hr data hw hb)⟩, ?_⟩
    rw [hm', ← hgo, ← hm]
    rfl
  | some k =>
    have hnot : t ∉ (s.conds k).awakened := fun hb => by
      obtain ⟨c', hx⟩ := (h.parked.blocked t k).mp (.inr hb)
      rw [hx] at hf
      cases hf
    have hconds : s.monitor.conds = Function.update s.conds k ((s.conds k).retain t) := by
      rw [monitor, ha]
      rfl
    have hcall : s.monitor.call t = some c := hs.2
    refine .inr ⟨.resume t k woken,
      ⟨?_, c, hcall, fun data hw hb => monitor_reaches (hr data hw hb)⟩, ?_⟩
    · rw [hconds, Function.update_self]
      exact Finset.mem_insert_self t _
    · rw [hm', ← hgo]
      show Monitor.step M s.monitor (.resume t k woken) = _
      rw [Monitor.step]
      simp only [hcall]
      rw [hconds, Function.update_self, Condition.relock_retain hnot, Function.update_idem,
        Function.update_eq_self]
      rfl

theorem Inv.test_refines (h : Inv M tid s) {c : γ} {after : Option κ}
    (hph : s.phase t = .testing c after) {woken : Option T}
    (hw : Monitor.Wakes M s.conds c s.data woken)
    (hok : s.test M t c after woken = .ok s') : Refines M s s' := by
  have ho := (h.held.owns t).mp (by rw [hph]; rfl)
  rw [MutexLock.test] at hok
  split at hok
  · next k hk =>
    cases hok
    refine .inl (monitor_goto rfl rfl rfl ?_ ?_)
    · rw [hph]
      cases after <;> rfl
    · rw [answering_of_owner ho, hph]
      exact answering_update rfl ho rfl
  · next hnone =>
    obtain ⟨data, hdata, hok⟩ := bind_ok.mp hok
    cases hok
    have hpending : (s.phase t).pending = after := by rw [hph, Phase.pending]
    refine h.decides ho (q := .leaving) ⟨hpending, ?_⟩ (by rw [hph]; rfl) woken hw rfl
      (answering_update rfl ho rfl) ?_
    · rw [hph]
      cases after <;> rfl
    · rw [Monitor.go]
      simp only [hnone, hdata, ok_bind]
      rfl

theorem Inv.condWait_refines (h : Inv M tid s) {c : γ} {k : κ} {after : Option κ}
    (hph : s.phase t = .suspending c k after) : Refines M s ({ s with
      conds := Function.update s.conds k ((s.conds k).wait t)
      owner := none
      phase := Function.update s.phase t (.blocked c k) } : MutexLock T σ γ κ) := by
  have ho := (h.held.owns t).mp (by rw [hph]; rfl)
  have hwaits := h.suspended t c k after hph
  have hpending : (s.phase t).pending = after := by rw [hph, Phase.pending]
  refine h.decides ho (c := c) (q := .blocked c k) ⟨hpending, ?_⟩
    (by rw [hph]; rfl) none (fun data hn _ => ?_) rfl (answering_of_free rfl) ?_
  · rw [hph]
    cases after <;> rfl
  · rw [hwaits] at hn
    cases hn
  · rw [Monitor.go]
    simp only [hwaits]
    rfl

theorem relock_refines {c : γ} {k : κ} (hph : s.phase t = .blocked c k)
    (ht : t ∈ (s.conds k).awakened) (hfree : s.owner = none) : Refines M s ({ s with
      conds := Function.update s.conds k ((s.conds k).relock t)
      owner := some t
      phase := Function.update s.phase t (.resumed c k) } : MutexLock T σ γ κ) := by
  left
  have hcall : Function.update (fun u => (s.phase u).waited) t (some c) =
      fun u => (s.phase u).waited := by
    rw [Function.update_eq_self_iff, hph]
    rfl
  rw [monitor, monitor, answering_of_free hfree, waited_update (s := s) (t := t) rfl]
  rw [answering_of_owner (t := t) rfl]
  simp only [Function.update_self, Phase.pending, Option.map_some, Function.update_idem,
    Condition.retain_relock ht, Function.update_eq_self]
  congr 1

theorem wakeup_refines {k : κ} (ht : t ∈ (s.conds k).waiting) : Refines M s ({ s with
      conds := Function.update s.conds k ((s.conds k).wake t) } : MutexLock T σ γ κ) := by
  refine .inr ⟨.wakeup t k, ?_, ?_⟩
  · show t ∈ (s.monitor.conds k).waiting
    rw [monitor_waiting]
    exact ht
  · have ha : answering ({ s with
        conds := Function.update s.conds k ((s.conds k).wake t) } : MutexLock T σ γ κ) =
        s.answering := rfl
    show Except.ok _ = Except.ok _
    rw [monitor, monitor, ha]
    congr 2
    cases s.answering with
    | none => rfl
    | some p =>
      obtain ⟨u, j⟩ := p
      dsimp only
      by_cases hj : j = k
      · subst hj
        rw [Function.update_self, Function.update_self, Function.update_idem,
          Function.update_idem, Condition.wake_retain]
      · rw [Function.update_of_ne hj, Function.update_of_ne (Ne.symm hj),
          Function.update_comm hj]

theorem step_refines (h : Inv M tid s) {a : Move T γ κ} (he : (machine M tid).enabled s a)
    (hok : (machine M tid).step s a = .ok s') : Refines M s s' := by
  cases a with
  | call t c =>
    cases hok
    cases hph : s.phase t with
    | outside =>
      have hs : (s.phase t).holds = false := by rw [hph]; rfl
      exact .inl (monitor_goto rfl rfl rfl (by rw [hph]; rfl)
        (answering_aside h.held hs rfl rfl))
    | _ => simp [machine, enabled, Phase.isOutside, hph] at he
  | next t woken =>
    have howns : (s.phase t).holds = true → s.owner = some t := (h.held.owns t).mp
    cases hph : s.phase t with
    | outside => simp [machine, enabled, Ready, hph] at he
    | entering c =>
      simp only [machine, enabled, Ready, step, hph] at he hok
      cases hok
      refine .inl (monitor_goto rfl rfl rfl (by rw [hph]; rfl) ?_)
      rw [answering_of_free he]
      exact answering_update rfl rfl rfl
    | testing c after =>
      simp only [machine, enabled, Ready, step, hph] at he hok
      exact h.test_refines hph he hok
    | suspending c k after =>
      simp only [machine, step, hph] at hok
      cases hok
      exact h.condWait_refines hph
    | blocked c k =>
      simp only [machine, enabled, Ready, step, hph] at he hok
      cases hok
      exact relock_refines hph he.1 he.2
    | released =>
      simp only [machine, step, hph] at hok
      cases hok
      refine .inl (monitor_goto rfl rfl rfl (by rw [hph]; rfl) ?_)
      rw [answering_of_owner (howns (by rw [hph]; rfl)), hph]
      exact answering_of_free rfl
    | _ =>
      simp only [machine, step, hph] at hok
      cases hok
      have ho := howns (by rw [hph]; rfl)
      refine .inl (monitor_goto rfl rfl rfl (by rw [hph]; rfl) ?_)
      rw [answering_of_owner ho, hph]
      exact answering_update rfl ho rfl
  | wakeup t k =>
    cases hok
    exact wakeup_refines he

/-- A method that need not wait ends in no failed assertion, so none does. -/
theorem step_ok (hb : ∀ c, M.waits c s.data = none → ∃ data, M.body c s.data = .ok data)
    (a : Move T γ κ) : ∃ s', (machine M tid).step s a = .ok s' := by
  cases a with
  | call t c => exact ⟨_, rfl⟩
  | wakeup t k => exact ⟨_, rfl⟩
  | next t woken =>
    cases hph : s.phase t with
    | testing c after =>
      simp only [machine, step, hph, test]
      cases hw : M.waits c s.data with
      | some k => exact ⟨_, rfl⟩
      | none =>
        obtain ⟨data, hdata⟩ := hb c hw
        simp only [hdata, ok_bind]
        exact ⟨_, rfl⟩
    | _ =>
      simp only [machine, step, hph]
      exact ⟨_, rfl⟩

theorem run_refines {data : σ} {as : List (Move T γ κ)}
    (h : (machine M tid).Run (new data) as s) :
    Inv M tid s ∧ ∃ bs, (Monitor.machine M).Run (.new data) bs s.monitor :=
  h.refines monitor (K := fun _ _ => True)
    (fun _ _ _ hi he _ hok => ⟨step_inv _ _ _ hi he hok, step_refines hi he hok⟩)
    (Machine.everyStep_of_forall fun _ _ _ => trivial) (new_inv data)

/-- In every interleaving of the steps, `isLockedByThisThread()` is true for the thread that
is inside and for no other, a mutex that nobody has has no holder, as its destructor asserts,
and the object goes through what its methods do one at a time. -/
theorem methods_atomic (hpos : ∀ t, tid t ≠ 0) (hinj : Function.Injective tid) {data : σ}
    {as : List (Move T γ κ)} (h : (machine M tid).Run (new data) as s) :
    (∀ t, s.isLockedByThisThread tid t = true ↔ (s.phase t).inside = true) ∧
    (∀ t u, (s.phase t).holds = true → (s.phase u).holds = true → t = u) ∧
    ((∀ t, (s.phase t).holds = false) → s.holder = 0) ∧
    ∃ bs, (Monitor.machine M).Run (.new data) bs s.monitor := by
  obtain ⟨hi, hbs⟩ := run_refines h
  refine ⟨fun t => ?_, fun t u ht hu => ?_, fun hfree => ?_, hbs⟩
  · exact hi.held.locked hpos hinj t
  · have hx := ((hi.held.owns t).mp ht).symm.trans ((hi.held.owns u).mp hu)
    exact Option.some.inj hx
  · exact hi.held.free (Option.eq_none_iff_forall_not_mem.mpr fun t ht => by
      rw [← Bool.false_eq_true, ← hfree t]
      exact (hi.held.owns t).mpr ht)

/-- Two threads count under one mutex; the second comes while the first is inside. -/
theorem methods_atomic_sample : ∃ s : MutexLock Nat Nat Unit Unit,
    (machine ⟨fun _ _ => none, fun _ n => .ok (n + 1), fun _ _ => none⟩ (· + 1)).Run (.new 0)
      [.call 0 (), .next 0 none, .next 0 none, .call 1 (), .next 0 none] s ∧
    (s.isLockedByThisThread (· + 1) 0 = true ↔ (s.phase 0).inside = true) ∧ s.data = 1 := by
  obtain ⟨s, hr, hs⟩ := (machine ⟨fun _ _ => none, fun _ n => .ok (n + 1), fun _ _ => none⟩
      (· + 1)).exists_run (.new 0 : MutexLock Nat Nat Unit Unit)
    [.call 0 (), .next 0 none, .next 0 none, .call 1 (), .next 0 none]
    (fun s => s.data) 1 (by decide +kernel)
  exact ⟨s, hr, (methods_atomic Nat.succ_ne_zero Nat.succ_injective hr).1 0, hs⟩

/-- No thread can go on, unless there is a spurious wakeup or a new call. -/
def Stuck (M : Methods σ γ κ) (s : MutexLock T σ γ κ) : Prop :=
  ∀ t woken, ¬ enabled M s (.next t woken)

omit [DecidableEq T] [DecidableEq κ] in
/-- A thread that has the mutex can go on. -/
theorem Stuck.free (h : Stuck M s) (hi : Held tid s) : s.owner = none := by
  refine Option.eq_none_iff_forall_not_mem.mpr fun t ht => ?_
  have hholds := (hi.owns t).mpr ht
  cases hph : s.phase t with
  | testing c after =>
    obtain ⟨woken, hw⟩ := Monitor.exists_wakes M s.conds c s.data
    exact h t woken (by simpa only [enabled, Ready, hph] using hw)
  | outside => simp [hph, Phase.holds] at hholds
  | entering c => simp [hph, Phase.holds] at hholds
  | blocked c k => simp [hph, Phase.holds] at hholds
  | _ => exact h t none (by simp [enabled, Ready, hph])

omit [DecidableEq T] [DecidableEq κ] in
theorem Stuck.phases (h : Stuck M s) (hi : Held tid s) (t : T) :
    s.phase t = .outside ∨ ∃ c k, s.phase t = .blocked c k := by
  have hfree := h.free hi
  cases hph : s.phase t with
  | outside => exact .inl rfl
  | blocked c k => exact .inr ⟨c, k, rfl⟩
  | entering c => exact absurd hfree (by simpa [enabled, Ready, hph] using h t none)
  | _ =>
    have ho := (hi.owns t).mp (by rw [hph]; rfl)
    rw [hfree] at ho
    cases ho

omit [DecidableEq T] [DecidableEq κ] in
theorem Stuck.awakened (h : Stuck M s) (hi : Inv M tid s) (k : κ) : (s.conds k).awakened = ∅ := by
  refine Finset.eq_empty_of_forall_notMem fun t ht => ?_
  obtain ⟨c, hph⟩ := (hi.parked.blocked t k).mp (.inr ht)
  exact h t none (by simpa only [enabled, Ready, hph] using ⟨ht, h.free hi.held⟩)

section Serving
variable {I : σ → Prop} {loop : γ → Option κ} {n : κ → σ → ℕ∞} {data : σ}
  {as : List (Move T γ κ)}

theorem serving_run (hM : Monitor.Serving M I loop n) (hd : I data)
    (h : (machine M tid).Run (new data) as s) :
    Inv M tid s ∧ Monitor.Inv I loop n s.monitor := by
  obtain ⟨hi, bs, hbs⟩ := run_refines h
  exact ⟨hi, Monitor.run_inv hM hd hbs⟩

/-- No assertion fails. -/
theorem serving_ok (hM : Monitor.Serving M I loop n) (hd : I data)
    (h : (machine M tid).Run (new data) as s) (a : Move T γ κ) :
    ∃ s', (machine M tid).step s a = .ok s' :=
  step_ok (fun c hw => by
    obtain ⟨d, hb, _⟩ := hM.body c s.data (serving_run hM hd h).2.data hw
    exact ⟨d, hb⟩) a

/-- No wakeup is lost: when no thread can go on, each is outside or waits for something that
is not there. -/
theorem serving_stuck (hM : Monitor.Serving M I loop n) (hd : I data)
    (h : (machine M tid).Run (new data) as s) (hs : Stuck M s) (t : T) :
    s.phase t = .outside ∨ ∃ c k, s.phase t = .blocked c k ∧ loop c = some k ∧
      n k s.data = 0 := by
  obtain ⟨hi, hm⟩ := serving_run hM hd h
  refine (hs.phases hi.held t).imp_right ?_
  rintro ⟨c, k, hph⟩
  have hconds : s.monitor.conds = s.conds := by
    rw [monitor, answering_of_free (hs.free hi.held)]
  have hb := (hi.parked.blocked t k).mpr ⟨c, hph⟩
  obtain ⟨c', hcall, hloop⟩ := hm.call t k (hconds ▸ hb)
  have hwaited : s.monitor.call t = some c := by
    show (s.phase t).waited = some c
    rw [hph]
    rfl
  cases hwaited.symm.trans hcall
  refine ⟨c, k, hph, hloop, ?_⟩
  have hnone := hs.awakened hi k
  have hw : (s.conds k).waiting.Nonempty := by
    rcases hb with hw | ha
    · exact ⟨t, hw⟩
    · rw [hnone] at ha
      cases ha
  by_contra hne
  have hserved := hm.meets k 1 (by rw [Nat.cast_one]; exact Order.one_le_iff_ne_zero.mpr hne)
  rw [hconds] at hserved
  have hcard := hserved hw
  rw [hnone] at hcard
  cases hcard

end Serving

end MutexLock
end Muduo.Base
