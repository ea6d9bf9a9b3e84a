import Muduo.Net.EventLoop

/-! The functor queue of a loop under every interleaving: nothing is lost, repeated or
reordered, and the loop never sleeps over a functor that nobody is about to announce. -/
namespace Muduo.Net
open Muduo.Support

/-- Past the swap of this iteration and before the events of the next. -/
def LoopPc.pastSwap : LoopPc → Bool
  | .whileTest | .poll | .callFunctors | .functor => true
  | .outside | .handleEvents _ | .callback _ | .doPendingFunctors => false

/-- While `doPendingFunctors` calls the functors. -/
def LoopPc.calling : LoopPc → Bool
  | .callFunctors | .functor => true
  | .outside | .whileTest | .poll | .handleEvents _ | .callback _ | .doPendingFunctors => false

namespace EventLoop
variable {ι F : Type} {l l' : EventLoop ι F}

/-- A functor pushed since `loop()` was entered is still in `pendingFunctors_`. -/
def FreshPending (l : EventLoop ι F) : Prop :=
  ∃ k, l.entered ≤ k ∧ l.executed.length + l.functors.length ≤ k ∧ k < l.pushed.length

/-- The loop has been woken, or a thread that pushed is about to wake it. -/
def Awake (l : EventLoop ι F) : Prop :=
  0 < l.wakeupFd ∨ (∃ i, l.callers (some i) = .queued) ∨
    l.callers none = .queued ∧ l.pc.calling = true

structure Inv (l : EventLoop ι F) : Prop where
  order : l.executed ++ l.functors ++ l.pendingFunctors = l.pushed
  batch : l.pc.calling = false → l.functors = []
  calling : l.callingPendingFunctors = l.pc.calling
  user : l.callers none ≠ .idle → l.pc.inUserCode = true
  awake : l.pc.pastSwap = true → l.FreshPending → l.Awake

theorem new_inv : Inv (new : EventLoop ι F) := by
  constructor <;> simp [new, LoopPc.pastSwap, LoopPc.calling]

/-- No functor is pending right behind the swap. -/
theorem not_freshPending (h : l.executed ++ l.functors = l.pushed) : ¬ l.FreshPending := by
  rintro ⟨k, _, hk, hlt⟩
  rw [← h, List.length_append] at hlt
  omega

theorem wakeup_pos (l : EventLoop ι F) : 0 < l.wakeup.wakeupFd := by
  unfold wakeup
  dsimp only
  split <;> omega

/-- The loop thread moves on with the queue as it was. -/
theorem Inv.move (h : Inv l) (hidle : l.callers none = .idle) {pc : LoopPc}
    (hc : pc.calling = l.pc.calling) (hs : pc.pastSwap = true → l.pc.pastSwap = true)
    {iterations fd : Nat} (hfd : pc.pastSwap = true → fd = l.wakeupFd) {looping : Bool} :
    Inv { l with pc, iterations, looping, wakeupFd := fd } where
  order := h.order
  batch := by
    rw [hc]
    exact h.batch
  calling := by rw [hc]; exact h.calling
  user := fun hx => absurd hidle hx
  awake := by
    intro hp hf
    have ha := h.awake (hs hp) hf
    simpa only [Awake, hfd hp, hc] using ha

theorem loop_inv (h : Inv l) (hidle : l.callers none = .idle) (hpc : l.pc = .outside)
    (hok : l.loop = .ok l') : Inv l' := by
  obtain ⟨_, hok⟩ := assert_bind_ok.mp hok
  cases hok
  have hc := h.calling
  have hb := h.batch
  rw [hpc] at hc hb
  refine ⟨h.order, hb, hc, fun hx => absurd hidle hx, ?_⟩
  rintro _ ⟨k, hk, _, hlt⟩
  exact absurd hlt (Nat.not_lt.mpr hk)

theorem swapFunctors_inv (h : Inv l) (hidle : l.callers none = .idle)
    (hpc : l.pc = .doPendingFunctors) : Inv l.swapFunctors := by
  have hb : l.functors = [] := h.batch (by rw [hpc]; rfl)
  have ho : l.executed ++ l.pendingFunctors = l.pushed := by
    rw [← h.order, hb, List.append_nil]
  refine ⟨?_, (by simp [swapFunctors, LoopPc.calling]), rfl, fun hx => absurd hidle hx, ?_⟩
  · rw [swapFunctors, List.append_nil]
    exact ho
  · intro _ hf
    exact absurd hf (not_freshPending ho)

/-- The functor called moves from the batch to those called; behind the last one the loop
thread has announced its own pushes, so the flag is not missed. -/
theorem callFunctor_inv (h : Inv l) (hidle : l.callers none = .idle)
    (hpc : l.pc = .callFunctors) : Inv l.callFunctor := by
  have hp : l.pc.pastSwap = true := by rw [hpc]; rfl
  have awake : l.FreshPending → 0 < l.wakeupFd ∨ ∃ i, l.callers (some i) = .queued := by
    intro hf
    rcases h.awake hp hf with hpos | hi | ⟨hq, _⟩
    · exact .inl hpos
    · exact .inr hi
    · rw [hidle] at hq
      cases hq
  unfold callFunctor
  split
  · next hb =>
    refine ⟨h.order, fun _ => hb, rfl, fun hx => absurd hidle hx, fun _ hf => ?_⟩
    exact (awake hf).elim .inl fun hi => .inr (.inl hi)
  · next f fs hb =>
    have ho : l.executed ++ [f] ++ fs = l.executed ++ l.functors := by
      rw [hb, List.append_assoc, List.singleton_append]
    refine ⟨?_, by simp [LoopPc.calling], ?_, fun hx => absurd hidle hx, ?_⟩
    · dsimp only
      rw [ho, h.order]
    · rw [h.calling, hpc]
      rfl
    · rintro _ ⟨k, hk, hle, hlt⟩
      have hlen := congrArg List.length ho
      simp only [List.length_append] at hlen hle
      have hf : l.FreshPending := ⟨k, hk, by omega, hlt⟩
      exact (awake hf).elim .inl fun hi => .inr (.inl hi)

/-- The rest of the loop thread's steps leave the queue alone. -/
theorem advance_inv (h : Inv l) (hidle : l.callers none = .idle) (active : List Active) :
    Inv (l.advance active) := by
  have move {pc : LoopPc} (hc : pc.calling = l.pc.calling)
      (hs : pc.pastSwap = true → l.pc.pastSwap = true) : Inv { l with pc } :=
    h.move hidle hc hs (fun _ => rfl)
  cases hpc : l.pc with
  | outside => simpa only [advance, hpc] using h
  | whileTest =>
    simp only [advance, hpc, whileTest]
    split
    · exact h.move hidle (by rw [hpc]; rfl) (fun _ => by rw [hpc]; rfl) (fun _ => rfl)
    · exact h.move hidle (by rw [hpc]; rfl) (by simp [LoopPc.pastSwap]) (fun _ => rfl)
  | poll =>
    simp only [advance, hpc]
    exact move (by rw [hpc]; rfl) (by simp [LoopPc.pastSwap])
  | handleEvents events =>
    cases events with
    | nil =>
      simp only [advance, hpc]
      exact move (by rw [hpc]; rfl) (by simp [LoopPc.pastSwap])
    | cons e rest =>
      cases e with
      | wakeup =>
        simp only [advance, hpc]
        exact h.move hidle (by rw [hpc]; rfl) (by simp [LoopPc.pastSwap])
          (by simp [LoopPc.pastSwap])
      | channel =>
        simp only [advance, hpc]
        exact move (by rw [hpc]; rfl) (by simp [LoopPc.pastSwap])
  | callback rest =>
    simp only [advance, hpc]
    exact move (by rw [hpc]; rfl) (by simp [LoopPc.pastSwap])
  | doPendingFunctors =>
    simp only [advance, hpc]
    exact swapFunctors_inv h hidle hpc
  | callFunctors =>
    simp only [advance, hpc]
    exact callFunctor_inv h hidle hpc
  | functor =>
    simp only [advance, hpc]
    exact move (by rw [hpc]; rfl) (fun _ => by rw [hpc]; rfl)

variable [DecidableEq ι]

/-- The announcement that is due does not come from `caller`. -/
theorem Awake.update (caller : Option ι) (c : Caller) (h : l.Awake)
    (hcaller : l.callers caller ≠ .queued ∨ caller = none ∧ l.pc.calling = false)
    (hfd : l'.wakeupFd = l.wakeupFd) (hpc : l'.pc = l.pc)
    (hc : l'.callers = Function.update l.callers caller c) : l'.Awake := by
  have other : ∀ t, l.callers t = .queued → (t = none → l.pc.calling = true) →
      l'.callers t = .queued := by
    intro t ht hcalling
    rw [hc, Function.update_of_ne _, ht]
    rintro rfl
    rcases hcaller with hne | ⟨rfl, hn⟩
    · exact hne ht
    · rw [hcalling rfl] at hn
      cases hn
  rcases h with hpos | ⟨i, hi⟩ | ⟨hq, hcalling⟩
  · exact .inl (hfd ▸ hpos)
  · exact .inr (.inl ⟨i, other (some i) hi (by simp)⟩)
  · exact .inr (.inr ⟨other none hq fun _ => hcalling, hpc ▸ hcalling⟩)

theorem queueInLoop_inv (h : Inv l) {caller : Option ι} (hr : l.ready caller) (cb : F) :
    Inv { l.pushBack cb with callers := Function.update l.callers caller .queued } where
  order := by
    change l.executed ++ l.functors ++ (l.pendingFunctors ++ [cb]) = l.pushed ++ [cb]
    rw [← List.append_assoc, h.order]
  batch := h.batch
  calling := h.calling
  user := by
    intro hx
    change l.pc.inUserCode = true
    cases caller with
    | none => exact hr.2 rfl
    | some i => exact h.user (by simpa using hx)
  awake := by
    intro hp _
    cases caller with
    | some i => exact .inr (.inl ⟨i, Function.update_self ..⟩)
    | none =>
      refine .inr (.inr ⟨by simp, ?_⟩)
      have hu := hr.2 rfl
      change l.pc.pastSwap = true at hp
      change l.pc.calling = true
      cases hpc : l.pc <;> simp [hpc, LoopPc.inUserCode, LoopPc.pastSwap, LoopPc.calling] at hu hp ⊢

theorem quit_inv (h : Inv l) {caller : Option ι} (hr : l.ready caller) :
    Inv { l with quit := true, callers := Function.update l.callers caller .quitting } where
  order := h.order
  batch := h.batch
  calling := h.calling
  user := by
    intro hx
    cases caller with
    | none => exact hr.2 rfl
    | some i => exact h.user (by simpa using hx)
  awake := by
    intro hp hf
    refine Awake.update caller .quitting (h.awake hp hf) (.inl ?_) rfl rfl rfl
    simp [hr.1]

/-- Whoever has pushed and does not wake the loop up is the loop thread itself, outside
its functors. -/
theorem wakeup_inv (h : Inv l) {caller : Option ι} :
    Inv (if l.wakes caller then
        { l.wakeup with callers := Function.update l.callers caller .idle }
      else { l with callers := Function.update l.callers caller .idle }) := by
  have user : Function.update l.callers caller .idle none ≠ .idle → l.pc.inUserCode = true := by
    intro hx
    apply h.user
    intro hidle
    by_cases hc : caller = none
    · subst hc
      simp at hx
    · rw [Function.update_of_ne (Ne.symm hc)] at hx
      exact hx hidle
  split
  · exact ⟨h.order, h.batch, h.calling, user, fun _ _ => .inl (wakeup_pos l)⟩
  · next hw =>
    refine ⟨h.order, h.batch, h.calling, user, fun hp hf => ?_⟩
    refine Awake.update caller .idle (h.awake hp hf) ?_ rfl rfl rfl
    by_cases hq : l.callers caller = .queued
    · refine .inr ?_
      simpa [wakes, hq, h.calling] using hw
    · exact .inl hq

theorem step_inv (l : EventLoop ι F) (a : Step ι F) (l' : EventLoop ι F) (h : Inv l)
    (he : machine.enabled l a) (hok : machine.step l a = .ok l') : Inv l' := by
  cases a with
  | queueInLoop caller cb =>
    cases hok
    exact queueInLoop_inv h he cb
  | quit caller =>
    cases hok
    exact quit_inv h he
  | wakeup caller =>
    cases hok
    exact wakeup_inv h
  | loop => exact loop_inv h he.1 he.2 hok
  | advance active =>
    cases hok
    exact advance_inv h he.1 active

/-- At every point the functors called, those swapped out and those pending are the
functors pushed, in order; and the loop does not block over a functor pushed since it was
entered unless it is being woken. -/
theorem functor_queue (steps : List (Step ι F)) (l : EventLoop ι F)
    (h : machine.Run .new steps l) :
    l.executed ++ l.functors ++ l.pendingFunctors = l.pushed ∧
      (l.pc = .poll → l.FreshPending → 0 < l.wakeupFd ∨ ∃ i, l.callers (some i) = .queued) := by
  have hi := h.invariant step_inv new_inv
  refine ⟨hi.order, fun hpc hf => ?_⟩
  rcases hi.awake (by rw [hpc]; rfl) hf with hpos | hq | ⟨_, hcalling⟩
  · exact .inl hpos
  · exact .inr hq
  · rw [hpc] at hcalling
    cases hcalling

instance enabledDecidable (l : EventLoop ι F) : (a : Step ι F) → Decidable (machine.enabled l a)
  | .queueInLoop _ _ | .quit _ => inferInstanceAs (Decidable (_ ∧ (_ → _)))
  | .wakeup _ => inferInstanceAs (Decidable (_ ≠ _))
  | .loop | .advance _ => inferInstanceAs (Decidable (_ ∧ _))

/-- Another thread pushes while the loop is between its test and its poll. -/
theorem functor_queue_sample : ∃ l : EventLoop Unit Nat,
    machine.Run .new [.loop, .advance [], .queueInLoop (some ()) 7] l ∧ l.pc = .poll ∧
    l.pendingFunctors = [7] ∧ (0 < l.wakeupFd ∨ ∃ i, l.callers (some i) = .queued) := by
  obtain ⟨l, hr, hl⟩ := machine.exists_run (new : EventLoop Unit Nat)
    [.loop, .advance [], .queueInLoop (some ()) 7]
    (fun l => (l.pc, l.pendingFunctors, l.pushed, l.executed, l.functors, l.entered))
    (.poll, [7], [7], [], [], 0) rfl
  simp only [Prod.mk.injEq] at hl
  obtain ⟨hpc, hp, hpushed, hex, hfn, hen⟩ := hl
  have hf : l.FreshPending := ⟨0, by simp [hen], by simp [hex, hfn], by simp [hpushed]⟩
  exact ⟨l, hr, hpc, hp, (functor_queue _ l hr).2 hpc hf⟩

end EventLoop
end Muduo.Net
