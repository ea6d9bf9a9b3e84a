import Muduo.Net.EPollPoller

/-! How far the kernel's interest list follows `events()`. The descriptors are distinct, so
each call is about the entries of one channel. -/
namespace Muduo.Net.EPollPoller
open Muduo.Support

variable {κ : Type} {fd : κ → Int}

/-- The lives of a channel: its object beside its entries in `channels_` and in the kernel. -/
inductive Stage (k : κ) : PolledChannel → Option κ → Option (EpollEvent κ) → Prop where
  | new {ch : Channel} {revents : Int} (removed : ch.addedToLoop = false)
      (idle : ch.isNoneEvent = true) : Stage k ⟨ch, kNew, revents⟩ none none
  | added {ch : Channel} {revents : Int} (registered : ch.addedToLoop = true) :
      Stage k ⟨ch, kAdded, revents⟩ (some k) (some ⟨ch.events, k⟩)
  | deleted {ch : Channel} {revents : Int} (registered : ch.addedToLoop = true)
      (idle : ch.isNoneEvent = true) : Stage k ⟨ch, kDeleted, revents⟩ (some k) none

theorem Stage.key {k j : κ} {o : PolledChannel} {c : Option κ} {e : Option (EpollEvent κ)}
    (h : Stage k o c e) (hc : c = some j) : j = k := by
  cases h <;> cases hc <;> rfl

structure Inv (fd : κ → Int) (p : EPollPoller κ) : Prop where
  stage : ∀ k, Stage k (p.objects k) (p.channels (fd k)) (p.epoll (fd k))
  keys : ∀ f k, p.channels f = some k → f = fd k
  valid : ∀ c ∈ p.ctls, c.Valid

theorem inv_new : Inv fd (new : EPollPoller κ) where
  stage _ := .new rfl rfl
  keys _ _ h := absurd h (by simp [new])
  valid _ h := absurd h (by simp [new])

section Steps
variable [DecidableEq κ]

/-- New entries for one channel, and the `epoll_ctl` calls that led to them. -/
def put (fd : κ → Int) (p : EPollPoller κ) (k : κ) (o : PolledChannel) (c : Option κ)
    (e : Option (EpollEvent κ)) (ctls : List EpollCtl) : EPollPoller κ where
  objects := Function.update p.objects k o
  channels := Function.update p.channels (fd k) c
  epoll := Function.update p.epoll (fd k) e
  ctls := p.ctls ++ ctls

variable {p : EPollPoller κ} {k : κ}

theorem Inv.put (hfd : Function.Injective fd) (h : Inv fd p) {o : PolledChannel} {c : Option κ}
    {e : Option (EpollEvent κ)} {ctls : List EpollCtl} (hk : Stage k o c e)
    (hctls : ∀ c ∈ ctls, c.Valid) : Inv fd (p.put fd k o c e ctls) where
  stage j := by
    by_cases hj : j = k
    · subst hj
      simpa [EPollPoller.put] using hk
    · have hf : fd j ≠ fd k := fun hf => hj (hfd hf)
      simpa [EPollPoller.put, hj, hf] using h.stage j
  keys f j hc := by
    by_cases hf : f = fd k
    · subst hf
      simp only [EPollPoller.put, Function.update_self] at hc
      rw [hk.key hc]
    · exact h.keys f j (by simpa [EPollPoller.put, hf] using hc)
  valid c hc := (List.mem_append.mp hc).elim (h.valid c) (hctls c)

/-- A channel that the kernel does not hold is added, whatever its interest. -/
theorem step_update_absent {op : InterestOp} {ch : Channel} {idx revents : Int}
    (ho : p.objects k = ⟨ch, idx, revents⟩) (he : p.epoll (fd k) = none)
    (hc : idx = kNew ∧ p.channels (fd k) = none ∨ idx = kDeleted ∧ p.channels (fd k) = some k) :
    (machine fd).step p (.update op k) = .ok (p.put fd k ⟨op.apply ch, kAdded, revents⟩ (some k)
      (some ⟨(op.apply ch).events, k⟩) [⟨.EPOLL_CTL_ADD, fd k, false⟩]) := by
  rcases hc with ⟨rfl, hc⟩ | ⟨rfl, hc⟩
  · simp [machine, updateChannel, store, ho, hc, he, set_index, update, epoll_ctl, put,
      PolledChannel.set_index]
  · have hsame : Function.update p.channels (fd k) (some k) = p.channels := by
      rw [← hc, Function.update_eq_self]
    simp [machine, updateChannel, store, ho, hc, he, set_index, update, epoll_ctl, put,
      PolledChannel.set_index, hsame, kNew, kDeleted]

theorem step_update_added {op : InterestOp} {ch : Channel} {revents : Int} {e : EpollEvent κ}
    (ho : p.objects k = ⟨ch, kAdded, revents⟩) (hc : p.channels (fd k) = some k)
    (he : p.epoll (fd k) = some e) :
    (machine fd).step p (.update op k) = .ok (
      if (op.apply ch).isNoneEvent = true then
        p.put fd k ⟨op.apply ch, kDeleted, revents⟩ (some k) none [⟨.EPOLL_CTL_DEL, fd k, true⟩]
      else p.put fd k ⟨op.apply ch, kAdded, revents⟩ (some k) (some ⟨(op.apply ch).events, k⟩)
        [⟨.EPOLL_CTL_MOD, fd k, true⟩]) := by
  have hsame : Function.update p.channels (fd k) (some k) = p.channels := by
    rw [← hc, Function.update_eq_self]
  by_cases hidle : (op.apply ch).isNoneEvent = true
  · simp [machine, updateChannel, store, ho, hc, he, set_index, update, epoll_ctl, put,
      PolledChannel.set_index, hsame, hidle, kNew, kAdded, kDeleted, -bind_pure_comp,
      pure, Except.pure]
  · simp [machine, updateChannel, store, ho, hc, he, update, epoll_ctl, put, hsame, hidle, kNew,
      kAdded, kDeleted]

theorem step_remove {ch : Channel} {idx revents : Int} {e : Option (EpollEvent κ)}
    (ho : p.objects k = ⟨ch, idx, revents⟩) (hc : p.channels (fd k) = some k)
    (hidle : ch.isNoneEvent = true) (he : p.epoll (fd k) = e)
    (hidx : idx = kAdded ∧ e.isSome = true ∨ idx = kDeleted ∧ e = none) :
    (machine fd).step p (.remove k) = .ok (
      p.put fd k ⟨{ ch with addedToLoop := false }, kNew, revents⟩ none none
        (if idx = kAdded then [⟨.EPOLL_CTL_DEL, fd k, true⟩] else [])) := by
  have hidle' : Channel.isNoneEvent { ch with addedToLoop := false } = true := hidle
  rcases hidx with ⟨rfl, hsome⟩ | ⟨rfl, hnone⟩
  · obtain ⟨e, rfl⟩ := Option.isSome_iff_exists.mp hsome
    simp [machine, removeChannel, Channel.remove, store, ho, hc, he, hidle, hidle', set_index,
      update, epoll_ctl, put, PolledChannel.set_index, -bind_pure_comp, pure, Except.pure]
  · have hsame : Function.update p.epoll (fd k) none = p.epoll := by
      rw [← hnone, ← he, Function.update_eq_self]
    simp [machine, removeChannel, Channel.remove, store, ho, hc, hidle, hidle', set_index,
      put, PolledChannel.set_index, hsame, kAdded, kDeleted, pure, Except.pure]

end Steps

/-- Every channel that the poller counts as added has interest. -/
def Stirred (p : EPollPoller κ) : Prop :=
  ∀ k, (p.objects k).index = kAdded → (p.objects k).channel.isNoneEvent = false

/-- A call that leaves its channel without interest finds it with interest. -/
def Quiets (p : EPollPoller κ) : PollerCall κ → Prop
  | .update op k => (op.apply (p.objects k).channel).isNoneEvent = true →
      (p.objects k).channel.isNoneEvent = false
  | .remove _ => True

/-- The poller and the kernel agree with the channels. -/
structure Mirrors (fd : κ → Int) (p : EPollPoller κ) : Prop where
  mask : ∀ k, p.epoll (fd k) =
    if (p.objects k).channel.events = Channel.kNoneEvent then none
    else some ⟨(p.objects k).channel.events, k⟩
  valid : ∀ c ∈ p.ctls, c.Valid
  mapped : ∀ k, (∃ f, p.channels f = some k) ↔
    (p.objects k).index = kAdded ∨ (p.objects k).index = kDeleted

theorem Inv.mapped {p : EPollPoller κ} (h : Inv fd p) (k : κ) :
    (∃ f, p.channels f = some k) ↔
      (p.objects k).index = kAdded ∨ (p.objects k).index = kDeleted := by
  have hat : (∃ f, p.channels f = some k) ↔ p.channels (fd k) = some k := by
    constructor
    · rintro ⟨f, hf⟩
      rwa [h.keys f k hf] at hf
    · exact fun hf => ⟨_, hf⟩
  have hk := h.stage k
  rw [hat]
  generalize p.objects k = o at hk ⊢
  generalize p.channels (fd k) = c at hk ⊢
  generalize p.epoll (fd k) = e at hk
  cases hk <;> simp [kNew, kAdded, kDeleted]

/-- Only the mask of an added channel can be wrong, by being empty. -/
theorem Inv.mirrors_iff {p : EPollPoller κ} (h : Inv fd p) : Mirrors fd p ↔ Stirred p := by
  have hmask : ∀ k, (p.epoll (fd k) =
      if (p.objects k).channel.events = Channel.kNoneEvent then none
      else some ⟨(p.objects k).channel.events, k⟩) ↔
      ((p.objects k).index = kAdded → (p.objects k).channel.isNoneEvent = false) := by
    intro k
    have hk := h.stage k
    generalize p.objects k = o at hk ⊢
    generalize p.channels (fd k) = c at hk
    generalize p.epoll (fd k) = e at hk ⊢
    cases hk with
    | new _ idle => simp [Channel.events_eq_none_iff, idle, kNew, kAdded]
    | added _ => simp [Channel.events_eq_none_iff]
    | deleted _ idle => simp [Channel.events_eq_none_iff, idle, kDeleted, kAdded]
  constructor
  · exact fun hm k => (hmask k).mp (hm.mask k)
  · exact fun hs => ⟨fun k => (hmask k).mpr (hs k), h.valid, h.mapped⟩

section Runs
variable [DecidableEq κ] {p : EPollPoller κ} {k : κ}

theorem stirred_put {o : PolledChannel} {c : Option κ} {e : Option (EpollEvent κ)}
    {ctls : List EpollCtl} (h : Stirred p) :
    Stirred (p.put fd k o c e ctls) ↔ (o.index = kAdded → o.channel.isNoneEvent = false) := by
  constructor
  · intro ht
    simpa [put] using ht k
  · intro ho j
    by_cases hj : j = k
    · subst hj
      simpa [put] using ho
    · simpa [put, hj] using h j

theorem step_update (hfd : Function.Injective fd) (h : Inv fd p) (op : InterestOp) :
    ∃ q, (machine fd).step p (.update op k) = .ok q ∧ Inv fd q ∧
      (Stirred p → (Stirred q ↔ Quiets p (.update op k))) := by
  have hk := h.stage k
  generalize ho : p.objects k = o at hk ⊢
  generalize hc : p.channels (fd k) = c at hk
  generalize he : p.epoll (fd k) = e at hk
  cases hk with
  | @new ch revents _ idle =>
    refine ⟨_, step_update_absent ho he (.inl ⟨rfl, hc⟩),
      h.put hfd (.added (by simp)) (by simp [EpollCtl.Valid]), fun hs => ?_⟩
    rw [stirred_put hs]
    simp [Quiets, ho, idle]
  | @deleted ch revents _ idle =>
    refine ⟨_, step_update_absent ho he (.inr ⟨rfl, hc⟩),
      h.put hfd (.added (by simp)) (by simp [EpollCtl.Valid]), fun hs => ?_⟩
    rw [stirred_put hs]
    simp [Quiets, ho, idle]
  | @added ch revents registered =>
    refine ⟨_, step_update_added ho hc he, ?_, fun hs => ?_⟩
    · split
      · next hidle => exact h.put hfd (.deleted (by simp) hidle) (by simp [EpollCtl.Valid])
      · exact h.put hfd (.added (by simp)) (by simp [EpollCtl.Valid])
    · have hactive : ch.isNoneEvent = false := by simpa [ho] using hs k
      split
      · rw [stirred_put hs]
        simp [Quiets, ho, hactive, kAdded, kDeleted]
      · next hidle =>
        rw [stirred_put hs]
        simp [Quiets, ho, hactive, hidle]

theorem step_removal (hfd : Function.Injective fd) (h : Inv fd p)
    (hreg : (p.objects k).channel.addedToLoop = true)
    (hidle : (p.objects k).channel.isNoneEvent = true) :
    ∃ q, (machine fd).step p (.remove k) = .ok q ∧ Inv fd q ∧ (Stirred p → Stirred q) := by
  have hk := h.stage k
  generalize ho : p.objects k = o at hk hreg hidle
  generalize hc : p.channels (fd k) = c at hk
  generalize he : p.epoll (fd k) = e at hk
  cases hk with
  | new removed _ => simp [removed] at hreg
  | added _ =>
    refine ⟨_, step_remove ho hc hidle he (.inl ⟨rfl, rfl⟩),
      h.put hfd (.new rfl hidle) (by simp [EpollCtl.Valid]), fun hs => ?_⟩
    rw [stirred_put hs]
    simp [kNew, kAdded]
  | deleted _ _ =>
    refine ⟨_, step_remove ho hc hidle he (.inr ⟨rfl, rfl⟩),
      h.put hfd (.new rfl hidle) (by simp [kAdded, kDeleted]), fun hs => ?_⟩
    rw [stirred_put hs]
    simp [kNew, kAdded]

/-- A call within its precondition succeeds, and keeps the kernel's masks right exactly
when it quiets only what was stirred. -/
theorem step_ok (hfd : Function.Injective fd) (h : Inv fd p) {a : PollerCall κ}
    (he : (machine fd).enabled p a) :
    ∃ q, (machine fd).step p a = .ok q ∧ Inv fd q ∧ (Stirred p → (Stirred q ↔ Quiets p a)) := by
  cases a with
  | update op k => exact step_update hfd h op
  | remove k =>
    obtain ⟨q, hs, hq, hst⟩ := step_removal hfd h he.1 he.2
    exact ⟨q, hs, hq, fun hp => iff_of_true (hst hp) trivial⟩

theorem inv_run (hfd : Function.Injective fd) {calls : List (PollerCall κ)}
    (h : (machine fd).Run new calls p) : Inv fd p := by
  apply h.invariant _ inv_new
  intro p a q hp he hs
  obtain ⟨q', hs', hq, _⟩ := step_ok hfd hp he
  rw [hs] at hs'
  cases hs'
  exact hq

/-- The poller and the kernel follow the channels through a run, in which no call faults,
exactly when no call quiets a channel that had no interest. -/
theorem epoll_mirrors_interest (hfd : Function.Injective fd) (calls : List (PollerCall κ))
    (h : (machine fd).Run new calls p) :
    ((machine fd).Throughout new calls (Mirrors fd) ↔ (machine fd).EveryStep new calls Quiets) ∧
      ∀ a, (machine fd).enabled p a → ∃ q, (machine fd).step p a = .ok q := by
  have hstart : Mirrors fd (new : EPollPoller κ) :=
    inv_new.mirrors_iff.mpr fun k hidx => by simp [new, PolledChannel.new, kAdded] at hidx
  refine ⟨h.throughout_iff (I := Inv fd) ?_ inv_new hstart, fun a he => ?_⟩
  · intro p a q hp hm he hs
    obtain ⟨q', hs', hq, hst⟩ := step_ok hfd hp he
    rw [hs] at hs'
    cases hs'
    rw [hq.mirrors_iff]
    exact ⟨hq, hst (hp.mirrors_iff.mp hm)⟩
  · obtain ⟨q, hs, _⟩ := step_ok hfd (inv_run hfd h) he
    exact ⟨q, hs⟩

end Runs

instance enabledDecidable [DecidableEq κ] (p : EPollPoller κ) (a : PollerCall κ) :
    Decidable ((machine fd).enabled p a) := by
  cases a <;> unfold machine <;> infer_instance

instance quietsDecidable (p : EPollPoller κ) (a : PollerCall κ) : Decidable (Quiets p a) := by
  cases a <;> unfold Quiets <;> infer_instance

/-- Two channels: one is disabled and removed, the other is disabled and read again. -/
theorem epoll_mirrors_interest_sample : ∃ p : EPollPoller Nat,
    (machine Nat.cast).Run new [.update .enableReading 4, .update .enableReading 5,
      .update .enableWriting 5, .update .disableAll 4, .remove 4, .update .disableAll 5,
      .update .enableReading 5] p ∧
    (machine Nat.cast).Throughout new [.update .enableReading 4, .update .enableReading 5,
      .update .enableWriting 5, .update .disableAll 4, .remove 4, .update .disableAll 5,
      .update .enableReading 5] (Mirrors Nat.cast) := by
  have h : ((machine Nat.cast).restrict Quiets).Run (new : EPollPoller Nat)
      [.update .enableReading 4, .update .enableReading 5, .update .enableWriting 5,
        .update .disableAll 4, .remove 4, .update .disableAll 5, .update .enableReading 5] _ :=
    Machine.run_of_exec rfl
  obtain ⟨hr, hk⟩ := Machine.run_restrict.mp h
  exact ⟨_, hr, (epoll_mirrors_interest (fun _ _ => Int.natCast_inj.mp) _ hr).1.mpr hk⟩

/-- `connectEstablished`, `stopRead` and `forceClose`: the second quiet call puts the
descriptor back, with an empty mask. -/
theorem quiet_channel_added : ¬ ∀ (calls : List (PollerCall Nat)) (p : EPollPoller Nat),
    (machine Nat.cast).Run new calls p → Mirrors Nat.cast p := by
  intro h
  have hr : (machine Nat.cast).Run (new : EPollPoller Nat)
      [.update .enableReading 4, .update .disableReading 4, .update .disableAll 4] _ :=
    Machine.run_of_exec rfl
  have hmask := (h _ _ hr).mask 4
  exact absurd hmask (by decide)

end Muduo.Net.EPollPoller
