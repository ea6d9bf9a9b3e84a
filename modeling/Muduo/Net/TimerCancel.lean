import Muduo.Net.TimerOwnership

/-! When a cancelled timer never runs again: `cancelInLoop` marks a timer of the running
batch, and the marks are read by `reset` only, after the callbacks. -/
namespace Muduo.Net.TimerQueue
open Muduo.Base Muduo.Support

/-- After it is cancelled a timer is not invoked. -/
def NeverAgain (log : List TimerEvent) : Prop :=
  log.Pairwise fun e e' => ∀ id, e = .cancelled id → e' ≠ .invoked id.sequence

/-- The timer of `id` is in the running batch, and its callback is still to be invoked. -/
def Waits (s : TimerQueue) (id : TimerId) : Prop :=
  id.timer ∈ s.waiting ∧ ∃ t, s.heap id.timer = some t ∧ t.sequence = id.sequence

/-- The step cancels no timer whose turn in the running batch is still to come. -/
def CancelsNoWaiting (s : TimerQueue) : Call → Prop
  | .cancel id => ¬ s.Waits id
  | .addTimer .. | .handleRead _ | .runNext | .finishRead | .createElsewhere _ => True

instance (s : TimerQueue) (id : TimerId) : Decidable (s.Waits id) :=
  inferInstanceAs (Decidable
    (id.timer ∈ s.waiting ∧ ∃ t ∈ s.heap id.timer, t.sequence = id.sequence))

instance restrictedDecidable (s : TimerQueue) :
    (c : Call) → Decidable ((machine.restrict CancelsNoWaiting).enabled s c)
  | .cancel id =>
      inferInstanceAs (Decidable (machine.enabled s (.cancel id) ∧ ¬ s.Waits id))
  | .addTimer a w interval =>
      inferInstanceAs (Decidable (machine.enabled s (.addTimer a w interval) ∧ True))
  | .handleRead now => inferInstanceAs (Decidable (machine.enabled s (.handleRead now) ∧ True))
  | .runNext => inferInstanceAs (Decidable (machine.enabled s .runNext ∧ True))
  | .finishRead => inferInstanceAs (Decidable (machine.enabled s .finishRead ∧ True))
  | .createElsewhere count =>
      inferInstanceAs (Decidable (machine.enabled s (.createElsewhere count) ∧ True))

/-- A live timer with this number is marked in the running batch and had its turn. -/
def Settled (s : TimerQueue) (q : Nat) : Prop :=
  ∀ a t, s.heap a = some t → t.sequence = q →
    a ∈ s.running ∧ ⟨a, q⟩ ∈ s.cancelingTimers ∧ a ∉ s.waiting

structure Obeyed (s : TimerQueue) : Prop where
  inv : Inv s
  known : ∀ id, .cancelled id ∈ s.log → id.sequence ≤ s.numCreated
  settled : ∀ id, .cancelled id ∈ s.log → Settled s id.sequence
  never : NeverAgain s.log

variable {s s' : TimerQueue} {id : TimerId} {log extra : List TimerEvent} {q : Nat}

theorem NeverAgain.append (h : NeverAgain log) (hq : ∀ q, .invoked q ∉ extra) :
    NeverAgain (log ++ extra) := by
  apply List.pairwise_append.mpr
  refine ⟨h, ?_, ?_⟩
  · apply List.pairwise_of_forall_mem_list
    rintro e _ e' he' id _ rfl
    exact hq _ he'
  · rintro e _ e' he' id _ rfl
    exact hq _ he'

theorem NeverAgain.invoke (h : NeverAgain log)
    (hq : ∀ id, .cancelled id ∈ log → id.sequence ≠ q) : NeverAgain (log ++ [.invoked q]) := by
  apply List.pairwise_append.mpr
  refine ⟨h, List.pairwise_singleton _ _, ?_⟩
  rintro e he e' he' id rfl rfl
  cases List.mem_singleton.mp he'
  exact hq id he rfl

theorem NeverAgain.of_append (h : NeverAgain (log ++ extra)) : NeverAgain log :=
  (List.pairwise_append.mp h).1

theorem new_obeyed : Obeyed new :=
  ⟨new_inv, by simp [new], by simp [new], List.Pairwise.nil⟩

theorem Waits.batch (h : s.Waits id) : ∃ b, s.batch = some b := by
  cases hb : s.batch with
  | none =>
    obtain ⟨hw, _⟩ := h
    simp only [waiting, hb] at hw
    exact absurd hw List.not_mem_nil
  | some b => exact ⟨b, rfl⟩

/-- A queue that keeps its batch and its marks and creates no such timer. -/
theorem Settled.frame (h : Settled s q) (hb : s'.batch = s.batch)
    (hc : ∀ x ∈ s.cancelingTimers, x ∈ s'.cancelingTimers)
    (hh : ∀ a t, s'.heap a = some t → t.sequence = q → s.heap a = some t) : Settled s' q := by
  intro a t ht hq
  obtain ⟨hr, hm, hw⟩ := h a t (hh a t ht hq) hq
  simp only [running, waiting, hb]
  exact ⟨hr, hc _ hm, hw⟩

theorem Obeyed.addTimer (h : Obeyed s) {a : Addr} (ha : s.heap a = none) (hlt : a < UINTPTR_MAX)
    {w : Timestamp} {interval : Option Nat} (hs : s.addTimer a w interval = .ok s') :
    Obeyed s' := by
  obtain ⟨t, extra, hok, hi, hheap, hnum, hb, hc, hlog, hextra, _⟩ :=
    addTimer_spec h.inv ha hlt w interval
  cases hs.symm.trans hok
  have hold : ∀ id, .cancelled id ∈ s'.log → .cancelled id ∈ s.log := by
    intro id hid
    rw [hlog] at hid
    rcases List.mem_append.mp hid with hid | hid
    · exact hid
    · rcases List.mem_cons.mp hid with hid | hid
      · cases hid
      · exact (hextra _ hid).elim
  constructor
  · exact hi
  · intro id hid
    rw [hnum]
    exact (h.known id (hold id hid)).trans (Nat.le_succ _)
  · intro id hid
    apply (h.settled id (hold id hid)).frame hb
    · intro x hx
      rw [hc]
      exact hx
    · intro b u hu hq
      rw [hheap] at hu
      rcases update_some hu with ⟨rfl, rfl⟩ | ⟨_, hu⟩
      · have := h.known id (hold id hid)
        dsimp only at hq
        omega
      · exact hu
  · rw [hlog]
    apply h.never.append
    intro q hq
    rcases List.mem_cons.mp hq with hq | hq
    · cases hq
    · exact hextra _ hq

/-- A cancel of a timer whose turn is not to come settles it. -/
theorem Obeyed.cancel (h : Obeyed s) (hid : id = .null ∨ .created id ∈ s.log)
    (hk : ¬ s.Waits id) (hs : s.cancelInLoop id = .ok s') : Obeyed s' := by
  obtain ⟨t, extra, hok, hi, hb, hnum, hheap, _, hc, hmark, hlog, hextra, _⟩ :=
    cancelInLoop_spec h.inv id
  cases hs.symm.trans hok
  have hold : ∀ id', .cancelled id' ∈ s'.log → id' = id ∨ .cancelled id' ∈ s.log := by
    intro id' hid'
    rw [hlog] at hid'
    rcases List.mem_append.mp hid' with hid' | hid'
    · exact .inr hid'
    · rcases List.mem_cons.mp hid' with hid' | hid'
      · cases hid'
        exact .inl rfl
      · exact (hextra _ hid').elim
  constructor
  · exact hi
  · intro id' hid'
    rw [hnum]
    rcases hold id' hid' with rfl | hid'
    · rcases hid with rfl | hid
      · exact Nat.zero_le _
      · exact (h.inv.numbered.created _ hid).2.1
    · exact h.known id' hid'
  · intro id' hid'
    rcases hold id' hid' with rfl | hid'
    · intro a t ht hq
      have hlive := h.inv.numbered.live a t (hheap a t ht)
      have ha : a = id'.timer := by
        rcases hid with rfl | hid
        · have := (h.inv.numbered.created _ hlive).1
          dsimp only [TimerId.null] at this hq
          omega
        · exact (h.inv.numbered.created _ hid).2.2 a t (hheap a t ht) hq
      subst ha
      obtain ⟨hr, hm⟩ := hmark t ht hq
      simp only [running, waiting, hb]
      exact ⟨hr, hm, fun hw => hk ⟨hw, t, hheap _ t ht, hq⟩⟩
    · exact (h.settled id' hid').frame hb hc fun a t ht _ => hheap a t ht
  · rw [hlog]
    apply h.never.append
    intro q hq
    rcases List.mem_cons.mp hq with hq | hq
    · cases hq
    · exact hextra _ hq

/-- Between two batches no timer is checked out, so no settled timer is live. -/
theorem Obeyed.handleRead (h : Obeyed s) (hb : s.batch = none) {now : Timestamp}
    (hs : s.handleRead now = .ok s') : Obeyed s' := by
  obtain ⟨t, expired, hok, hi, hb', hheap, hnum, hlog, _⟩ := handleRead_spec h.inv hb now
  cases hs.symm.trans hok
  constructor
  · exact hi
  · rw [hlog, hnum]
    exact h.known
  · intro id hid a t ht hq
    rw [hlog] at hid
    rw [hheap] at ht
    obtain ⟨hr, _⟩ := h.settled id hid a t ht hq
    simp only [running, hb] at hr
    exact absurd hr List.not_mem_nil
  · rw [hlog]
    exact h.never

theorem Obeyed.runNext (h : Obeyed s) {b : Batch} (hb : s.batch = some b) (hne : b.todo ≠ [])
    (hs : s.runNext b = .ok s') : Obeyed s' := by
  obtain ⟨e, todo, htodo⟩ := List.exists_cons_of_ne_nil hne
  obtain ⟨t, ht, hok, hi⟩ := runNext_spec h.inv hb htodo
  cases hs.symm.trans hok
  have hw : s.waiting = e.second :: todo.map StdPair.second := by
    simp only [waiting, hb, htodo, List.map_cons]
  have hold : ∀ id, .cancelled id ∈ s.log ++ [.invoked t.sequence] → .cancelled id ∈ s.log := by
    intro id hid
    rcases List.mem_append.mp hid with hid | hid
    · exact hid
    · cases List.mem_singleton.mp hid
  constructor
  · exact hi
  · exact fun id hid => h.known id (hold id hid)
  · intro id hid a u hu hq
    obtain ⟨hr, hm, hn⟩ := h.settled id (hold id hid) a u hu hq
    simp only [running, hb] at hr
    refine ⟨hr, hm, fun ha => hn ?_⟩
    rw [hw]
    exact List.mem_cons_of_mem _ ha
  · apply h.never.invoke
    intro id hid hq
    obtain ⟨_, _, hn⟩ := h.settled id hid e.second t ht hq.symm
    apply hn
    rw [hw]
    exact List.mem_cons_self

/-- `reset` reads the marks. -/
theorem Obeyed.finishRead (h : Obeyed s) {b : Batch} (hb : s.batch = some b)
    (hs : s.finishRead b = .ok s') : Obeyed s' := by
  obtain ⟨t, extra, hok, hi, hb', hnum, hheap, hlog, hextra, _⟩ := finishRead_spec h.inv hb
  cases hs.symm.trans hok
  have hold : ∀ id, .cancelled id ∈ s'.log → .cancelled id ∈ s.log := by
    intro id hid
    rw [hlog] at hid
    rcases List.mem_append.mp hid with hid | hid
    · exact hid
    · exact (hextra _ hid).elim
  constructor
  · exact hi
  · intro id hid
    rw [hnum]
    exact h.known id (hold id hid)
  · intro id hid a t' ht' hq
    rw [hheap] at ht'
    obtain ⟨t, ht, hseq, hmark⟩ := resetHeap_kept ht'
    have htq : t.sequence = id.sequence := hseq.trans hq
    obtain ⟨hr, hm, _⟩ := h.settled id (hold id hid) a t ht htq
    simp only [running, hb] at hr
    exact absurd (htq ▸ hm) (hmark hr)
  · rw [hlog]
    apply h.never.append
    intro q hq
    exact hextra _ hq

theorem step_obeyed (h : Obeyed s) {c : Call} (he : machine.enabled s c)
    (hk : s.CancelsNoWaiting c) (hs : machine.step s c = .ok s') : Obeyed s' := by
  cases c with
  | addTimer a w interval =>
    obtain ⟨_, ha, _, hlt⟩ := he
    exact h.addTimer ha hlt hs
  | cancel id => exact h.cancel he.2 hk hs
  | handleRead now => exact h.handleRead he hs
  | runNext =>
    obtain ⟨b, hb, hne⟩ := he
    rw [step_runNext hb] at hs
    exact h.runNext hb hne hs
  | finishRead =>
    obtain ⟨b, hb, _⟩ := he
    rw [step_finishRead hb] at hs
    exact h.finishRead hb hs
  | createElsewhere count =>
    have hi := step_keeps h.inv he hs
    cases hs
    exact ⟨hi, fun id hid => (h.known id hid).trans (Nat.le_add_right _ _), h.settled, h.never⟩

/-- A cancelled timer was invoked, or its turn is still to come. -/
def Doomed (s : TimerQueue) : Prop :=
  NeverAgain s.log → ∃ id, .cancelled id ∈ s.log ∧ s.Waits id

theorem Waits.frame (h : s.Waits id) (hb : s'.batch = s.batch)
    (hh : ∀ t, s.heap id.timer = some t → s'.heap id.timer = some t) : s'.Waits id := by
  obtain ⟨hw, t, ht, hq⟩ := h
  refine ⟨?_, t, hh t ht, hq⟩
  simp only [waiting, hb]
  exact hw

theorem Doomed.frame (h : Doomed s) (hlog : s'.log = s.log ++ extra) (hb : s'.batch = s.batch)
    (hh : ∀ a ∈ s.waiting, ∀ t, s.heap a = some t → s'.heap a = some t) : Doomed s' := by
  intro hn
  rw [hlog] at hn
  obtain ⟨id, hid, hw⟩ := h hn.of_append
  refine ⟨id, ?_, hw.frame hb (hh _ hw.1)⟩
  rw [hlog]
  exact List.mem_append_left _ hid

theorem step_dooms (h : Inv s) {c : Call} (hk : ¬ s.CancelsNoWaiting c)
    (hs : machine.step s c = .ok s') : Doomed s' := by
  cases c with
  | cancel id =>
    obtain ⟨t, extra, hok, _, hb, _, _, hkeep, _, _, hlog, _⟩ := cancelInLoop_spec h id
    cases hs.symm.trans hok
    have hw : s.Waits id := Classical.not_not.mp hk
    refine fun _ => ⟨id, ?_, hw.frame hb fun t ht => ?_⟩
    · rw [hlog]
      exact List.mem_append_right _ List.mem_cons_self
    · rw [hkeep _ (waiting_subset h _ hw.1)]
      exact ht
  | addTimer => exact absurd trivial hk
  | handleRead => exact absurd trivial hk
  | runNext => exact absurd trivial hk
  | finishRead => exact absurd trivial hk
  | createElsewhere => exact absurd trivial hk

theorem Doomed.runNext (h : Doomed s) (hi : Inv s) {b : Batch} (hb : s.batch = some b)
    (hne : b.todo ≠ []) (hs : s.runNext b = .ok s') : Doomed s' := by
  obtain ⟨e, todo, htodo⟩ := List.exists_cons_of_ne_nil hne
  obtain ⟨t, ht, hok, _⟩ := runNext_spec hi hb htodo
  cases hs.symm.trans hok
  intro hn
  obtain ⟨id, hid, hw, u, hu, hq⟩ := h hn.of_append
  simp only [waiting, hb, htodo, List.map_cons] at hw
  rcases List.mem_cons.mp hw with ha | ha
  · -- its turn has come
    rw [ha] at hu
    cases ht.symm.trans hu
    have hlast := (List.pairwise_append.mp hn).2.2 _ hid _ List.mem_cons_self id rfl
    exact absurd (by rw [hq]) hlast
  · exact ⟨id, List.mem_append_left _ hid, ha, u, hu, hq⟩

theorem step_doomed (h : Doomed s) (hi : Inv s) {c : Call} (he : machine.enabled s c)
    (hs : machine.step s c = .ok s') : Doomed s' := by
  cases c with
  | addTimer a w interval =>
    obtain ⟨_, ha, _, hlt⟩ := he
    obtain ⟨t, extra, hok, _, hheap, _, hb, _, hlog, _⟩ := addTimer_spec hi ha hlt w interval
    cases hs.symm.trans hok
    apply h.frame hlog hb
    intro b _ u hu
    rw [hheap]
    exact update_kept ha hu
  | cancel id =>
    obtain ⟨t, extra, hok, _, hb, _, _, hkeep, _, _, hlog, _⟩ := cancelInLoop_spec hi id
    cases hs.symm.trans hok
    apply h.frame hlog hb
    intro a ha u hu
    rw [hkeep a (waiting_subset hi a ha)]
    exact hu
  | handleRead now =>
    obtain ⟨t, _, hok, _, _, _, _, hlog, _⟩ := handleRead_spec hi he now
    cases hs.symm.trans hok
    intro hn
    rw [hlog] at hn
    obtain ⟨id, _, hw⟩ := h hn
    obtain ⟨b, hb⟩ := hw.batch
    cases hb.symm.trans he
  | runNext =>
    obtain ⟨b, hb, hne⟩ := he
    rw [step_runNext hb] at hs
    exact h.runNext hi hb hne hs
  | finishRead =>
    obtain ⟨b, hb, htodo⟩ := he
    rw [step_finishRead hb] at hs
    obtain ⟨t, _, hok, _, _, _, _, hlog, _⟩ := finishRead_spec hi hb
    cases hs.symm.trans hok
    intro hn
    rw [hlog] at hn
    obtain ⟨id, _, hw, _⟩ := h hn.of_append
    simp only [waiting, Option.mem_def.mp hb, htodo] at hw
    exact absurd hw List.not_mem_nil
  | createElsewhere count =>
    cases hs
    exact h

/-- A cancelled timer never runs again in a run that cancels no timer of the running batch
ahead of its turn; in any other run one has by the end of the batch. -/
theorem cancelled_never_runs_iff {cs : List Call} (h : machine.Run new cs s) :
    (machine.EveryStep new cs CancelsNoWaiting → NeverAgain s.log) ∧
      (s.batch = none → (NeverAgain s.log ↔ machine.EveryStep new cs CancelsNoWaiting)) := by
  have hgood : machine.EveryStep new cs CancelsNoWaiting → NeverAgain s.log := by
    intro hk
    have ho : Obeyed s := h.invariant_of_everyStep
      (fun _ _ _ ho he hk hs => step_obeyed ho he hk hs) hk new_obeyed
    exact ho.never
  refine ⟨hgood, fun hb => ⟨fun hn => ?_, hgood⟩⟩
  by_contra hk
  have hd : Doomed s := h.invariant_of_not_everyStep (J := Inv)
    (fun _ _ _ hi he hs => step_keeps hi he hs) (fun _ _ _ hi _ hk hs => step_dooms hi hk hs)
    (fun _ _ _ hi hd he hs => step_doomed hd hi he hs) new_inv hk
  obtain ⟨id, _, hw⟩ := hd hn
  obtain ⟨b, hb'⟩ := hw.batch
  cases hb'.symm.trans hb

/-- A repeating timer that is cancelled by its own callback. -/
theorem self_cancel_never_runs : ∃ s, machine.Run new [.addTimer 1 5 (some 3), .handleRead 7,
    .runNext, .cancel ⟨1, 1⟩, .finishRead, .handleRead 20] s ∧ NeverAgain s.log := by
  obtain ⟨s, hr, _⟩ := (machine.restrict CancelsNoWaiting).exists_run new [.addTimer 1 5 (some 3),
    .handleRead 7, .runNext, .cancel ⟨1, 1⟩, .finishRead, .handleRead 20] callingExpiredTimers true
    (by decide)
  obtain ⟨hr, hk⟩ := Machine.run_restrict.mp hr
  exact ⟨s, hr, (cancelled_never_runs_iff hr).1 hk⟩

/-- Two timers expire together. The callback of the first cancels the second, which runs. -/
theorem cancelled_in_batch_runs : ∃ s, machine.Run new [.addTimer 1 5 none, .addTimer 2 5 none,
    .handleRead 7, .runNext, .cancel ⟨2, 2⟩, .runNext, .finishRead] s ∧ ¬ NeverAgain s.log := by
  obtain ⟨s, hr, hlog⟩ := machine.exists_run new [.addTimer 1 5 none, .addTimer 2 5 none,
    .handleRead 7, .runNext, .cancel ⟨2, 2⟩, .runNext, .finishRead] log [.created ⟨1, 1⟩,
      .resetTimerfd 5, .created ⟨2, 2⟩, .invoked 1, .cancelled ⟨2, 2⟩, .invoked 2, .deleted 1,
      .deleted 2] (by decide)
  refine ⟨s, hr, ?_⟩
  rw [hlog]
  simp [NeverAgain]

end Muduo.Net.TimerQueue
