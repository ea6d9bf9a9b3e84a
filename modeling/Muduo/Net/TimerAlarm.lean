import Mathlib.Data.List.Forall2
import Muduo.Net.TimerOwnership

/-! One `handleRead` from its call to its return, with callbacks that cancel nothing. -/
namespace Muduo.Net

def TimerEvent.invocation : TimerEvent → Option Nat
  | .invoked q => some q
  | .created _ | .cancelled _ | .restarted _ | .deleted _ | .resetTimerfd _ => none

namespace TimerQueue
open Muduo.Base Muduo.Support

/-- The numbers of the timers whose callbacks were invoked, in order. -/
def invocations (log : List TimerEvent) : List Nat := log.filterMap TimerEvent.invocation

/-- The queued entries whose time has come, in the order of the set. -/
def due (s : TimerQueue) (now : Timestamp) : List Entry :=
  s.timers.toList.filter fun e => decide (e.first ≤ now)

/-- What happens inside a `handleRead` whose callbacks add timers and cancel none. -/
def Call.addsOnly : Call → Prop
  | .addTimer .. | .runNext | .createElsewhere _ => True
  | .cancel _ | .handleRead _ | .finishRead => False

/-- A `handleRead` at `now` that began in `s` and returned in `t`, the calls `body` in between. -/
structure RanDue (s : TimerQueue) (now : Timestamp) (body : List Call) (t : TimerQueue) : Prop where
  /-- The due timers in order of their times, each once. -/
  order : (∀ e, e ∈ s.due now ↔ e ∈ s.timers ∧ e.first ≤ now) ∧ (s.due now).Nodup ∧
    (s.due now).Pairwise fun e e' => e.first ≤ e'.first
  /-- Their callbacks and no others were invoked, in that order. -/
  invoked : ∃ ran, invocations t.log = invocations s.log ++ ran ∧ ran.Nodup ∧
    List.Forall₂ (fun e q => ⟨e.second, q⟩ ∈ s.activeTimers) (s.due now) ran
  oneShot : ∀ e ∈ s.due now, ∀ u, s.heap e.second = some u → u.interval = none →
    .deleted u.sequence ∈ t.log ∧ t.heap e.second = none
  repeating : ∀ e ∈ s.due now, ∀ u i, s.heap e.second = some u → u.interval = some i →
    t.heap e.second = some { u with expiration := now + i } ∧ ⟨now + i, e.second⟩ ∈ t.timers
  other : ∀ e ∈ s.timers, now < e.first → t.heap e.second = s.heap e.second ∧ e ∈ t.timers
  /-- Nothing else is queued but what the callbacks added. -/
  queued : ∀ w a, ⟨w, a⟩ ∈ t.timers ↔ (⟨w, a⟩ ∈ s.timers ∧ now < w) ∨
    (∃ v u i, ⟨v, a⟩ ∈ s.due now ∧ s.heap a = some u ∧ u.interval = some i ∧ w = now + i) ∨
    ∃ i, .addTimer a w i ∈ body

/-- Inside that `handleRead`, behind the calls `body`. -/
structure Alarm (s : TimerQueue) (now : Timestamp) (body : List Call) (t : TimerQueue) : Prop where
  inv : Inv t
  batch : ∃ done todo ran, t.batch = some ⟨s.due now, todo, now⟩ ∧ s.due now = done ++ todo ∧
    invocations t.log = invocations s.log ++ ran ∧
    List.Forall₂ (fun e q => ∃ u, s.heap e.second = some u ∧ u.sequence = q) done ran
  unmarked : t.cancelingTimers = .empty
  old : ∀ a u, s.heap a = some u → t.heap a = some u
  added : ∀ a w, s.heap a = none →
    ((∃ u, t.heap a = some u ∧ u.expiration = w) ↔ ∃ i, .addTimer a w i ∈ body)
  fresh : ∀ a w i, .addTimer a w i ∈ body → s.heap a = none

variable {s t t' : TimerQueue} {now : Timestamp} {body : List Call} {c : Call}

theorem mem_due {e : Entry} : e ∈ s.due now ↔ e ∈ s.timers ∧ e.first ≤ now := by
  simp [due]

/-- No address reaches the sentry, so `lower_bound` cuts exactly behind `now`. -/
theorem before_sentry (h : Inv s) : s.timers.before ⟨now, UINTPTR_MAX⟩ = s.due now := by
  apply List.filter_congr
  intro e he
  obtain ⟨u, hu, _⟩ := (h.indexed.timers e.first e.second).mp he
  have haddr := h.numbered.address _ _ hu
  apply decide_eq_decide.mpr
  rw [StdPair.lt_iff]
  constructor
  · rintro (hlt | ⟨heq, _⟩)
    · exact hlt.le
    · exact heq.le
  · intro hle
    rcases hle.lt_or_eq with hlt | heq
    · exact .inl hlt
    · exact .inr ⟨heq, haddr⟩

theorem due_live (h : Inv s) {e : Entry} (he : e ∈ s.due now) :
    ∃ u, s.heap e.second = some u ∧ u.expiration = e.first := by
  obtain ⟨u, hu, hw, _⟩ := (h.indexed.timers e.first e.second).mp (mem_due.mp he).1
  exact ⟨u, hu, hw⟩

theorem invocations_append (log extra : List TimerEvent) :
    invocations (log ++ extra) = invocations log ++ invocations extra := List.filterMap_append

theorem invocations_internal {extra : List TimerEvent} (h : ∀ e ∈ extra, e.internal) :
    invocations extra = [] := by
  apply List.filterMap_eq_nil_iff.mpr
  intro e he
  have hi := h e he
  cases e <;> first | rfl | exact hi.elim

theorem Alarm.start (h : Inv s) (hb : s.batch = none) (hs : s.handleRead now = .ok t) :
    Alarm s now [] t := by
  obtain ⟨t', expired, hok, hi, hb', hheap, _, hlog, hc, rfl⟩ := handleRead_spec h hb now
  cases hs.symm.trans hok
  rw [before_sentry h] at hb'
  constructor
  · exact hi
  · exact ⟨[], s.due now, [], hb', rfl, by rw [hlog, List.append_nil], .nil⟩
  · exact hc
  · intro a u hu
    rw [hheap]
    exact hu
  · intro a w ha
    simp [hheap, ha]
  · exact fun a w i hm => absurd hm List.not_mem_nil

theorem Alarm.addTimer (h : Alarm s now body t) {a : Addr} {w : Timestamp} {i : Option Nat}
    (ha : t.heap a = none) (hlt : a < UINTPTR_MAX) (hs : t.addTimer a w i = .ok t') :
    Alarm s now (body ++ [.addTimer a w i]) t' := by
  obtain ⟨t'', extra, hok, hi, hheap, _, hb, hc, hlog, hextra, _⟩ := addTimer_spec h.inv ha hlt w i
  cases hs.symm.trans hok
  have hsa : s.heap a = none := by
    apply Option.eq_none_iff_forall_ne_some.mpr
    intro u hu
    rw [h.old a u hu] at ha
    cases ha
  constructor
  · exact hi
  · obtain ⟨done, todo, ran, hbatch, hdue, hran, hdone⟩ := h.batch
    refine ⟨done, todo, ran, hb.trans hbatch, hdue, ?_, hdone⟩
    have hquiet : invocations extra = [] := invocations_internal hextra
    have hnew : invocations (.created ⟨a, t.numCreated + 1⟩ :: extra) = [] := hquiet
    rw [hlog, invocations_append, hnew, List.append_nil, hran]
  · exact hc.trans h.unmarked
  · intro b u hu
    rw [hheap]
    exact update_kept ha (h.old b u hu)
  · intro b v hb
    rw [hheap]
    by_cases hba : b = a
    · subst hba
      have hnot : ¬ ∃ j, .addTimer b v j ∈ body := by
        intro hj
        obtain ⟨u, hu, _⟩ := (h.added b v hb).mpr hj
        rw [hu] at ha
        cases ha
      simp only [List.mem_append, exists_or, hnot, false_or]
      simp [eq_comm]
    · simp only [List.mem_append, exists_or, ← h.added b v hb]
      simp [hba]
  · intro b v j hm
    rcases List.mem_append.mp hm with hm | hm
    · exact h.fresh b v j hm
    · cases List.mem_singleton.mp hm
      exact hsa

theorem Alarm.runNext (hi₀ : Inv s) (h : Alarm s now body t) {b : Batch} (hb : t.batch = some b)
    (hne : b.todo ≠ []) (hs : t.runNext b = .ok t') : Alarm s now (body ++ [.runNext]) t' := by
  obtain ⟨done, todo, ran, hbatch, hdue, hran, hdone⟩ := h.batch
  cases hb.symm.trans hbatch
  obtain ⟨e, todo, rfl⟩ := List.exists_cons_of_ne_nil hne
  obtain ⟨u, hu, hok, hi⟩ := runNext_spec h.inv hb rfl
  cases hs.symm.trans hok
  constructor
  · exact hi
  · refine ⟨done ++ [e], todo, ran ++ [u.sequence], rfl, by rw [hdue]; simp, ?_, ?_⟩
    · rw [invocations_append, hran, List.append_assoc]
      rfl
    · apply List.rel_append hdone
      have he : e ∈ s.due now := by
        rw [hdue]
        exact List.mem_append_right _ List.mem_cons_self
      obtain ⟨v, hv, _⟩ := due_live hi₀ he
      cases hu.symm.trans (h.old _ _ hv)
      exact .cons ⟨u, hv, rfl⟩ .nil
  · exact h.unmarked
  · exact h.old
  · intro a w ha
    simp [h.added a w ha]
  · intro a w i hm
    rcases List.mem_append.mp hm with hm | hm
    · exact h.fresh a w i hm
    · cases List.mem_singleton.mp hm

theorem Alarm.step (hi₀ : Inv s) (h : Alarm s now body t) (hc : c.addsOnly)
    (he : machine.enabled t c) (hs : machine.step t c = .ok t') :
    Alarm s now (body ++ [c]) t' := by
  cases c with
  | addTimer a w i =>
    obtain ⟨_, ha, _, hlt⟩ := he
    exact h.addTimer ha hlt hs
  | runNext =>
    obtain ⟨b, hb, hne⟩ := he
    simp only [machine, TimerQueue.step, Option.mem_def.mp hb] at hs
    exact h.runNext hi₀ hb hne hs
  | createElsewhere count =>
    have hi := step_keeps h.inv he hs
    cases hs
    refine ⟨hi, h.batch, h.unmarked, h.old, fun a w ha => ?_, fun a w i hm => ?_⟩
    · simp [h.added a w ha]
    · exact h.fresh a w i (by simpa using hm)
  | cancel id => exact hc.elim
  | handleRead now => exact hc.elim
  | finishRead => exact hc.elim

theorem Alarm.run (hi₀ : Inv s) {calls : List Call} (hr : machine.Run t calls t')
    (h : Alarm s now body t) (hc : ∀ c ∈ calls, c.addsOnly) : Alarm s now (body ++ calls) t' := by
  induction hr generalizing body with
  | nil => simpa using h
  | cons he hs _ ih =>
    obtain ⟨hc₁, hc⟩ := List.forall_mem_cons.mp hc
    have := ih (h.step hi₀ hc₁ he hs) hc
    rwa [List.append_assoc] at this

/-- A due timer behind `reset`, where no timer is marked. -/
theorem Alarm.reset_due (h : Alarm s now body t) {e : Entry} (he : e ∈ s.due now)
    {u : Timer} (hu : s.heap e.second = some u) : t.resetHeap now (s.due now) e.second =
      u.interval.map fun i => { u with expiration := now + i } := by
  unfold resetHeap afterReset
  rw [if_pos (List.mem_map_of_mem he), h.old _ _ hu, h.unmarked]
  cases hi : u.interval with
  | none => simp [Timer.repeats, hi]
  | some i => simp [Timer.repeats, Timer.restart, hi]

/-- The other timers behind `reset`. -/
theorem reset_other (hi₀ : Inv s) {a : Addr}
    (ha : ∀ u, s.heap a = some u → now < u.expiration) :
    t.resetHeap now (s.due now) a = t.heap a := by
  apply if_neg
  intro hm
  obtain ⟨e, he, rfl⟩ := List.mem_map.mp hm
  obtain ⟨u, hu, hw⟩ := due_live hi₀ he
  have hle := (mem_due.mp he).2
  rw [← hw] at hle
  exact absurd (ha u hu) (not_lt.mpr hle)

theorem queued_iff (h : Inv s) (hb : s.batch = none) {w : Timestamp} {a : Addr} :
    ⟨w, a⟩ ∈ s.timers ↔ ∃ u, s.heap a = some u ∧ u.expiration = w := by
  rw [h.indexed.timers]
  simp [running, hb]

theorem due_order (s : TimerQueue) (now : Timestamp) : (s.due now).Nodup ∧
    (s.due now).Pairwise fun e e' => e.first ≤ e'.first := by
  have hsorted : (s.due now).Pairwise fun e e' => e < e' := s.timers.sorted.filter _
  refine ⟨hsorted.imp ne_of_lt, hsorted.imp fun hlt => ?_⟩
  rcases StdPair.lt_iff.mp hlt with hlt | ⟨heq, _⟩
  · exact hlt.le
  · exact heq.le

theorem ran_nodup (h : Inv s) {ran : List Nat}
    (hran : List.Forall₂ (fun e q => ⟨e.second, q⟩ ∈ s.activeTimers) (s.due now) ran) :
    ran.Nodup := by
  have hboth := (List.forall₂_and_left (s.due now) ran).mpr ⟨fun e he => (mem_due.mp he).1, hran⟩
  refine (List.rel_nodup ⟨?_, ?_⟩ hboth).mp (due_order s now).1
  · rintro ⟨w, a⟩ ⟨w', a'⟩ q ⟨he, hq⟩ ⟨he', hq'⟩
    obtain ⟨u, hu, rfl, _⟩ := (h.indexed.active _ _).mp hq
    obtain ⟨v, hv, hvq, _⟩ := (h.indexed.active _ _).mp hq'
    obtain rfl : a = a' := h.numbered.unique hu hv hvq.symm
    obtain ⟨_, hx, rfl, _⟩ := (h.indexed.timers _ _).mp he
    obtain ⟨_, hy, rfl, _⟩ := (h.indexed.timers _ _).mp he'
    cases hx.symm.trans hy
    rfl
  · rintro e q q' ⟨_, hq⟩ ⟨_, hq'⟩
    obtain ⟨u, hu, rfl, _⟩ := (h.indexed.active _ _).mp hq
    obtain ⟨v, hv, rfl, _⟩ := (h.indexed.active _ _).mp hq'
    cases hu.symm.trans hv
    rfl

/-- `reset` gives each due timer its next expiration or none, and leaves the others. -/
structure Reset (s t t' : TimerQueue) (now : Timestamp) : Prop where
  due : ∀ e ∈ s.due now, ∀ u, s.heap e.second = some u →
    t'.heap e.second = u.interval.map fun i => { u with expiration := now + i }
  other : ∀ a, (∀ u, s.heap a = some u → now < u.expiration) → t'.heap a = t.heap a

theorem mem_due_iff (hi₀ : Inv s) (hb₀ : s.batch = none) {a : Addr} {u : Timer}
    (ha : s.heap a = some u) (v : Timestamp) :
    ⟨v, a⟩ ∈ s.due now ↔ u.expiration = v ∧ v ≤ now := by
  rw [mem_due, queued_iff hi₀ hb₀]
  simp [ha]

/-- What is queued behind the `reset` of a `handleRead`. -/
theorem Alarm.queued_after (hi₀ : Inv s) (hb₀ : s.batch = none) (h : Alarm s now body t)
    (hreset : Reset s t t' now) (hi : Inv t') (hb' : t'.batch = none) (w : Timestamp) (a : Addr) :
    ⟨w, a⟩ ∈ t'.timers ↔ (⟨w, a⟩ ∈ s.timers ∧ now < w) ∨
      (∃ v u i, ⟨v, a⟩ ∈ s.due now ∧ s.heap a = some u ∧ u.interval = some i ∧ w = now + i) ∨
      ∃ i, .addTimer a w i ∈ body := by
  rw [queued_iff hi hb', queued_iff hi₀ hb₀]
  cases ha : s.heap a with
  | none =>
    rw [hreset.other a (by simp [ha]), h.added a w ha]
    simp
  | some u =>
    have hadd : ¬ ∃ i, .addTimer a w i ∈ body := by
      rintro ⟨i, hm⟩
      rw [h.fresh a w i hm] at ha
      cases ha
    have hmem : ∀ v, ⟨v, a⟩ ∈ s.due now ↔ u.expiration = v ∧ v ≤ now :=
      mem_due_iff hi₀ hb₀ ha
    rcases lt_or_ge now u.expiration with hlt | hle
    · rw [hreset.other a (by simp [ha, hlt]), h.old a u ha]
      have hnot : ∀ v, ⟨v, a⟩ ∉ s.due now := by
        rintro v hv
        obtain ⟨rfl, hle⟩ := (hmem v).mp hv
        exact absurd hlt (not_lt.mpr hle)
      have hlater : u.expiration = w → now < w := by
        rintro rfl
        exact hlt
      simpa [hadd, hnot] using hlater
    · rw [hreset.due ⟨u.expiration, a⟩ ((hmem _).mpr ⟨rfl, hle⟩) u ha]
      cases hint : u.interval with
      | none =>
        have hpast : u.expiration = w → w ≤ now := by
          rintro rfl
          exact hle
        simpa [hadd, hint, hmem] using hpast
      | some i =>
        have hpast : now + i = w ↔
            u.expiration = w ∧ now < w ∨ u.expiration ≤ now ∧ w = now + i := by
          constructor
          · exact fun hw => .inr ⟨hle, hw.symm⟩
          · rintro (⟨rfl, hlt⟩ | ⟨_, hw⟩)
            · exact absurd hlt (not_lt.mpr hle)
            · exact hw.symm
        simpa [hadd, hint, hmem] using hpast

/-- What `reset` leaves of the heap, with every timer in the place that the alarm gives it. -/
theorem Alarm.finish (hi₀ : Inv s) (hb₀ : s.batch = none) (h : Alarm s now body t) {b : Batch}
    (hb : t.batch = some b) (htodo : b.todo = []) (hs : t.finishRead b = .ok t') :
    RanDue s now body t' := by
  obtain ⟨done, todo, ran, hbatch, hdue, hran, hdone⟩ := h.batch
  cases hb.symm.trans hbatch
  cases htodo
  rw [List.append_nil] at hdue
  subst hdue
  obtain ⟨t'', extra, hok, hi, hb', _, hheap, hlog, hextra, _⟩ := finishRead_spec h.inv hb
  cases hs.symm.trans hok
  have hrun : List.Forall₂ (fun e q => ⟨e.second, q⟩ ∈ s.activeTimers) (s.due now) ran := by
    apply hdone.imp
    rintro e q ⟨u, hu, rfl⟩
    apply (hi₀.indexed.active _ _).mpr
    refine ⟨u, hu, rfl, ?_⟩
    simp [running, hb₀]
  have hreset : Reset s t t' now := by
    constructor
    · intro e he u hu
      rw [hheap]
      exact h.reset_due he hu
    · intro a ha
      rw [hheap]
      exact reset_other hi₀ ha
  constructor
  · exact ⟨fun e => mem_due, due_order s now⟩
  · refine ⟨ran, ?_, ran_nodup hi₀ hrun, hrun⟩
    rw [hlog, invocations_append, invocations_internal hextra, List.append_nil, hran]
  · intro e he u hu hnone
    have hgone : t'.heap e.second = none := by rw [hreset.due e he u hu, hnone]; rfl
    have hcreated : .created ⟨e.second, u.sequence⟩ ∈ t'.log := by
      rw [hlog]
      exact List.mem_append_left _ (h.inv.numbered.live _ _ (h.old _ _ hu))
    refine ⟨(hi.numbered.deleted _).mpr ⟨⟨_, hcreated⟩, fun a v hv hq => ?_⟩, hgone⟩
    obtain rfl := (hi.numbered.created _ hcreated).2.2 a v hv hq
    exact absurd (hgone.symm.trans hv) (by simp)
  · intro e he u i hu hi'
    have hnew : t'.heap e.second = some { u with expiration := now + i } := by
      rw [hreset.due e he u hu, hi']
      rfl
    exact ⟨hnew, (queued_iff hi hb').mpr ⟨_, hnew, rfl⟩⟩
  · intro e he hlt
    obtain ⟨u, hu, hw⟩ := (queued_iff hi₀ hb₀).mp he
    have hkept : t'.heap e.second = s.heap e.second := by
      rw [hreset.other e.second, h.old _ _ hu, hu]
      intro v hv
      cases hu.symm.trans hv
      rwa [hw]
    exact ⟨hkept, (queued_iff hi hb').mpr ⟨u, hkept.trans hu, hw⟩⟩
  · exact h.queued_after hi₀ hb₀ hreset hi hb'

/-- In every reachable state an alarm runs exactly the due timers, and queues again those that
repeat. -/
theorem alarm_runs_due {cs : List Call} (h : machine.Run new cs s)
    (hr : machine.Run s (.handleRead now :: body ++ [.finishRead]) t)
    (hc : ∀ c ∈ body, c.addsOnly) : RanDue s now body t := by
  have hi := reachable_inv h
  obtain ⟨t₁, hr₁, hr₂⟩ := Machine.run_append.mp hr
  cases hr₁ with
  | cons hb hs hbody =>
    have halarm := Alarm.run hi hbody (Alarm.start hi hb hs) hc
    cases hr₂ with
    | cons he hfinish hnil =>
      cases hnil
      obtain ⟨b, hb', htodo⟩ := he
      simp only [machine, TimerQueue.step, Option.mem_def.mp hb'] at hfinish
      exact halarm.finish hi hb hb' htodo hfinish

/-- Two of the timers are due, one of them repeats, and its callback adds a timer that is
already due. -/
theorem alarm_runs_due_sample : ∃ s t, machine.Run new
      [.addTimer 1 5 none, .addTimer 2 5 (some 3), .addTimer 3 9 none] s ∧
    machine.Run s [.handleRead 7, .runNext, .runNext, .addTimer 4 6 none, .finishRead] t ∧
    RanDue s 7 [.runNext, .runNext, .addTimer 4 6 none] t := by
  obtain ⟨t, hr, _⟩ := machine.exists_run new
    ([.addTimer 1 5 none, .addTimer 2 5 (some 3), .addTimer 3 9 none] ++
      [.handleRead 7, .runNext, .runNext, .addTimer 4 6 none, .finishRead])
    callingExpiredTimers false (by decide)
  obtain ⟨s, hs, hr⟩ := Machine.run_append.mp hr
  refine ⟨s, t, hs, hr, alarm_runs_due hs hr fun c hc => ?_⟩
  simp only [List.mem_cons, List.not_mem_nil, or_false] at hc
  rcases hc with rfl | rfl | rfl <;> trivial

end TimerQueue
end Muduo.Net
