import Mathlib.Algebra.Order.Monoid.Unbundled.MinMax
import Muduo.Net.TimerAlarm

/-! A timer queue beside its timerfd. The clock that `Timestamp::now()` reads and the clock
of the timerfd agree, and do not move between a reading and the `timerfd_settime` behind it. -/
namespace Muduo.Net
open Muduo.Base Muduo.Support

structure TimeSpec where
  tv_sec : Int
  tv_nsec : Int
  deriving DecidableEq, Repr

def TimeSpec.microseconds (ts : TimeSpec) : Int :=
  ts.tv_sec * Timestamp.kMicroSecondsPerSecond + ts.tv_nsec.tdiv 1000

def howMuchTimeFromNow (when now : Timestamp) : TimeSpec :=
  let microseconds := when - now
  let microseconds := if microseconds < 100 then 100 else microseconds
  { tv_sec := microseconds.tdiv Timestamp.kMicroSecondsPerSecond
    tv_nsec := microseconds.tmod Timestamp.kMicroSecondsPerSecond * 1000 }

/-- What `timerfd_settime` takes for an alarm: not the zero that disarms, and in range. -/
def TimeSpec.Sets (ts : TimeSpec) : Prop :=
  (ts.tv_sec ≠ 0 ∨ ts.tv_nsec ≠ 0) ∧ 0 ≤ ts.tv_nsec ∧ ts.tv_nsec < 1000000000

theorem howMuchTimeFromNow_sets (when now : Timestamp) : (howMuchTimeFromNow when now).Sets := by
  unfold howMuchTimeFromNow TimeSpec.Sets
  dsimp only
  split_ifs with hlt
  · decide
  · have hge : (100 : Int) ≤ when - now := not_lt.mp hlt
    rw [Int.tdiv_eq_ediv_of_nonneg (by omega), Int.tmod_eq_emod_of_nonneg (by omega)]
    simp only [Timestamp.kMicroSecondsPerSecond]
    omega

theorem howMuchTimeFromNow_microseconds (when now : Timestamp) :
    (howMuchTimeFromNow when now).microseconds = max (when - now) 100 := by
  unfold howMuchTimeFromNow TimeSpec.microseconds
  dsimp only
  split_ifs with hlt
  · rw [max_eq_right hlt.le]
    decide
  · have hge : (100 : Int) ≤ when - now := not_lt.mp hlt
    rw [max_eq_left hge, Int.mul_tdiv_cancel _ (by decide),
      Int.tdiv_eq_ediv_of_nonneg (by omega), Int.tmod_eq_emod_of_nonneg (by omega)]
    exact Int.ediv_mul_add_emod _ _

structure ArmedQueue where
  queue : TimerQueue
  /-- The deadline of the timerfd, which has not been read since it was set. -/
  timerfd : Option Timestamp
  lastArming : Timestamp
  clock : Timestamp
  /-- The values passed to `timerfd_settime`. -/
  settings : List TimeSpec

/-- An operation, the clock while it runs, and whether `readTimerfd` finds an expiration. -/
structure TimedCall where
  call : TimerQueue.Call
  now : Timestamp
  expired : Bool
  deriving DecidableEq, Repr

namespace TimerQueue
variable {s s' : TimerQueue} {a : Addr} {w : Timestamp} {e : Entry}

theorem first_le (h : s.timers.first = some e) : ∀ x ∈ s.timers, e.first ≤ x.first := by
  intro x hx
  rcases StdPair.le_iff.mp (OrderedSet.first_le h hx) with hlt | ⟨heq, _⟩
  · exact hlt.le
  · exact heq.le

theorem isEarliest_lt (h : s.isEarliest w = true) : ∀ x ∈ s.timers, w < x.first := by
  intro x hx
  obtain ⟨e, he⟩ := OrderedSet.exists_first hx
  simp only [isEarliest, he, decide_eq_true_eq] at h
  exact h.trans_le (first_le he x hx)

theorem exists_le_of_not_isEarliest (h : ¬ s.isEarliest w = true) : ∃ x ∈ s.timers, x.first ≤ w := by
  cases he : s.timers.first with
  | none => simp [isEarliest, he] at h
  | some e =>
    simp only [isEarliest, he, decide_eq_true_eq, not_lt] at h
    exact ⟨e, OrderedSet.first_mem he, h⟩

theorem nextExpire_le : ∀ x ∈ s.timers, s.nextExpire ≤ x.first := by
  intro x hx
  obtain ⟨e, he⟩ := OrderedSet.exists_first hx
  simp only [nextExpire, he]
  exact first_le he x hx

theorem exists_nextExpire (he : e ∈ s.timers) : ∃ x ∈ s.timers, x.first = s.nextExpire := by
  obtain ⟨x, hx⟩ := OrderedSet.exists_first he
  exact ⟨x, OrderedSet.first_mem hx, by simp only [nextExpire, hx]⟩

/-- A queued timer that an operation did not make was queued before. -/
theorem queued_before (h : Inv s) (h' : Inv s') (hb : s'.batch = s.batch)
    (hh : ∀ t, s'.heap e.second = some t → s.heap e.second = some t) (he : e ∈ s'.timers) :
    e ∈ s.timers := by
  obtain ⟨t, ht, hw, hout⟩ := (h'.indexed.timers e.first e.second).mp he
  refine (h.indexed.timers e.first e.second).mpr ⟨t, hh t ht, hw, ?_⟩
  simpa only [running, hb] using hout

theorem kept_or_restarted {es : List Entry} {now : Timestamp} {t : Timer}
    (h : s.resetHeap now es a = some t) :
    a ∉ es.map StdPair.second ∧ s.heap a = some t ∨ ∃ i : Nat, t.expiration = now + i := by
  unfold resetHeap at h
  split_ifs at h with ha
  · obtain ⟨u, _, hafter⟩ := Option.bind_eq_some_iff.mp h
    unfold afterReset at hafter
    split_ifs at hafter with hk
    cases hafter
    obtain ⟨i, hi⟩ := Option.isSome_iff_exists.mp hk.1
    exact .inr ⟨i, by simp only [Timer.restart, hi]⟩
  · exact .inl ⟨ha, h⟩

end TimerQueue

/-- The reading of the clock that the operation keeps. -/
def TimerQueue.Call.reading : TimerQueue.Call → Option Timestamp
  | .handleRead now => some now
  | .addTimer .. | .cancel _ | .runNext | .finishRead | .createElsewhere _ => none

namespace ArmedQueue

def new : ArmedQueue := ⟨.new, none, 0, 0, []⟩

/-- `resetTimerfd(expiration)` at the time `now`. -/
def resetTimerfd (now : Timestamp) (s : ArmedQueue) (expiration : Timestamp) : ArmedQueue :=
  let newValue := howMuchTimeFromNow expiration now
  { s with
    timerfd := some (now + newValue.microseconds)
    lastArming := now
    settings := s.settings ++ [newValue] }

/-- The timerfd is not periodic: a read that finds an expiration leaves it disarmed. -/
def readTimerfd (s : ArmedQueue) (c : TimedCall) : ArmedQueue :=
  if c.call.reading.isSome ∧ c.expired then { s with timerfd := none } else s

/-- The clock is positive and does not go back. -/
def enabled (s : ArmedQueue) (c : TimedCall) : Prop :=
  s.queue.enabled c.call ∧ 0 < c.now ∧ s.clock ≤ c.now ∧ ∀ now ∈ c.call.reading, now = c.now

/-- The operation on the queue, and on the timerfd what it says there. -/
def step (s : ArmedQueue) (c : TimedCall) : Except Fault ArmedQueue := do
  let queue ← s.queue.step c.call
  let armings := (queue.log.drop s.queue.log.length).filterMap TimerEvent.arming
  return armings.foldl (resetTimerfd c.now) { s.readTimerfd c with queue, clock := c.now }

def machine : Machine ArmedQueue TimedCall := ⟨enabled, step⟩

instance enabledDecidable (s : ArmedQueue) (c : TimedCall) : Decidable (machine.enabled s c) :=
  inferInstanceAs (Decidable (TimerQueue.machine.enabled s.queue c.call ∧ 0 < c.now ∧
    s.clock ≤ c.now ∧ ∀ now ∈ c.call.reading, now = c.now))

/-- The timerfd goes off by the time of the entry, or 100 microseconds after it was armed. -/
def Covers (s : ArmedQueue) (e : Entry) : Prop :=
  ∃ d ∈ s.timerfd, d ≤ max e.first (s.lastArming + 100)

/-- Between two `handleRead` every queued timer is covered. Inside one those are whose time is
no valid time: the arming at its end leaves them out. -/
structure Armed (s : ArmedQueue) : Prop where
  inv : s.queue.Inv
  reading : ∀ b, s.queue.batch = some b → 0 < b.now
  covers : ∀ e ∈ s.queue.timers, (s.queue.batch = none ∨ e.first ≤ 0) → s.Covers e
  sets : ∀ ts ∈ s.settings, ts.Sets

variable {s s' : ArmedQueue} {c : TimedCall} {e e' : Entry} {now w : Timestamp}

theorem new_armed : Armed new :=
  ⟨TimerQueue.new_inv, by simp [new, TimerQueue.new], by simp [new, TimerQueue.new], by simp [new]⟩

theorem Covers.mono (h : s.Covers e) (hle : e.first ≤ e'.first) : s.Covers e' := by
  obtain ⟨d, hd, hdle⟩ := h
  exact ⟨d, hd, hdle.trans (max_le_max_right _ hle)⟩

/-- Arming for `w` covers what is not in front of `w`. -/
theorem resetTimerfd_covers (hle : w ≤ e.first) : (s.resetTimerfd now w).Covers e := by
  refine ⟨_, rfl, ?_⟩
  have hw : now + (w - now) = w := (Int.add_comm _ _).trans (Int.sub_add_cancel w now)
  rw [howMuchTimeFromNow_microseconds, ← max_add_add_left, hw]
  exact max_le_max_right (now + 100) hle

theorem Armed.keep (h : Armed s) {queue : TimerQueue} (hi : queue.Inv)
    (hr : ∀ b, queue.batch = some b → 0 < b.now)
    (hc : ∀ e ∈ queue.timers, (queue.batch = none ∨ e.first ≤ 0) → s.Covers e) :
    Armed { s with queue, clock := now } :=
  ⟨hi, hr, hc, h.sets⟩

theorem Armed.arm (h : Armed s) {queue : TimerQueue} (hi : queue.Inv)
    (hr : ∀ b, queue.batch = some b → 0 < b.now) (hle : ∀ e ∈ queue.timers, w ≤ e.first) :
    Armed (resetTimerfd now { s with queue, clock := now } w) := by
  refine ⟨hi, hr, fun e he _ => resetTimerfd_covers (hle e he), ?_⟩
  intro ts hts
  rcases List.mem_append.mp hts with hts | hts
  · exact h.sets ts hts
  · rw [List.mem_singleton.mp hts]
    exact howMuchTimeFromNow_sets w now

/-- The effect of an operation, from what it adds to the log of the queue. -/
theorem step_eq (hs : s.step c = .ok s') {queue : TimerQueue} {extra : List TimerEvent}
    (hq : s.queue.step c.call = .ok queue) (hlog : queue.log = s.queue.log ++ extra) :
    s' = (extra.filterMap TimerEvent.arming).foldl (resetTimerfd c.now)
      { s.readTimerfd c with queue, clock := c.now } := by
  unfold step at hs
  rw [hq, ok_bind, hlog, List.drop_left] at hs
  cases hs
  rfl

variable {expired : Bool}

theorem Armed.addTimer (h : Armed s) {a : Addr} {interval : Option Nat}
    (ha : s.queue.heap a = none) (hlt : a < UINTPTR_MAX)
    (hs : s.step ⟨.addTimer a w interval, now, expired⟩ = .ok s') : Armed s' := by
  obtain ⟨queue, extra, hok, hi, hheap, _, hb, _, hlog, _, harm⟩ :=
    TimerQueue.addTimer_spec h.inv ha hlt w interval
  have harm' : (TimerEvent.created ⟨a, s.queue.numCreated + 1⟩ :: extra).filterMap
      TimerEvent.arming = if s.queue.isEarliest w then [w] else [] := harm
  obtain rfl := step_eq hs hok hlog
  have hr : ∀ b, queue.batch = some b → 0 < b.now := by
    rw [hb]
    exact h.reading
  have hold : ∀ e ∈ queue.timers, e.first = w ∨ e ∈ s.queue.timers := by
    intro e he
    by_cases hea : e.second = a
    · obtain ⟨t, ht, hw, _⟩ := (hi.indexed.timers e.first e.second).mp he
      rw [hheap, hea, Function.update_self] at ht
      cases ht
      exact .inl hw.symm
    · refine .inr (TimerQueue.queued_before h.inv hi hb (fun t ht => ?_) he)
      rwa [hheap, Function.update_of_ne hea] at ht
  rw [harm']
  by_cases hearly : s.queue.isEarliest w = true
  · rw [if_pos hearly]
    refine h.arm hi hr fun e he => ?_
    rcases hold e he with hw | he
    · exact hw.ge
    · exact (TimerQueue.isEarliest_lt hearly e he).le
  · rw [if_neg hearly]
    refine h.keep hi hr fun e he hneed => ?_
    rw [hb] at hneed
    rcases hold e he with hw | he
    · -- an entry not behind it is covered, and needed as well
      obtain ⟨x, hx, hle⟩ := TimerQueue.exists_le_of_not_isEarliest hearly
      have hxe : x.first ≤ e.first := hle.trans hw.ge
      exact (h.covers x hx (hneed.imp_right hxe.trans)).mono hxe
    · exact h.covers e he hneed

theorem Armed.cancel (h : Armed s) {id : TimerId}
    (hs : s.step ⟨.cancel id, now, expired⟩ = .ok s') : Armed s' := by
  obtain ⟨queue, extra, hok, hi, hb, _, hheap, _, _, _, hlog, _, harm⟩ :=
    TimerQueue.cancelInLoop_spec h.inv id
  obtain rfl := step_eq hs hok hlog
  have harm' : (TimerEvent.cancelled id :: extra).filterMap TimerEvent.arming = [] := harm
  rw [harm']
  refine h.keep hi (by rw [hb]; exact h.reading) fun e he hneed => ?_
  rw [hb] at hneed
  exact h.covers e (TimerQueue.queued_before h.inv hi hb (hheap e.second) he) hneed

/-- What stays in the queue is later than the clock. -/
theorem Armed.handleRead (h : Armed s) (hb : s.queue.batch = none) (hpos : 0 < now)
    (hs : s.step ⟨.handleRead now, now, expired⟩ = .ok s') : Armed s' := by
  obtain ⟨queue, es, hok, hi, hb', hheap, _, hlog, _, rfl⟩ :=
    TimerQueue.handleRead_spec h.inv hb now
  obtain rfl := step_eq hs hok (hlog.trans (List.append_nil _).symm)
  have hlater : ∀ e ∈ queue.timers, now < e.first := by
    intro e he
    obtain ⟨t, ht, hw, hout⟩ := (hi.indexed.timers e.first e.second).mp he
    rw [hheap] at ht
    have hq : e ∈ s.queue.timers := (TimerQueue.queued_iff h.inv hb).mpr ⟨t, ht, hw⟩
    simp only [TimerQueue.running, hb', TimerQueue.before_sentry h.inv] at hout
    by_contra hle
    exact hout (List.mem_map_of_mem (TimerQueue.mem_due.mpr ⟨hq, not_lt.mp hle⟩))
  constructor
  · exact hi
  · intro b hb₁
    cases hb'.symm.trans hb₁
    exact hpos
  · intro e he hneed
    rcases hneed with hnone | hle
    · cases hb'.symm.trans hnone
    · exact absurd (hpos.trans (hlater e he)) (not_lt.mpr hle)
  · intro ts hts
    apply h.sets
    unfold readTimerfd at hts
    split_ifs at hts <;> exact hts

theorem Armed.runNext (h : Armed s) {b : Batch} (hb : s.queue.batch = some b) (hne : b.todo ≠ [])
    (hs : s.step ⟨.runNext, now, expired⟩ = .ok s') : Armed s' := by
  obtain ⟨e, todo, htodo⟩ := List.exists_cons_of_ne_nil hne
  obtain ⟨t, _, hok, hi⟩ := TimerQueue.runNext_spec h.inv hb htodo
  have hq : s.queue.step .runNext = s.queue.runNext b := by simp only [TimerQueue.step, hb]
  obtain rfl := step_eq hs (hq.trans hok) rfl
  refine h.keep hi (fun b' hb' => ?_) fun e he hneed => ?_
  · cases hb'
    exact h.reading b hb
  · rcases hneed with hnone | hle
    · cases hnone
    · exact h.covers e he (.inr hle)

/-- The end of `handleRead` arms for the first entry, unless its time is no valid time. -/
theorem Armed.finishRead (h : Armed s) {b : Batch} (hb : s.queue.batch = some b)
    (hs : s.step ⟨.finishRead, now, expired⟩ = .ok s') : Armed s' := by
  obtain ⟨queue, extra, hok, hi, hb', _, hheap, hlog, _, harm⟩ :=
    TimerQueue.finishRead_spec h.inv hb
  have hq : s.queue.step .finishRead = s.queue.finishRead b := by simp only [TimerQueue.step, hb]
  obtain rfl := step_eq hs (hq.trans hok) hlog
  have hr : ∀ b, queue.batch = some b → 0 < b.now := by simp [hb']
  rw [harm]
  by_cases hv : queue.nextExpire.valid = true
  · rw [if_pos hv]
    exact h.arm hi hr TimerQueue.nextExpire_le
  · rw [if_neg hv]
    refine h.keep hi hr fun e he _ => ?_
    -- the first entry is not after 0, so it was queued before the restarts and is covered
    obtain ⟨x, hx, hfirst⟩ := TimerQueue.exists_nextExpire he
    have hle : x.first ≤ 0 := by
      rw [hfirst]
      simpa [Timestamp.valid] using hv
    have hcov : s.Covers x := by
      refine h.covers x ?_ (.inr hle)
      obtain ⟨t, ht, hw, _⟩ := (hi.indexed.timers x.first x.second).mp hx
      rw [hheap] at ht
      rcases TimerQueue.kept_or_restarted ht with ⟨hout, ht⟩ | ⟨i, hnew⟩
      · refine (h.inv.indexed.timers _ _).mpr ⟨t, ht, hw, ?_⟩
        simpa only [TimerQueue.running, hb] using hout
      · rw [← hw, hnew] at hle
        exact absurd (h.reading b hb) (not_lt.mpr ((Int.le_add_of_nonneg_right (Int.natCast_nonneg i)).trans hle))
    exact hcov.mono (hfirst.le.trans (TimerQueue.nextExpire_le e he))

theorem Armed.step (h : Armed s) (he : machine.enabled s c) (hs : machine.step s c = .ok s') :
    Armed s' := by
  obtain ⟨call, now, expired⟩ := c
  obtain ⟨he, hpos, _, hread⟩ := he
  cases call with
  | addTimer a w interval =>
    obtain ⟨_, ha, _, hlt⟩ := he
    exact h.addTimer ha hlt hs
  | cancel id => exact h.cancel hs
  | handleRead read =>
    obtain rfl := hread read rfl
    exact h.handleRead he hpos hs
  | runNext =>
    obtain ⟨b, hb, hne⟩ := he
    exact h.runNext hb hne hs
  | finishRead =>
    obtain ⟨b, hb, _⟩ := he
    exact h.finishRead hb hs
  | createElsewhere count =>
    have hi := TimerQueue.step_keeps h.inv (c := .createElsewhere count) he rfl
    have hlog : s.queue.log = s.queue.log ++ [] := (List.append_nil _).symm
    obtain rfl := step_eq hs rfl hlog
    exact h.keep hi h.reading h.covers

/-- Between two `handleRead` the timerfd goes off by the time of the first timer, or within 100
microseconds of its arming, and every value it was set to is a time of an alarm. -/
theorem timerfd_armed {cs : List TimedCall} (h : machine.Run new cs s) :
    (s.queue.batch = none → ∀ e, s.queue.timers.first = some e →
      ∃ d, s.timerfd = some d ∧ d ≤ max e.first (s.lastArming + 100)) ∧
    ∀ ts ∈ s.settings, (ts.tv_sec ≠ 0 ∨ ts.tv_nsec ≠ 0) ∧ 0 ≤ ts.tv_nsec ∧
      ts.tv_nsec < 1000000000 := by
  have harmed := h.invariant (fun _ _ _ hi he hs => Armed.step hi he hs) new_armed
  refine ⟨fun hb e he => ?_, harmed.sets⟩
  exact harmed.covers e (OrderedSet.first_mem he) (.inl hb)

/-- The alarm consumes the timerfd, and its callback adds a timer in the past. -/
theorem timerfd_armed_sample : ∃ s, machine.Run new [⟨.addTimer 1 5 none, 3, false⟩,
      ⟨.handleRead 105, 105, true⟩, ⟨.runNext, 105, false⟩, ⟨.addTimer 2 (-4) none, 106, false⟩,
      ⟨.finishRead, 107, false⟩] s ∧ s.queue.batch = none ∧
    ∃ d, s.timerfd = some d ∧ d ≤ max (-4) (s.lastArming + 100) := by
  obtain ⟨s, hr, hs⟩ := machine.exists_run new [⟨.addTimer 1 5 none, 3, false⟩,
    ⟨.handleRead 105, 105, true⟩, ⟨.runNext, 105, false⟩, ⟨.addTimer 2 (-4) none, 106, false⟩,
    ⟨.finishRead, 107, false⟩] (fun s => (s.queue.batch.isNone, s.queue.timers.first))
    (true, some ⟨-4, 2⟩) (by decide)
  obtain ⟨hb, hfirst⟩ := Prod.mk.inj hs
  have hnone := Option.isNone_iff_eq_none.mp hb
  exact ⟨s, hr, hnone, (timerfd_armed hr).1 hnone _ hfirst⟩

end ArmedQueue
end Muduo.Net
