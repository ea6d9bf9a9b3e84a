import Muduo.Net.TimerLog

/-! What every operation of a timer queue keeps. -/
namespace Muduo.Net.TimerQueue
open Muduo.Base Muduo.Support

/-- The timers checked out by the `handleRead` in progress. -/
def running (s : TimerQueue) : List Addr :=
  match s.batch with
  | some b => b.expired.map StdPair.second
  | none => []

/-- The timers of the batch whose callbacks have not been invoked. -/
def waiting (s : TimerQueue) : List Addr :=
  match s.batch with
  | some b => b.todo.map StdPair.second
  | none => []

structure Inv (s : TimerQueue) : Prop where
  indexed : Indexed s s.running
  numbered : Numbered s
  calling : s.callingExpiredTimers = s.batch.isSome
  todo : ∀ b, s.batch = some b → ∃ done, b.expired = done ++ b.todo

variable {s s' : TimerQueue} {out : List Addr} {a : Addr} {t : Timer} {b : Batch}

theorem new_inv : Inv new := ⟨new_indexed, new_numbered, rfl, by simp [new]⟩

theorem waiting_subset (h : Inv s) : ∀ a ∈ s.waiting, a ∈ s.running := by
  intro a ha
  cases hb : s.batch with
  | none =>
    simp only [waiting, hb] at ha
    exact absurd ha List.not_mem_nil
  | some b =>
    obtain ⟨done, hd⟩ := h.todo b hb
    simp only [waiting, hb] at ha
    simp only [running, hb, hd, List.map_append]
    exact List.mem_append_right _ ha

/-- A live timer is queued or checked out. -/
theorem live_cases (h : Indexed s out) (ht : s.heap a = some t) :
    ⟨a, t.sequence⟩ ∈ s.activeTimers ∨ a ∈ out := by
  by_cases ha : a ∈ out
  · exact .inr ha
  · exact .inl ((h.active _ _).mpr ⟨t, ht, rfl, ha⟩)

theorem addTimer_spec (h : Inv s) (ha : s.heap a = none) (hlt : a < UINTPTR_MAX) (w : Timestamp)
    (interval : Option Nat) : ∃ s' extra, s.addTimer a w interval = .ok s' ∧ Inv s' ∧
      s'.heap = Function.update s.heap a (some ⟨w, interval, s.numCreated + 1⟩) ∧
      s'.numCreated = s.numCreated + 1 ∧ s'.batch = s.batch ∧
      s'.cancelingTimers = s.cancelingTimers ∧
      s'.log = s.log ++ .created ⟨a, s.numCreated + 1⟩ :: extra ∧ (∀ e ∈ extra, e.internal) ∧
      extra.filterMap TimerEvent.arming = if s.isEarliest w then [w] else [] := by
  have hn := h.numbered.newTimer ha hlt w interval
  obtain ⟨t, timers, activeTimers, ht, hok, hi⟩ := (h.indexed.newTimer ha w interval).insert
  have htw : t = ⟨w, interval, s.numCreated + 1⟩ := by
    simpa [TimerQueue.newTimer, eq_comm] using ht
  have hn' : Numbered { (s.newTimer a w interval).1 with timers, activeTimers } :=
    hn.congr rfl le_rfl rfl
  have hadd : s.addTimer a w interval = (s.newTimer a w interval).1.addTimerInLoop a := rfl
  have hder : deref { (s.newTimer a w interval).1 with timers, activeTimers } a = .ok t :=
    deref_live ht
  rw [hadd, addTimerInLoop, hok, ok_bind]
  dsimp only
  have hw : t.expiration = w := congrArg Timer.expiration htw
  have hearliest : (s.newTimer a w interval).1.isEarliest t.expiration = s.isEarliest w := by
    rw [hw]
    rfl
  rw [hearliest]
  by_cases he : s.isEarliest w = true
  · rw [if_pos he, hder, ok_bind]
    refine ⟨_, [.resetTimerfd t.expiration], rfl,
      ⟨hi.congr rfl rfl rfl, hn'.note (by simp) (by simp) (fun _ => False.elim), h.calling,
        h.todo⟩, rfl, rfl, rfl, rfl, ?_, List.forall_mem_singleton.mpr trivial, ?_⟩
    · simp [note, TimerQueue.newTimer]
    · rw [hw, if_pos he]
      rfl
  · rw [if_neg he]
    exact ⟨_, [], rfl, ⟨hi, hn', h.calling, h.todo⟩, rfl, rfl, rfl, rfl, rfl, List.forall_mem_nil _,
      (if_neg he).symm⟩

private theorem cancelQueued_live {id : TimerId} (ht : s.heap id.timer = some t)
    (hone : (s.timers.erase ⟨t.expiration, id.timer⟩).2 = 1) : s.cancelQueued id = .ok { s with
      heap := Function.update s.heap id.timer none
      timers := (s.timers.erase ⟨t.expiration, id.timer⟩).1
      activeTimers := (s.activeTimers.erase ⟨id.timer, id.sequence⟩).1
      log := s.log ++ [.deleted t.sequence] } := by
  have hdel := deleteTimer_live
    (s := { s with timers := (s.timers.erase ⟨t.expiration, id.timer⟩).1 }) ht
  unfold cancelQueued
  simp only [deref_live ht, ok_bind, assert_true hone, hdel]
  rfl

/-- `cancelInLoop` deletes a queued timer; a timer in the running batch is only marked. -/
theorem cancelInLoop_spec (h : Inv s) (id : TimerId) : ∃ s' extra,
    s.cancelInLoop id = .ok s' ∧ Inv s' ∧ s'.batch = s.batch ∧ s'.numCreated = s.numCreated ∧
      (∀ a t, s'.heap a = some t → s.heap a = some t) ∧
      (∀ a ∈ s.running, s'.heap a = s.heap a) ∧
      (∀ x ∈ s.cancelingTimers, x ∈ s'.cancelingTimers) ∧
      (∀ t, s'.heap id.timer = some t → t.sequence = id.sequence →
        id.timer ∈ s.running ∧ ⟨id.timer, id.sequence⟩ ∈ s'.cancelingTimers) ∧
      s'.log = s.log ++ .cancelled id :: extra ∧ (∀ e ∈ extra, e.internal) ∧
      extra.filterMap TimerEvent.arming = [] := by
  have hn : Numbered (s.note (.cancelled id)) := h.numbered.note (by simp) (by simp)
    (fun _ => False.elim)
  have hi : Indexed (s.note (.cancelled id)) s.running := h.indexed.congr rfl rfl rfl
  unfold cancelInLoop
  simp only [assert_true h.indexed.sizes, ok_bind]
  by_cases hq : ⟨id.timer, id.sequence⟩ ∈ (s.note (.cancelled id)).activeTimers
  · obtain ⟨t, ht, hseq, hout⟩ := (hi.active _ _).mp hq
    obtain ⟨t', s₁, ht', hdel, hi₁, rfl⟩ := (hi.checkOut ht hout).deleteTimer
    cases ht.symm.trans ht'
    have hone := OrderedSet.erase_count ((hi.timers t.expiration id.timer).mpr ⟨t, ht, rfl, hout⟩)
    have hcancel := cancelQueued_live (s := s.note (.cancelled id)) ht hone
    have hi₂ : Indexed { s.note (.cancelled id) with
        heap := Function.update s.heap id.timer none
        timers := (s.timers.erase ⟨t.expiration, id.timer⟩).1
        activeTimers := (s.activeTimers.erase ⟨id.timer, id.sequence⟩).1
        log := s.log ++ [.cancelled id] ++ [.deleted t.sequence] } s.running :=
      hi₁.congr rfl rfl (by rw [hseq]; rfl)
    refine ⟨_, [.deleted t.sequence], ?_, ⟨hi₂, (hn.deleteTimer ht).congr rfl le_rfl rfl, h.calling,
      h.todo⟩, rfl, rfl, ?_, ?_, fun x hx => hx, ?_, ?_, List.forall_mem_singleton.mpr trivial, rfl⟩
    · rw [if_pos hq, hcancel]
      simp only [ok_bind]
      exact (congrArg (· >>= _) (assert_true hi₂.sizes)).trans rfl
    · intro a u hu
      by_cases ha : a = id.timer
      · simp [ha] at hu
      · simpa [ha] using hu
    · intro a ha
      apply Function.update_of_ne
      rintro rfl
      exact hout ha
    · intro u hu
      simp at hu
    · simp
  · have hlive : ∀ t, s.heap id.timer = some t → t.sequence = id.sequence →
        id.timer ∈ s.running := by
      intro t ht hs
      rcases live_cases hi ht with ha | ha
      · rw [hs] at ha
        exact absurd ha hq
      · exact ha
    rw [if_neg hq]
    by_cases hc : (s.note (.cancelled id)).callingExpiredTimers = true
    · have hi' : Indexed { s.note (.cancelled id) with
          cancelingTimers := (s.cancelingTimers.insert ⟨id.timer, id.sequence⟩).1 } s.running :=
        hi.congr rfl rfl rfl
      refine ⟨_, [], ?_, ⟨hi', hn.congr rfl le_rfl rfl, h.calling, h.todo⟩, rfl, rfl,
        fun _ _ hu => hu, fun _ _ => rfl, fun x hx => ?_, fun t ht hs => ⟨hlive t ht hs, ?_⟩, rfl,
        List.forall_mem_nil _, rfl⟩
      · rw [if_pos hc, pure_bind]
        exact (congrArg (· >>= _) (assert_true hi'.sizes)).trans rfl
      · exact OrderedSet.mem_insert.mpr (.inr hx)
      · exact OrderedSet.mem_insert.mpr (.inl rfl)
    · refine ⟨_, [], ?_, ⟨hi, hn, h.calling, h.todo⟩, rfl, rfl, fun _ _ hu => hu,
        fun _ _ => rfl, fun x hx => hx, fun t ht hs => ?_, rfl, List.forall_mem_nil _, rfl⟩
      · rw [if_neg hc, pure_bind]
        exact (congrArg (· >>= _) (assert_true hi.sizes)).trans rfl
      · have hb : s.batch = none := by
          have hcall : false = s.batch.isSome := (Bool.not_eq_true _ ▸ hc).symm.trans h.calling
          exact Option.isSome_eq_false_iff.mp hcall.symm |> Option.isNone_iff_eq_none.mp
        have hr := hlive t ht hs
        simp [running, hb] at hr

theorem handleRead_spec (h : Inv s) (hb : s.batch = none) (now : Timestamp) : ∃ s' expired,
    s.handleRead now = .ok s' ∧ Inv s' ∧ s'.batch = some ⟨expired, expired, now⟩ ∧
      s'.heap = s.heap ∧ s'.numCreated = s.numCreated ∧ s'.log = s.log ∧
      s'.cancelingTimers = .empty ∧ expired = s.timers.before ⟨now, UINTPTR_MAX⟩ := by
  have hi : Indexed s [] := by
    have hi := h.indexed
    simp only [running, hb] at hi
    exact hi
  obtain ⟨timers, activeTimers, hok, hi'⟩ := hi.getExpired h.numbered.address now
  refine ⟨{ s with
      timers, activeTimers
      callingExpiredTimers := true
      cancelingTimers := .empty
      batch := some ⟨_, _, now⟩ }, _, ?_, ?_, rfl, rfl, rfl, rfl, rfl, rfl⟩
  · unfold handleRead
    simp only [hok, ok_bind]
    rfl
  · constructor
    · exact hi'.congr rfl rfl rfl
    · exact h.numbered.congr rfl le_rfl rfl
    · rfl
    · intro b hb
      cases hb
      exact ⟨[], rfl⟩

theorem runNext_spec (h : Inv s) {e : Entry} {todo : List Entry} (hb : s.batch = some b)
    (ht : b.todo = e :: todo) : ∃ t, s.heap e.second = some t ∧ s.runNext b = .ok { s with
        batch := some { b with todo }, log := s.log ++ [.invoked t.sequence] } ∧
      Inv { s with batch := some { b with todo }, log := s.log ++ [.invoked t.sequence] } := by
  have hw : e.second ∈ s.waiting := by
    simp only [waiting, hb, ht]
    exact List.mem_cons_self
  obtain ⟨t, hlive⟩ := h.indexed.live _ (waiting_subset h _ hw)
  have hr : s.running = b.expired.map StdPair.second := by simp only [running, hb]
  have hn : Numbered (s.note (.invoked t.sequence)) :=
    h.numbered.note (by simp) (by simp) fun q hq => ⟨_, t, hlive, hq⟩
  refine ⟨t, hlive, ?_, ?_⟩
  · unfold runNext
    simp only [ht, deref_live hlive, ok_bind]
    rfl
  · constructor
    · exact (hr ▸ h.indexed).congr rfl rfl rfl
    · exact hn.congr rfl le_rfl rfl
    · have := h.calling
      rw [hb] at this
      exact this
    · intro b' hb'
      cases hb'
      obtain ⟨done, hd⟩ := h.todo b hb
      exact ⟨done ++ [e], by simp [hd, ht]⟩

theorem requeue_spec (hi : Indexed s (a :: out)) (hn : Numbered s) (now : Timestamp) :
    ∃ t timers activeTimers, s.heap a = some t ∧ s.requeue a now = .ok { s with
        heap := Function.update s.heap a (some (t.restart now))
        timers, activeTimers
        log := s.log ++ [.restarted t.sequence] } ∧
      Indexed { s with
        heap := Function.update s.heap a (some (t.restart now))
        timers, activeTimers
        log := s.log ++ [.restarted t.sequence] } out ∧
      Numbered { s with
        heap := Function.update s.heap a (some (t.restart now))
        timers, activeTimers
        log := s.log ++ [.restarted t.sequence] } := by
  obtain ⟨t, s₁, ht, hrestart, hi₁, rfl⟩ := hi.restartTimer now
  obtain ⟨u, timers, activeTimers, _, hinsert, hi₂⟩ := hi₁.insert
  refine ⟨t, timers, activeTimers, ht, ?_, hi₂, (hn.restartTimer ht now).congr rfl le_rfl rfl⟩
  unfold requeue
  simp only [hrestart, hinsert, ok_bind]
  rfl

/-- What `reset` leaves of a timer of the batch. -/
def afterReset (s : TimerQueue) (now : Timestamp) (a : Addr) (t : Timer) : Option Timer :=
  if t.repeats ∧ ⟨a, t.sequence⟩ ∉ s.cancelingTimers then some (t.restart now) else none

/-- The heap behind the loop of `reset`. -/
def resetHeap (s : TimerQueue) (now : Timestamp) (es : List Entry) (a : Addr) : Option Timer :=
  if a ∈ es.map StdPair.second then (s.heap a).bind (s.afterReset now a) else s.heap a

theorem resetHeap_cons {e : Entry} {es : List Entry} {now : Timestamp}
    (hout : e.second ∉ es.map StdPair.second) (hc : s'.cancelingTimers = s.cancelingTimers)
    (hh : s'.heap = Function.update s.heap e.second
      ((s.heap e.second).bind (s.afterReset now e.second))) :
    s'.resetHeap now es = s.resetHeap now (e :: es) := by
  funext a
  have hafter : s'.afterReset now a = s.afterReset now a := by
    funext t
    simp only [afterReset, hc]
  unfold resetHeap
  rw [hafter, hh]
  by_cases ha : a = e.second
  · subst ha
    rw [if_neg hout, if_pos (by simp), Function.update_self]
  · simp [ha]

theorem resetHeap_kept {es : List Entry} {now : Timestamp} {t' : Timer}
    (h : s.resetHeap now es a = some t') : ∃ t, s.heap a = some t ∧ t.sequence = t'.sequence ∧
      (a ∈ es.map StdPair.second → ⟨a, t.sequence⟩ ∉ s.cancelingTimers) := by
  unfold resetHeap at h
  split_ifs at h with ha
  · obtain ⟨t, ht, hafter⟩ := Option.bind_eq_some_iff.mp h
    unfold afterReset at hafter
    split_ifs at hafter with hk
    cases hafter
    exact ⟨t, ht, (t.restart_sequence now).symm, fun _ => hk.2⟩
  · exact ⟨t', h, rfl, fun hm => absurd hm ha⟩

/-- The loop of `reset` empties the batch: it keeps the timers that repeat and were not
marked by `cancelInLoop`, and deletes the others. -/
theorem resetExpired_spec (es : List Entry) (now : Timestamp)
    (hi : Indexed s (es.map StdPair.second)) (hn : Numbered s) : ∃ s' extra,
      s.resetExpired now es = .ok s' ∧ Indexed s' [] ∧ Numbered s' ∧
      s'.batch = s.batch ∧ s'.numCreated = s.numCreated ∧
      s'.callingExpiredTimers = s.callingExpiredTimers ∧ s'.heap = s.resetHeap now es ∧
      s'.log = s.log ++ extra ∧ (∀ e ∈ extra, e.internal) ∧
      extra.filterMap TimerEvent.arming = [] := by
  induction es generalizing s with
  | nil => exact ⟨s, [], rfl, hi, hn, rfl, rfl, rfl, by funext a; rfl, by simp,
      List.forall_mem_nil _, rfl⟩
  | cons e es ih =>
    obtain ⟨hout, _⟩ := List.nodup_cons.mp hi.nodup
    obtain ⟨t, ht⟩ := hi.live e.second List.mem_cons_self
    unfold resetExpired
    simp only [deref_live ht, ok_bind]
    by_cases hk : t.repeats = true ∧ ⟨e.second, t.sequence⟩ ∉ s.cancelingTimers
    · have hafter : (s.heap e.second).bind (s.afterReset now e.second) = some (t.restart now) := by
        rw [ht]
        exact if_pos hk
      obtain ⟨t', timers, activeTimers, ht', hok, hi₁, hn₁⟩ := requeue_spec hi hn now
      cases ht.symm.trans ht'
      obtain ⟨s', extra, hreset, hi', hn', hb, hc, hcall, hheap, hlog, hextra, hquiet⟩ := ih hi₁ hn₁
      refine ⟨s', .restarted t.sequence :: extra, ?_, hi', hn', hb, hc, hcall, ?_, ?_, ?_, hquiet⟩
      · rw [if_pos hk, hok]
        exact hreset
      · rw [hheap]
        refine resetHeap_cons (s := s) hout rfl ?_
        rw [hafter]
      · rw [hlog, List.append_assoc]
        rfl
      · exact List.forall_mem_cons.mpr ⟨trivial, hextra⟩
    · have hafter : (s.heap e.second).bind (s.afterReset now e.second) = none := by
        rw [ht]
        exact if_neg hk
      obtain ⟨t', s₁, ht', hok, hi₁, rfl⟩ := hi.deleteTimer
      cases ht.symm.trans ht'
      obtain ⟨s', extra, hreset, hi', hn', hb, hc, hcall, hheap, hlog, hextra, hquiet⟩ :=
        ih hi₁ (hn.deleteTimer ht)
      refine ⟨s', .deleted t.sequence :: extra, ?_, hi', hn', hb, hc, hcall, ?_, ?_, ?_, hquiet⟩
      · rw [if_neg hk, hok]
        exact hreset
      · rw [hheap]
        refine resetHeap_cons (s := s) hout rfl ?_
        rw [hafter]
      · rw [hlog, List.append_assoc]
        rfl
      · exact List.forall_mem_cons.mpr ⟨trivial, hextra⟩

/-- The time that `reset` arms the timerfd for. -/
def nextExpire (s : TimerQueue) : Timestamp :=
  match s.timers.first with
  | some it => it.first
  | none => .invalid

theorem finishRead_spec (h : Inv s) (hb : s.batch = some b) : ∃ s' extra,
    s.finishRead b = .ok s' ∧ Inv s' ∧ s'.batch = none ∧ s'.numCreated = s.numCreated ∧
      s'.heap = s.resetHeap b.now b.expired ∧ s'.log = s.log ++ extra ∧
      (∀ e ∈ extra, e.internal) ∧ extra.filterMap TimerEvent.arming =
        if s'.nextExpire.valid then [s'.nextExpire] else [] := by
  have hr : s.running = b.expired.map StdPair.second := by simp only [running, hb]
  have hi : Indexed { s with callingExpiredTimers := false } (b.expired.map StdPair.second) :=
    (hr ▸ h.indexed).congr rfl rfl rfl
  obtain ⟨s₁, extra, hok, hi₁, hn₁, _, hc, hcall, hheap, hlog, hextra, hquiet⟩ :=
    resetExpired_spec b.expired b.now hi (h.numbered.congr rfl le_rfl rfl)
  have hreset : reset { s with callingExpiredTimers := false } b.expired b.now =
      .ok (if s₁.nextExpire.valid then s₁.note (.resetTimerfd s₁.nextExpire) else s₁) := by
    unfold reset nextExpire
    simp only [hok, ok_bind]
    cases hf : s₁.timers.first with
    | none => rfl
    | some it =>
      obtain ⟨t, ht, hw, _⟩ := (hi₁.timers it.first it.second).mp (OrderedSet.first_mem hf)
      simp only [deref_live ht, ok_bind, hw]
      rfl
  have hfinish : s.finishRead b =
      .ok { (if s₁.nextExpire.valid then s₁.note (.resetTimerfd s₁.nextExpire) else s₁) with
        batch := none } := by
    exact (congrArg (· >>= _) hreset).trans rfl
  by_cases hv : s₁.nextExpire.valid = true
  · rw [if_pos hv] at hfinish
    have hn₂ : Numbered (s₁.note (.resetTimerfd s₁.nextExpire)) :=
      hn₁.note (by simp) (by simp) (fun _ => False.elim)
    refine ⟨_, extra ++ [.resetTimerfd s₁.nextExpire], hfinish, ?_, rfl, hc, hheap, ?_, ?_, ?_⟩
    · constructor
      · exact hi₁.congr rfl rfl rfl
      · exact hn₂.congr rfl le_rfl rfl
      · exact hcall
      · simp
    · simp only [note, hlog, List.append_assoc]
    · intro e he
      rcases List.mem_append.mp he with he | he
      · exact hextra e he
      · rw [List.mem_singleton.mp he]
        trivial
    · rw [List.filterMap_append, hquiet]
      exact (if_pos hv).symm
  · rw [if_neg hv] at hfinish
    refine ⟨_, extra, hfinish, ?_, rfl, hc, hheap, hlog, hextra, ?_⟩
    · constructor
      · exact hi₁.congr rfl rfl rfl
      · exact hn₁.congr rfl le_rfl rfl
      · exact hcall
      · simp
    · exact hquiet.trans (if_neg hv).symm

theorem step_runNext (hb : b ∈ s.batch) : machine.step s .runNext = s.runNext b := by
  simp only [machine, step, Option.mem_def.mp hb]

theorem step_finishRead (hb : b ∈ s.batch) : machine.step s .finishRead = s.finishRead b := by
  simp only [machine, step, Option.mem_def.mp hb]

/-- No enabled operation fails an assertion or uses a deleted timer. -/
theorem step_spec (h : Inv s) {c : Call} (he : machine.enabled s c) :
    ∃ s', machine.step s c = .ok s' ∧ Inv s' := by
  cases c with
  | addTimer a w interval =>
    obtain ⟨_, ha, _, hlt⟩ := he
    obtain ⟨s', _, hok, hi, _⟩ := addTimer_spec h ha hlt w interval
    exact ⟨s', hok, hi⟩
  | cancel id =>
    obtain ⟨s', _, hok, hi, _⟩ := cancelInLoop_spec h id
    exact ⟨s', hok, hi⟩
  | handleRead now =>
    obtain ⟨s', _, hok, hi, _⟩ := handleRead_spec h he now
    exact ⟨s', hok, hi⟩
  | runNext =>
    obtain ⟨b, hb, hne⟩ := he
    obtain ⟨e, todo, ht⟩ := List.exists_cons_of_ne_nil hne
    obtain ⟨t, _, hok, hi⟩ := runNext_spec h hb ht
    refine ⟨_, ?_, hi⟩
    rw [step_runNext hb]
    exact hok
  | finishRead =>
    obtain ⟨b, hb, _⟩ := he
    obtain ⟨s', _, hok, hi, _⟩ := finishRead_spec h hb
    refine ⟨s', ?_, hi⟩
    rw [step_finishRead hb]
    exact hok
  | createElsewhere count =>
    refine ⟨_, rfl, h.indexed.congr rfl rfl rfl, ?_, h.calling, h.todo⟩
    exact h.numbered.congr rfl (Nat.le_add_right _ _) rfl

theorem step_keeps (h : Inv s) {c : Call} {s' : TimerQueue} (he : machine.enabled s c)
    (hs : machine.step s c = .ok s') : Inv s' := by
  obtain ⟨t, ht, hi⟩ := step_spec h he
  cases hs.symm.trans ht
  exact hi

end Muduo.Net.TimerQueue
