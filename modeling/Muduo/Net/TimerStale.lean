import Muduo.Net.TimerOwnership
import Muduo.Support.Lockstep

/-! What `cancelInLoop` does with the `TimerId` of a deleted timer, whose address may be
that of a live one. -/
namespace Muduo.Net.TimerQueue
open Muduo.Base Muduo.Support

/-- No two timers were created under one sequence number. -/
def Distinct (log : List TimerEvent) : Prop :=
  log.Pairwise fun e e' => ∀ id id', e = .created id → e' = .created id' →
    id.sequence ≠ id'.sequence

/-- The timer of `id` has been deleted. -/
def Stale (s : TimerQueue) (id : TimerId) : Prop :=
  .created id ∈ s.log ∧ .deleted id.sequence ∈ s.log

/-- The second queue is the first one, but for the mark of `id` and for a cancellation that
its log has behind `past`. -/
structure Unaffected (id : TimerId) (past : List TimerEvent) (s s' : TimerQueue) : Prop where
  same : s' = { s with cancelingTimers := s'.cancelingTimers, log := s'.log }
  marks : ∀ x, x ≠ ⟨id.timer, id.sequence⟩ → (x ∈ s'.cancelingTimers ↔ x ∈ s.cancelingTimers)
  log : ∃ later, s.log = past ++ later ∧ s'.log = past ++ .cancelled id :: later

/-- The number of `id` was given out, and no live timer has it. -/
structure Gone (s : TimerQueue) (id : TimerId) : Prop where
  known : id.sequence ≤ s.numCreated
  dead : ∀ a t, s.heap a = some t → t.sequence ≠ id.sequence

/-- Two queues that differ in what nobody reads. -/
def Beside (id : TimerId) (past : List TimerEvent) (s s' : TimerQueue) : Prop :=
  Gone s id ∧ Unaffected id past s s'

variable {s s' : TimerQueue} {id : TimerId} {past : List TimerEvent} {a : Addr}

theorem Unaffected.view (h : Unaffected id past s s') : ∃ cancelingTimers log,
    s' = { s with cancelingTimers, log } := ⟨_, _, h.same⟩

/-- Both queues write the same event. -/
theorem log_append {log log' : List TimerEvent}
    (h : ∃ later, log = past ++ later ∧ log' = past ++ .cancelled id :: later) (e : TimerEvent) :
    ∃ later, log ++ [e] = past ++ later ∧ log' ++ [e] = past ++ .cancelled id :: later := by
  obtain ⟨later, rfl, rfl⟩ := h
  exact ⟨later ++ [e], by simp, by simp⟩

theorem Gone.update (h : Gone s id) {t : Option Timer} (ht : ∀ u ∈ t, u.sequence ≠ id.sequence)
    (b : Addr) (u : Timer) (hu : Function.update s.heap a t b = some u) :
    u.sequence ≠ id.sequence := by
  by_cases hb : b = a
  · subst hb
    rw [Function.update_self] at hu
    exact ht u hu
  · rw [Function.update_of_ne hb] at hu
    exact h.dead b u hu

theorem deref_dead (h : Gone s id) {t : Timer} (ht : s.deref a = .ok t) :
    t.sequence ≠ id.sequence := by
  unfold deref at ht
  split at ht
  · next u hu =>
    cases ht
    exact h.dead a _ hu
  · cases ht

theorem newTimer_beside (h : Beside id past s s') (w : Timestamp) (interval : Option Nat) :
    Beside id past (s.newTimer a w interval).1 (s'.newTimer a w interval).1 := by
  obtain ⟨hgone, hun⟩ := h
  obtain ⟨marks, log, rfl⟩ := hun.view
  refine ⟨⟨Nat.le_succ_of_le hgone.known, hgone.update ?_⟩, rfl, hun.marks, log_append hun.log _⟩
  intro u hu
  cases hu
  have := hgone.known
  dsimp only
  omega

theorem deleteTimer_beside (h : Beside id past s s') :
    Both (Beside id past) (s.deleteTimer a) (s'.deleteTimer a) := by
  obtain ⟨hgone, hun⟩ := h
  obtain ⟨marks, log, rfl⟩ := hun.view
  refine Both.bind_same (s.deref a) fun t _ => .ok ⟨⟨hgone.known, hgone.update ?_⟩, ?_⟩
  · intro u hu
    cases hu
  · exact ⟨rfl, hun.marks, log_append hun.log _⟩

theorem restartTimer_beside (h : Beside id past s s') (now : Timestamp) :
    Both (Beside id past) (s.restartTimer a now) (s'.restartTimer a now) := by
  obtain ⟨hgone, hun⟩ := h
  obtain ⟨marks, log, rfl⟩ := hun.view
  refine Both.bind_same (s.deref a) fun t ht => .ok ⟨⟨hgone.known, hgone.update ?_⟩, ?_⟩
  · intro u hu
    cases hu
    rw [Timer.restart_sequence]
    exact deref_dead hgone ht
  · exact ⟨rfl, hun.marks, log_append hun.log _⟩

theorem insert_beside (h : Beside id past s s') :
    Both (fun r r' => r.1 = r'.1 ∧ Beside id past r.2 r'.2) (s.insert a) (s'.insert a) := by
  obtain ⟨hgone, hun⟩ := h
  obtain ⟨marks, log, rfl⟩ := hun.view
  refine Both.assert_bind Iff.rfl fun _ => ?_
  refine Both.bind_same (s.deref a) fun t _ => ?_
  refine Both.assert_bind Iff.rfl fun _ => ?_
  refine Both.assert_bind Iff.rfl fun _ => ?_
  refine Both.assert_bind Iff.rfl fun _ => ?_
  exact .ok ⟨rfl, ⟨hgone.known, hgone.dead⟩, rfl, hun.marks, hun.log⟩

theorem Beside.note (h : Beside id past s s') (e : TimerEvent) :
    Beside id past (s.note e) (s'.note e) := by
  obtain ⟨hgone, hun⟩ := h
  obtain ⟨marks, log, rfl⟩ := hun.view
  exact ⟨⟨hgone.known, hgone.dead⟩, rfl, hun.marks, log_append hun.log e⟩

theorem addTimer_beside (h : Beside id past s s') (w : Timestamp) (interval : Option Nat) :
    Both (Beside id past) (s.addTimer a w interval) (s'.addTimer a w interval) := by
  refine Both.bind (insert_beside (newTimer_beside h w interval)) ?_
  rintro ⟨earliestChanged, r⟩ ⟨_, r'⟩ ⟨rfl, hr⟩
  refine Both.ite Iff.rfl (fun _ => ?_) fun _ => .ok hr
  have hnote := hr.note
  obtain ⟨marks, log, rfl⟩ := hr.2.view
  exact Both.bind_same (r.deref a) fun t _ => .ok (hnote _)

theorem cancelQueued_beside (h : Beside id past s s') (id' : TimerId) :
    Both (Beside id past) (s.cancelQueued id') (s'.cancelQueued id') := by
  obtain ⟨hgone, hun⟩ := h
  obtain ⟨marks, log, rfl⟩ := hun.view
  refine Both.bind_same (s.deref id'.timer) fun t _ => ?_
  refine Both.assert_bind Iff.rfl fun _ => ?_
  refine Both.bind (deleteTimer_beside ⟨⟨hgone.known, hgone.dead⟩, rfl, hun.marks, hun.log⟩) ?_
  rintro r r' ⟨hgone', hun'⟩
  obtain ⟨marks', log', rfl⟩ := hun'.view
  exact .ok ⟨⟨hgone'.known, hgone'.dead⟩, rfl, hun'.marks, hun'.log⟩

/-- The assertion behind the branches of `cancelInLoop`. -/
theorem sizesAgree_beside (h : Beside id past s s') :
    Both (Beside id past) (assert s.sizesAgree >>= fun _ => pure s)
      (assert s'.sizesAgree >>= fun _ => pure s') := by
  have hsizes : s.sizesAgree ↔ s'.sizesAgree := by
    obtain ⟨marks, log, rfl⟩ := h.2.view
    exact Iff.rfl
  exact Both.assert_bind hsizes fun _ => .ok h

theorem cancelInLoop_beside (h : Beside id past s s') (id' : TimerId) :
    Both (Beside id past) (s.cancelInLoop id') (s'.cancelInLoop id') := by
  have hnote := h.note (.cancelled id')
  obtain ⟨hgone, hun⟩ := h
  obtain ⟨marks, log, rfl⟩ := hun.view
  refine Both.assert_bind Iff.rfl fun _ => Both.ite Iff.rfl (fun _ => ?_) fun _ => ?_
  · exact Both.bind (cancelQueued_beside hnote id') fun r r' hr => sizesAgree_beside hr
  · refine Both.ite Iff.rfl (fun _ => ?_) fun _ => sizesAgree_beside hnote
    refine sizesAgree_beside ⟨⟨hgone.known, hgone.dead⟩, rfl, fun x hx => ?_, hnote.2.log⟩
    have hmark := hun.marks x hx
    simp only [OrderedSet.mem_insert]
    exact or_congr_right hmark

theorem eraseActive_beside (es : List Entry) (h : Beside id past s s') :
    Both (Beside id past) (s.eraseActive es) (s'.eraseActive es) := by
  induction es generalizing s s' with
  | nil => exact .ok h
  | cons e es ih =>
    obtain ⟨hgone, hun⟩ := h
    obtain ⟨marks, log, rfl⟩ := hun.view
    refine Both.bind_same (s.deref e.second) fun t _ => ?_
    refine Both.assert_bind Iff.rfl fun _ => ?_
    exact ih ⟨⟨hgone.known, hgone.dead⟩, rfl, hun.marks, hun.log⟩

theorem getExpired_beside (h : Beside id past s s') (now : Timestamp) :
    Both (fun r r' => r.1 = r'.1 ∧ Beside id past r.2 r'.2) (s.getExpired now)
      (s'.getExpired now) := by
  obtain ⟨hgone, hun⟩ := h
  obtain ⟨marks, log, rfl⟩ := hun.view
  refine Both.assert_bind Iff.rfl fun _ => ?_
  refine Both.assert_bind Iff.rfl fun _ => ?_
  refine Both.bind (eraseActive_beside (s.timers.before ⟨now, UINTPTR_MAX⟩)
    ⟨⟨hgone.known, hgone.dead⟩, rfl, hun.marks, hun.log⟩) ?_
  rintro r r' hr
  obtain ⟨marks', log', rfl⟩ := hr.2.view
  exact Both.assert_bind Iff.rfl fun _ => .ok ⟨rfl, hr⟩

theorem handleRead_beside (h : Beside id past s s') (now : Timestamp) :
    Both (Beside id past) (s.handleRead now) (s'.handleRead now) := by
  refine Both.bind (getExpired_beside h now) ?_
  rintro ⟨expired, r⟩ ⟨_, r'⟩ ⟨rfl, hgone, hun⟩
  obtain ⟨marks, log, rfl⟩ := hun.view
  exact .ok ⟨⟨hgone.known, hgone.dead⟩, rfl, fun _ _ => Iff.rfl, hun.log⟩

theorem runNext_beside (h : Beside id past s s') (b : Batch) :
    Both (Beside id past) (s.runNext b) (s'.runNext b) := by
  obtain ⟨hgone, hun⟩ := h
  obtain ⟨marks, log, rfl⟩ := hun.view
  unfold runNext
  cases b.todo with
  | nil => exact .ok ⟨hgone, hun⟩
  | cons e todo =>
    refine Both.bind_same (s.deref e.second) fun t _ => .ok ⟨⟨hgone.known, hgone.dead⟩, ?_⟩
    exact ⟨rfl, hun.marks, log_append hun.log _⟩

theorem requeue_beside (h : Beside id past s s') (now : Timestamp) :
    Both (Beside id past) (s.requeue a now) (s'.requeue a now) := by
  refine Both.bind (restartTimer_beside h now) fun r r' hr => ?_
  refine Both.bind (insert_beside hr) ?_
  rintro ⟨_, r⟩ ⟨_, r'⟩ ⟨_, hr⟩
  exact .ok hr

/-- `reset` reads the marks of live timers, and `id` is not one of them. -/
theorem resetExpired_beside (es : List Entry) (h : Beside id past s s') (now : Timestamp) :
    Both (Beside id past) (s.resetExpired now es) (s'.resetExpired now es) := by
  induction es generalizing s s' with
  | nil => exact .ok h
  | cons e es ih =>
    have hgone := h.1
    obtain ⟨marks, log, rfl⟩ := h.2.view
    refine Both.bind_same (s.deref e.second) fun t ht => ?_
    have hne : (⟨e.second, t.sequence⟩ : ActiveTimer) ≠ ⟨id.timer, id.sequence⟩ := by
      intro he
      exact deref_dead hgone ht (congrArg StdPair.second he)
    have hmark := h.2.marks _ hne
    refine Both.ite (and_congr_right fun _ => not_congr hmark.symm) (fun _ => ?_) fun _ => ?_
    · exact Both.bind (requeue_beside h now) fun r r' hr => ih hr
    · exact Both.bind (deleteTimer_beside h) fun r r' hr => ih hr

theorem reset_beside (es : List Entry) (h : Beside id past s s') (now : Timestamp) :
    Both (Beside id past) (s.reset es now) (s'.reset es now) := by
  refine Both.bind (resetExpired_beside es h now) fun r r' hr => ?_
  have hend : ∀ w : Timestamp, Beside id past (if w.valid then r.note (.resetTimerfd w) else r)
      (if w.valid then r'.note (.resetTimerfd w) else r') := by
    intro w
    split
    · exact hr.note _
    · exact hr
  obtain ⟨marks, log, rfl⟩ := hr.2.view
  dsimp only
  cases r.timers.first with
  | none => exact .ok (hend .invalid)
  | some it => exact Both.bind_same (r.deref it.second) fun t _ => .ok (hend t.expiration)

theorem finishRead_beside (h : Beside id past s s') (b : Batch) :
    Both (Beside id past) (s.finishRead b) (s'.finishRead b) := by
  have hcall : Beside id past { s with callingExpiredTimers := false }
      { s' with callingExpiredTimers := false } := by
    obtain ⟨marks, log, rfl⟩ := h.2.view
    exact ⟨⟨h.1.known, h.1.dead⟩, rfl, h.2.marks, h.2.log⟩
  refine Both.bind (reset_beside b.expired hcall b.now) fun r r' hr => ?_
  obtain ⟨marks, log, rfl⟩ := hr.2.view
  exact .ok ⟨⟨hr.1.known, hr.1.dead⟩, rfl, hr.2.marks, hr.2.log⟩

theorem created_iff {id' : TimerId} (h : Unaffected id past s s') :
    .created id' ∈ s.log ↔ .created id' ∈ s'.log := by
  obtain ⟨later, hlog, hlog'⟩ := h.log
  rw [hlog, hlog']
  simp

/-- Whatever the loop does next, it does to both queues alike. -/
theorem beside_lockstep (id : TimerId) (past : List TimerEvent) :
    machine.Lockstep machine (Beside id past) where
  enabled s s' c h := by
    have hcreated : ∀ id', .created id' ∈ s.log ↔ .created id' ∈ s'.log :=
      fun _ => created_iff h.2
    obtain ⟨marks, log, rfl⟩ := h.2.view
    cases c with
    | cancel id' => exact and_congr_right fun _ => or_congr_right (hcreated id')
    | addTimer a w interval => exact Iff.rfl
    | handleRead now => exact Iff.rfl
    | runNext => exact Iff.rfl
    | finishRead => exact Iff.rfl
    | createElsewhere count => exact Iff.rfl
  step s s' c h := by
    have hbatch : s'.batch = s.batch := by rw [h.2.same]
    cases c with
    | addTimer a w interval => exact addTimer_beside h w interval
    | cancel id' => exact cancelInLoop_beside h id'
    | handleRead now => exact handleRead_beside h now
    | runNext =>
      simp only [machine, step, hbatch]
      cases s.batch with
      | none => exact .ok h
      | some b => exact runNext_beside h b
    | finishRead =>
      simp only [machine, step, hbatch]
      cases s.batch with
      | none => exact .ok h
      | some b => exact finishRead_beside h b
    | createElsewhere count =>
      obtain ⟨hgone, hun⟩ := h
      obtain ⟨marks, log, rfl⟩ := hun.view
      exact .ok ⟨⟨hgone.known.trans (Nat.le_add_right _ _), hgone.dead⟩, rfl, hun.marks, hun.log⟩

theorem Inv.gone (h : Inv s) (hid : s.Stale id) : Gone s id where
  known := (h.numbered.created id hid.1).2.1
  dead _ _ ht hseq := h.numbered.not_deleted ht (hseq ▸ hid.2)

/-- `cancelInLoop` does not find a deleted timer, and at most marks it. -/
theorem Gone.cancelInLoop (h : Gone s id) (hi : Inv s) : ∃ s', s.cancelInLoop id = .ok s' ∧
    Unaffected id s.log s s' := by
  have hq : (⟨id.timer, id.sequence⟩ : ActiveTimer) ∉ (s.note (.cancelled id)).activeTimers := by
    intro hq
    obtain ⟨t, ht, hseq, _⟩ := (hi.indexed.active _ _).mp hq
    exact h.dead _ t ht hseq
  have hlog : ∃ later, s.log = s.log ++ later ∧
      s.log ++ [.cancelled id] = s.log ++ .cancelled id :: later := ⟨[], by simp, rfl⟩
  unfold TimerQueue.cancelInLoop
  rw [assert_bind_true hi.indexed.sizes]
  simp only [if_neg hq]
  by_cases hc : s.callingExpiredTimers = true
  · refine ⟨{ s.note (.cancelled id) with
      cancelingTimers := (s.cancelingTimers.insert ⟨id.timer, id.sequence⟩).1 }, ?_, rfl, ?_, hlog⟩
    · exact (if_pos hc).trans (assert_bind_true hi.indexed.sizes _)
    · intro x hx
      simp [OrderedSet.mem_insert, hx]
  · refine ⟨s.note (.cancelled id), ?_, rfl, fun _ _ => Iff.rfl, hlog⟩
    exact (if_neg hc).trans (assert_bind_true hi.indexed.sizes _)

variable {log extra : List TimerEvent}

theorem Distinct.append (h : Distinct log) (hc : ∀ id, .created id ∉ extra) :
    Distinct (log ++ extra) := by
  apply List.pairwise_append.mpr
  refine ⟨h, ?_, ?_⟩
  · apply List.pairwise_of_forall_mem_list
    rintro e he e' _ id id' rfl
    exact absurd he (hc id)
  · rintro e _ e' he' id id' _ rfl
    exact absurd he' (hc id')

theorem Distinct.create (h : Distinct log)
    (hnew : ∀ id', .created id' ∈ log → id'.sequence ≠ id.sequence) :
    Distinct (log ++ [.created id]) := by
  apply List.pairwise_append.mpr
  refine ⟨h, List.pairwise_singleton _ _, ?_⟩
  rintro e he e' he' id₁ id₂ rfl rfl
  cases List.mem_singleton.mp he'
  exact hnew id₁ he

theorem step_distinct (hi : Inv s) (h : Distinct s.log) {c : Call} (he : machine.enabled s c)
    (hs : machine.step s c = .ok s') : Distinct s'.log := by
  cases c with
  | addTimer a w interval =>
    obtain ⟨_, ha, _, hlt⟩ := he
    obtain ⟨t, extra, hok, _, _, _, _, _, hlog, hextra, _⟩ := addTimer_spec hi ha hlt w interval
    cases hs.symm.trans hok
    rw [hlog, ← List.singleton_append, ← List.append_assoc]
    refine (h.create fun id hid => ?_).append fun id hid => hextra _ hid
    have := (hi.numbered.created id hid).2.1
    dsimp only
    omega
  | cancel id =>
    obtain ⟨t, extra, hok, _, _, _, _, _, _, _, hlog, hextra, _⟩ := cancelInLoop_spec hi id
    cases hs.symm.trans hok
    rw [hlog]
    refine h.append fun id' hid => ?_
    rcases List.mem_cons.mp hid with hid | hid
    · cases hid
    · exact hextra _ hid
  | handleRead now =>
    obtain ⟨t, _, hok, _, _, _, _, hlog, _⟩ := handleRead_spec hi he now
    cases hs.symm.trans hok
    rwa [hlog]
  | runNext =>
    obtain ⟨b, hb, hne⟩ := he
    obtain ⟨e, todo, htodo⟩ := List.exists_cons_of_ne_nil hne
    obtain ⟨t, _, hok, _⟩ := runNext_spec hi hb htodo
    rw [step_runNext hb] at hs
    cases hs.symm.trans hok
    exact h.append fun id hid => by cases List.mem_singleton.mp hid
  | finishRead =>
    obtain ⟨b, hb, _⟩ := he
    rw [step_finishRead hb] at hs
    obtain ⟨t, extra, hok, _, _, _, _, hlog, hextra, _⟩ := finishRead_spec hi hb
    cases hs.symm.trans hok
    rw [hlog]
    exact h.append fun id hid => hextra _ hid
  | createElsewhere count =>
    cases hs
    exact h

theorem reachable_distinct {cs : List Call} (h : machine.Run new cs s) : Distinct s.log := by
  have hboth : Inv s ∧ Distinct s.log := by
    refine h.invariant (I := fun s => Inv s ∧ Distinct s.log) (fun s c t hs he hok => ?_)
      ⟨new_inv, List.Pairwise.nil⟩
    exact ⟨step_keeps hs.1 he hok, step_distinct hs.1 hs.2 he hok⟩
  exact hboth.2

/-- The `TimerId` of a deleted timer hits no other timer: `cancelInLoop` touches neither a
timer nor an index nor the batch, and every later run goes as it would have gone without it. -/
theorem stale_cancel_harmless {cs : List Call} (h : machine.Run new cs s) :
    Distinct s.log ∧ ∀ id, s.Stale id → ∃ s', s.cancelInLoop id = .ok s' ∧
      Unaffected id s.log s s' ∧ ∀ ds,
        (∀ t, machine.Run s ds t → ∃ t', machine.Run s' ds t' ∧ Unaffected id s.log t t') ∧
        ∀ t', machine.Run s' ds t' → ∃ t, machine.Run s ds t ∧ Unaffected id s.log t t' := by
  have hi := reachable_inv h
  refine ⟨reachable_distinct h, fun id hid => ?_⟩
  have hgone := hi.gone hid
  obtain ⟨s', hok, hun⟩ := hgone.cancelInLoop hi
  have hlock := beside_lockstep id s.log
  refine ⟨s', hok, hun, fun ds => ⟨fun t hr => ?_, fun t' hr => ?_⟩⟩
  · obtain ⟨t', hr', hbeside⟩ := hlock.run hr ⟨hgone, hun⟩
    exact ⟨t', hr', hbeside.2⟩
  · obtain ⟨t, hr', hbeside⟩ := hlock.symm.run hr ⟨hgone, hun⟩
    exact ⟨t, hr', hbeside.2⟩

/-- A repeating timer at the address of a deleted one, while its callback runs. -/
theorem stale_cancel_reused : ∃ s, machine.Run new [.addTimer 1 5 none, .handleRead 7, .runNext,
    .finishRead, .addTimer 1 9 (some 3), .handleRead 10, .runNext] s ∧ ∃ s',
      s.cancelInLoop ⟨1, 1⟩ = .ok s' ∧ Unaffected ⟨1, 1⟩ s.log s s' := by
  obtain ⟨s, hr, hlog⟩ := machine.exists_run new [.addTimer 1 5 none, .handleRead 7, .runNext,
    .finishRead, .addTimer 1 9 (some 3), .handleRead 10, .runNext] log [.created ⟨1, 1⟩,
      .resetTimerfd 5, .invoked 1, .deleted 1, .created ⟨1, 2⟩, .resetTimerfd 9, .invoked 2]
    (by decide)
  obtain ⟨s', hok, hun, _⟩ := (stale_cancel_harmless hr).2 ⟨1, 1⟩ (by simp [Stale, hlog])
  exact ⟨s, hr, s', hok, hun⟩

end Muduo.Net.TimerQueue
