import Muduo.Net.TimerQueue

/-! The two indexes of a timer queue, while some of its timers are checked out. -/
namespace Muduo.Net.TimerQueue
open Muduo.Base Muduo.Support

/-- Both indexes hold exactly the live timers that are not in `out`. -/
structure Indexed (s : TimerQueue) (out : List Addr) : Prop where
  timers : ∀ w a, ⟨w, a⟩ ∈ s.timers ↔ ∃ t, s.heap a = some t ∧ t.expiration = w ∧ a ∉ out
  active : ∀ a q, ⟨a, q⟩ ∈ s.activeTimers ↔ ∃ t, s.heap a = some t ∧ t.sequence = q ∧ a ∉ out
  live : ∀ a ∈ out, ∃ t, s.heap a = some t
  nodup : out.Nodup

variable {s s' : TimerQueue} {out : List Addr} {a b : Addr} {t : Timer}

theorem deref_live (h : s.heap a = some t) : s.deref a = .ok t := by
  simp only [deref, h]

theorem deleteTimer_live (h : s.heap a = some t) : s.deleteTimer a = .ok { s with
    heap := Function.update s.heap a none, log := s.log ++ [.deleted t.sequence] } := by
  unfold deleteTimer
  rw [deref_live h]
  rfl

/-- Indexes of the same timers have the same size. -/
theorem Indexed.sizes (h : Indexed s out) : s.sizesAgree := by
  apply OrderedSet.size_eq s.timers s.activeTimers StdPair.second StdPair.first
  · rintro ⟨w, a⟩ he ⟨w', a'⟩ he' rfl
    obtain ⟨t, ht, rfl, _⟩ := (h.timers w a).mp he
    obtain ⟨t', ht', rfl, _⟩ := (h.timers w' a).mp he'
    cases ht.symm.trans ht'
    rfl
  · rintro ⟨a, q⟩ he ⟨a', q'⟩ he' rfl
    obtain ⟨t, ht, rfl, _⟩ := (h.active a q).mp he
    obtain ⟨t', ht', rfl, _⟩ := (h.active a q').mp he'
    cases ht.symm.trans ht'
    rfl
  · intro a
    constructor
    · rintro ⟨⟨w, a⟩, he, rfl⟩
      obtain ⟨t, ht, _, hn⟩ := (h.timers w a).mp he
      exact ⟨⟨a, t.sequence⟩, (h.active _ _).mpr ⟨t, ht, rfl, hn⟩, rfl⟩
    · rintro ⟨⟨a, q⟩, he, rfl⟩
      obtain ⟨t, ht, _, hn⟩ := (h.active a q).mp he
      exact ⟨⟨t.expiration, a⟩, (h.timers _ _).mpr ⟨t, ht, rfl, hn⟩, rfl⟩

theorem new_indexed : Indexed new [] := by
  constructor
  · intro w a
    simp [new]
  · intro a q
    simp [new]
  · intro a h
    exact absurd h List.not_mem_nil
  · exact List.nodup_nil

theorem Indexed.congr (h : Indexed s out) (hh : s'.heap = s.heap) (ht : s'.timers = s.timers)
    (ha : s'.activeTimers = s.activeTimers) : Indexed s' out := by
  constructor
  · intro w a
    rw [hh, ht, h.timers]
  · intro a q
    rw [hh, ha, h.active]
  · intro a hout
    rw [hh]
    exact h.live a hout
  · exact h.nodup

/-- A new timer is checked out. -/
theorem Indexed.newTimer (h : Indexed s out) (ha : s.heap a = none) (w : Timestamp)
    (interval : Option Nat) : Indexed (s.newTimer a w interval).1 (a :: out) := by
  have hout : a ∉ out := by
    intro hmem
    obtain ⟨t, ht⟩ := h.live a hmem
    rw [ha] at ht
    cases ht
  constructor
  · intro w' b
    by_cases hb : b = a
    · simp [TimerQueue.newTimer, hb, h.timers, ha]
    · simp [TimerQueue.newTimer, hb, h.timers]
  · intro b q
    by_cases hb : b = a
    · simp [TimerQueue.newTimer, hb, h.active, ha]
    · simp [TimerQueue.newTimer, hb, h.active]
  · intro b hb
    by_cases hba : b = a
    · exact ⟨_, by simp [TimerQueue.newTimer, hba]; rfl⟩
    · obtain ⟨t, ht⟩ := h.live b ((List.mem_cons.mp hb).resolve_left hba)
      exact ⟨t, by simp [TimerQueue.newTimer, hba, ht]⟩
  · exact List.nodup_cons.mpr ⟨hout, h.nodup⟩

/-- `insert` puts a checked out timer into both indexes. -/
theorem Indexed.insert (h : Indexed s (a :: out)) : ∃ t timers activeTimers,
    s.heap a = some t ∧
      s.insert a = .ok (s.isEarliest t.expiration, { s with timers, activeTimers }) ∧
      Indexed { s with timers, activeTimers } out := by
  obtain ⟨hout, hnodup⟩ := List.nodup_cons.mp h.nodup
  obtain ⟨t, ht⟩ := h.live a List.mem_cons_self
  have hi : Indexed { s with
      timers := (s.timers.insert ⟨t.expiration, a⟩).1
      activeTimers := (s.activeTimers.insert ⟨a, t.sequence⟩).1 } out := by
    constructor
    · intro w b
      by_cases hb : b = a
      · subst hb
        simp [h.timers, ht, hout, eq_comm]
      · simp [h.timers, hb]
    · intro b q
      by_cases hb : b = a
      · subst hb
        simp [h.active, ht, hout, eq_comm]
      · simp [h.active, hb]
    · intro b hb
      exact h.live b (List.mem_cons_of_mem _ hb)
    · exact hnodup
  have hfresh : (s.timers.insert ⟨t.expiration, a⟩).2 = true := by
    simp [h.timers]
  have hfresh' : (s.activeTimers.insert ⟨a, t.sequence⟩).2 = true := by
    simp [h.active]
  refine ⟨t, _, _, ht, ?_, hi⟩
  unfold TimerQueue.insert
  simp only [assert_true h.sizes, deref_live ht, ok_bind, assert_true hfresh, assert_true hfresh',
    assert_true hi.sizes]
  rfl

/-- Deleting a checked out timer. -/
theorem Indexed.deleteTimer (h : Indexed s (a :: out)) : ∃ t s', s.heap a = some t ∧
    s.deleteTimer a = .ok s' ∧ Indexed s' out ∧
    s' = { s with
      heap := Function.update s.heap a none, log := s.log ++ [.deleted t.sequence] } := by
  obtain ⟨hout, hnodup⟩ := List.nodup_cons.mp h.nodup
  obtain ⟨t, ht⟩ := h.live a List.mem_cons_self
  refine ⟨t, _, ht, deleteTimer_live ht, ?_, rfl⟩
  constructor
  · intro w b
    by_cases hb : b = a
    · simp [h.timers, hb]
    · simp [h.timers, hb]
  · intro b q
    by_cases hb : b = a
    · simp [h.active, hb]
    · simp [h.active, hb]
  · intro b hb
    have hba : b ≠ a := fun he => hout (he ▸ hb)
    obtain ⟨u, hu⟩ := h.live b (List.mem_cons_of_mem _ hb)
    exact ⟨u, by simp [hba, hu]⟩
  · exact hnodup

/-- Restarting a checked out timer changes a key that is in no index. -/
theorem Indexed.restartTimer (h : Indexed s (a :: out)) (now : Timestamp) : ∃ t s',
    s.heap a = some t ∧ s.restartTimer a now = .ok s' ∧ Indexed s' (a :: out) ∧
    s' = { s with
      heap := Function.update s.heap a (some (t.restart now))
      log := s.log ++ [.restarted t.sequence] } := by
  obtain ⟨t, ht⟩ := h.live a List.mem_cons_self
  refine ⟨t, _, ht, by unfold TimerQueue.restartTimer; rw [deref_live ht]; rfl, ?_, rfl⟩
  constructor
  · intro w b
    by_cases hb : b = a
    · simp [h.timers, hb]
    · simp [h.timers, hb]
  · intro b q
    by_cases hb : b = a
    · simp [h.active, hb]
    · simp [h.active, hb]
  · intro b hb
    by_cases hba : b = a
    · exact ⟨_, by rw [hba]; exact Function.update_self ..⟩
    · obtain ⟨u, hu⟩ := h.live b hb
      exact ⟨u, by simp [hba, hu]⟩
  · exact h.nodup

/-- Taking a queued timer out of both indexes. -/
theorem Indexed.checkOut (h : Indexed s out) (ht : s.heap a = some t) (ha : a ∉ out) :
    Indexed { s with
      timers := (s.timers.erase ⟨t.expiration, a⟩).1
      activeTimers := (s.activeTimers.erase ⟨a, t.sequence⟩).1 } (a :: out) := by
  constructor
  · intro w b
    by_cases hb : b = a
    · subst hb
      simp +contextual [h.timers, ht, eq_comm]
    · simp [h.timers, hb]
  · intro b q
    by_cases hb : b = a
    · subst hb
      simp +contextual [h.active, ht, eq_comm]
    · simp [h.active, hb]
  · intro b hb
    rcases List.mem_cons.mp hb with rfl | hb
    · exact ⟨t, ht⟩
    · exact h.live b hb
  · exact List.nodup_cons.mpr ⟨ha, h.nodup⟩

/-- The loop of `getExpired` erases exactly the timers of the entries. -/
theorem eraseActive_spec (es : List Entry) (hl : ∀ e ∈ es, ∃ t, s.heap e.second = some t ∧
      ∀ q, ⟨e.second, q⟩ ∈ s.activeTimers ↔ t.sequence = q)
    (hn : (es.map StdPair.second).Nodup) : ∃ activeTimers,
    s.eraseActive es = .ok { s with activeTimers } ∧
      ∀ x, x ∈ activeTimers ↔ x ∈ s.activeTimers ∧ x.first ∉ es.map StdPair.second := by
  induction es generalizing s with
  | nil => exact ⟨s.activeTimers, rfl, by simp⟩
  | cons e es ih =>
    obtain ⟨hnot, hn⟩ := List.nodup_cons.mp hn
    obtain ⟨t, ht, hq⟩ := hl e List.mem_cons_self
    have hcount := OrderedSet.erase_count ((hq t.sequence).mpr rfl)
    obtain ⟨activeTimers, hok, hmem⟩ := ih
      (s := { s with activeTimers := (s.activeTimers.erase ⟨e.second, t.sequence⟩).1 })
      (by
        intro d hd
        have hne : d.second ≠ e.second := fun he => hnot (he ▸ List.mem_map_of_mem hd)
        obtain ⟨u, hu, hq⟩ := hl d (List.mem_cons_of_mem _ hd)
        exact ⟨u, hu, by simp [hq, hne]⟩) hn
    refine ⟨activeTimers, ?_, ?_⟩
    · unfold eraseActive
      simp only [deref_live ht, ok_bind, assert_true hcount]
      exact hok
    · rintro ⟨b, q⟩
      rw [hmem]
      by_cases hb : b = e.second
      · subst hb
        simp [hq, eq_comm]
      · simp [hb]

/-- A queued entry is that of a live timer. -/
theorem Indexed.queued {e : Entry} (h : Indexed s out) (he : e ∈ s.timers) :
    ∃ t, s.heap e.second = some t ∧ t.expiration = e.first := by
  obtain ⟨t, ht, hw, _⟩ := (h.timers e.first e.second).mp he
  exact ⟨t, ht, hw⟩

/-- No timer is queued twice. -/
theorem Indexed.eq_of_second {d e : Entry} (h : Indexed s out)
    (hd : d ∈ s.timers) (he : e ∈ s.timers) (hsecond : d.second = e.second) : d = e := by
  obtain ⟨v, a⟩ := d
  obtain ⟨w, b⟩ := e
  cases hsecond
  obtain ⟨t, ht, rfl⟩ := h.queued hd
  obtain ⟨u, hu, rfl⟩ := h.queued he
  cases ht.symm.trans hu
  rfl

/-- The timers that are cut off at `bound`. -/
theorem Indexed.mem_before {bound : Entry} (h : Indexed s [])
    (ht : s.heap a = some t) :
    a ∈ (s.timers.before bound).map StdPair.second ↔ StdPair.mk t.expiration a < bound := by
  constructor
  · intro ha
    obtain ⟨e, he, rfl⟩ := List.mem_map.mp ha
    obtain ⟨he, hlt⟩ := OrderedSet.mem_before.mp he
    obtain ⟨u, hu, hw⟩ := h.queued he
    cases ht.symm.trans hu
    rw [hw]
    exact hlt
  · intro hlt
    exact List.mem_map.mpr ⟨_, OrderedSet.mem_before.mpr
      ⟨(h.timers _ _).mpr ⟨t, ht, rfl, List.not_mem_nil⟩, hlt⟩, rfl⟩

/-- `getExpired` checks out the timers in front of the sentry. The sentry is above every
entry with its time, so the first entry that stays is later. -/
theorem Indexed.getExpired (h : Indexed s []) (haddr : ∀ a t, s.heap a = some t → a < UINTPTR_MAX)
    (now : Timestamp) : ∃ timers activeTimers,
      s.getExpired now = .ok (s.timers.before ⟨now, UINTPTR_MAX⟩, { s with timers, activeTimers }) ∧
      Indexed { s with timers, activeTimers }
        ((s.timers.before ⟨now, UINTPTR_MAX⟩).map StdPair.second) := by
  have hnodup : ((s.timers.before ⟨now, UINTPTR_MAX⟩).map StdPair.second).Nodup := by
    apply List.Nodup.map_on
    · intro d hd e he
      exact h.eq_of_second (OrderedSet.mem_before.mp hd).1 (OrderedSet.mem_before.mp he).1
    · exact (s.timers.before_sorted _).imp ne_of_lt
  have hrest : ∀ it ∈ (s.timers.fromBound ⟨now, UINTPTR_MAX⟩).first, now < it.first := by
    intro it hit
    obtain ⟨hmem, hle⟩ := OrderedSet.mem_fromBound.mp (OrderedSet.first_mem hit)
    obtain ⟨t, ht, _⟩ := h.queued hmem
    rcases StdPair.le_iff.mp hle with hlt | ⟨_, hle⟩
    · exact hlt
    · exact absurd (haddr _ _ ht) (Nat.not_lt.mpr hle)
  obtain ⟨activeTimers, hok, hmem⟩ := eraseActive_spec
    (s := { s with timers := s.timers.fromBound ⟨now, UINTPTR_MAX⟩ })
    (s.timers.before ⟨now, UINTPTR_MAX⟩) (by
      intro e he
      obtain ⟨t, ht, _⟩ := h.queued (OrderedSet.mem_before.mp he).1
      exact ⟨t, ht, by simp [h.active, ht]⟩) hnodup
  have hi : Indexed { s with timers := s.timers.fromBound ⟨now, UINTPTR_MAX⟩, activeTimers }
      ((s.timers.before ⟨now, UINTPTR_MAX⟩).map StdPair.second) := by
    constructor
    · intro w a
      rw [OrderedSet.mem_fromBound, h.timers]
      constructor
      · rintro ⟨⟨t, ht, rfl, _⟩, hle⟩
        exact ⟨t, ht, rfl, fun ha => absurd ((h.mem_before ht).mp ha) (not_lt.mpr hle)⟩
      · rintro ⟨t, ht, rfl, ha⟩
        exact ⟨⟨t, ht, rfl, List.not_mem_nil⟩, not_lt.mp fun hlt => ha ((h.mem_before ht).mpr hlt)⟩
    · intro a q
      rw [hmem, h.active]
      constructor
      · rintro ⟨⟨t, ht, hq, _⟩, ha⟩
        exact ⟨t, ht, hq, ha⟩
      · rintro ⟨t, ht, hq, ha⟩
        exact ⟨⟨t, ht, hq, List.not_mem_nil⟩, ha⟩
    · intro a ha
      obtain ⟨e, he, rfl⟩ := List.mem_map.mp ha
      obtain ⟨t, ht, _⟩ := h.queued (OrderedSet.mem_before.mp he).1
      exact ⟨t, ht⟩
    · exact hnodup
  refine ⟨_, _, ?_, hi⟩
  unfold TimerQueue.getExpired
  simp only [assert_true h.sizes, ok_bind, assert_true hrest, hok, assert_true hi.sizes]
  rfl

end Muduo.Net.TimerQueue
