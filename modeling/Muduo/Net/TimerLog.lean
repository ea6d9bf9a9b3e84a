import Muduo.Net.TimerIndex
import Muduo.Support.Update

/-! Sequence numbers of timers, and what the log of a queue says about them. -/
namespace Muduo.Net

/-- The event uses the timer with this sequence number. -/
def TimerEvent.uses : TimerEvent → Nat → Prop
  | .invoked q, n | .restarted q, n | .deleted q, n => q = n
  | .created _, _ | .cancelled _, _ | .resetTimerfd _, _ => False

/-- What the queue does by itself. -/
def TimerEvent.internal : TimerEvent → Prop
  | .restarted _ | .deleted _ | .resetTimerfd _ => True
  | .created _ | .cancelled _ | .invoked _ => False

/-- The time that the timerfd is armed for. -/
def TimerEvent.arming : TimerEvent → Option Base.Timestamp
  | .resetTimerfd expiration => some expiration
  | .created _ | .cancelled _ | .invoked _ | .restarted _ | .deleted _ => none

namespace TimerQueue
open Muduo.Base Muduo.Support

/-- After its deletion a timer is not used. -/
def UsedAlive (log : List TimerEvent) : Prop :=
  log.Pairwise fun e e' => ∀ q, e = .deleted q → ¬ e'.uses q

/-- A number is given to one timer of the queue, which is live or deleted. -/
structure Numbered (s : TimerQueue) : Prop where
  address : ∀ a t, s.heap a = some t → a < UINTPTR_MAX
  live : ∀ a t, s.heap a = some t → .created ⟨a, t.sequence⟩ ∈ s.log
  created : ∀ id, .created id ∈ s.log → 0 < id.sequence ∧ id.sequence ≤ s.numCreated ∧
    ∀ a t, s.heap a = some t → t.sequence = id.sequence → a = id.timer
  deleted : ∀ q, .deleted q ∈ s.log ↔
    (∃ a, .created ⟨a, q⟩ ∈ s.log) ∧ ∀ a t, s.heap a = some t → t.sequence ≠ q
  used : UsedAlive s.log

variable {s s' : TimerQueue} {a : Addr} {t : Timer} {e : TimerEvent} {log : List TimerEvent}

theorem usedAlive_append (h : UsedAlive log) (he : ∀ q, .deleted q ∈ log → ¬ e.uses q) :
    UsedAlive (log ++ [e]) := by
  apply List.pairwise_append.mpr
  refine ⟨h, List.pairwise_singleton _ _, ?_⟩
  rintro d hd e' he' q rfl
  rw [List.mem_singleton.mp he']
  exact he q hd

theorem Numbered.not_deleted (h : Numbered s) (ht : s.heap a = some t) :
    .deleted t.sequence ∉ s.log := by
  intro hd
  exact ((h.deleted _).mp hd).2 a t ht rfl

theorem Numbered.unique (h : Numbered s) {b : Addr} {u : Timer} (ha : s.heap a = some t)
    (hb : s.heap b = some u) (hq : t.sequence = u.sequence) : a = b :=
  (h.created ⟨b, u.sequence⟩ (h.live b u hb)).2.2 a t ha hq

theorem new_numbered : Numbered new := by
  constructor
  · intro a t h
    cases h
  · intro a t h
    cases h
  · intro id h
    exact absurd h List.not_mem_nil
  · intro q
    exact ⟨fun h => absurd h List.not_mem_nil, fun ⟨⟨_, h⟩, _⟩ => absurd h List.not_mem_nil⟩
  · exact List.Pairwise.nil

theorem Numbered.congr (h : Numbered s) (hh : s'.heap = s.heap)
    (hc : s.numCreated ≤ s'.numCreated) (hl : s'.log = s.log) : Numbered s' := by
  obtain ⟨h₁, h₂, h₃, h₄, h₅⟩ := h
  constructor
  · simpa only [hh]
  · simpa only [hh, hl]
  · intro id hid
    rw [hl] at hid
    obtain ⟨h₀, hle, ha⟩ := h₃ id hid
    rw [hh]
    exact ⟨h₀, hle.trans hc, ha⟩
  · simpa only [hh, hl]
  · simpa only [hl]

/-- Events that neither announce nor delete a timer, and use only a live one. -/
theorem Numbered.note (h : Numbered s) (hc : ∀ id, e ≠ .created id) (hd : ∀ q, e ≠ .deleted q)
    (hu : ∀ q, e.uses q → ∃ a t, s.heap a = some t ∧ t.sequence = q) : Numbered (s.note e) := by
  have hcreated : ∀ id, .created id ∈ (s.note e).log ↔ .created id ∈ s.log := by
    intro id
    simp [TimerQueue.note, (hc id).symm]
  have hdeleted : ∀ q, .deleted q ∈ (s.note e).log ↔ .deleted q ∈ s.log := by
    intro q
    simp [TimerQueue.note, (hd q).symm]
  constructor
  · exact h.address
  · intro a t ht
    exact (hcreated _).mpr (h.live a t ht)
  · intro id hid
    exact h.created id ((hcreated id).mp hid)
  · intro q
    simp only [hcreated, hdeleted]
    exact h.deleted q
  · apply usedAlive_append h.used
    intro q hq hqu
    obtain ⟨a, t, ht, hs⟩ := hu q hqu
    exact h.not_deleted ht (hs ▸ hq)

theorem Numbered.newTimer (h : Numbered s) (ha : s.heap a = none) (hlt : a < UINTPTR_MAX)
    (w : Timestamp) (interval : Option Nat) : Numbered (s.newTimer a w interval).1 := by
  have hheap : ∀ b u, (s.newTimer a w interval).1.heap b = some u →
      b = a ∧ u = ⟨w, interval, s.numCreated + 1⟩ ∨ b ≠ a ∧ s.heap b = some u := by
    exact fun b u hb => update_some hb
  have hold : ∀ b u, s.heap b = some u → (s.newTimer a w interval).1.heap b = some u :=
    fun b u hb => update_kept ha hb
  have hnew : (s.newTimer a w interval).1.heap a = some ⟨w, interval, s.numCreated + 1⟩ := by
    simp only [TimerQueue.newTimer, Function.update_self]
  constructor
  · intro b u hb
    rcases hheap b u hb with ⟨rfl, _⟩ | ⟨_, hb⟩
    · exact hlt
    · exact h.address b u hb
  · intro b u hb
    rcases hheap b u hb with ⟨rfl, rfl⟩ | ⟨_, hb⟩
    · exact List.mem_append_right _ List.mem_cons_self
    · exact List.mem_append_left _ (h.live b u hb)
  · intro id hid
    have hmem : .created id ∈ s.log ∨ id = ⟨a, s.numCreated + 1⟩ := by
      simpa [TimerQueue.newTimer] using hid
    rcases hmem with hid | rfl
    · obtain ⟨h₀, h₁, hu⟩ := h.created id hid
      refine ⟨h₀, Nat.le_succ_of_le h₁, fun b u hb hq => ?_⟩
      rcases hheap b u hb with ⟨_, rfl⟩ | ⟨_, hb⟩
      · dsimp only at hq
        omega
      · exact hu b u hb hq
    · refine ⟨Nat.succ_pos _, Nat.le_refl _, fun b u hb hq => ?_⟩
      rcases hheap b u hb with ⟨rfl, _⟩ | ⟨_, hb⟩
      · rfl
      · have := (h.created _ (h.live b u hb)).2.1
        dsimp only at hq this
        omega
  · intro q
    have hlog : .deleted q ∈ (s.newTimer a w interval).1.log ↔ .deleted q ∈ s.log := by
      simp [TimerQueue.newTimer]
    rw [hlog, h.deleted]
    constructor
    · rintro ⟨⟨b, hb⟩, hn⟩
      refine ⟨⟨b, List.mem_append_left _ hb⟩, fun c u hc => ?_⟩
      rcases hheap c u hc with ⟨_, rfl⟩ | ⟨_, hc⟩
      · have := (h.created _ hb).2.1
        dsimp only at this ⊢
        omega
      · exact hn c u hc
    · rintro ⟨⟨b, hb⟩, hn⟩
      have hne := hn a _ hnew
      rcases List.mem_append.mp hb with hb | hb
      · exact ⟨⟨b, hb⟩, fun c u hc => hn c u (hold c u hc)⟩
      · simp only [List.mem_singleton, TimerEvent.created.injEq, TimerId.mk.injEq] at hb
        exact absurd hb.2.symm hne
  · exact usedAlive_append h.used fun q _ => id

theorem Numbered.deleteTimer (h : Numbered s) (ht : s.heap a = some t) : Numbered { s with
    heap := Function.update s.heap a none, log := s.log ++ [.deleted t.sequence] } := by
  constructor
  · exact fun b u hb => h.address b u (update_none hb).2
  · exact fun b u hb => List.mem_append_left _ (h.live b u (update_none hb).2)
  · intro id hid
    have hid : .created id ∈ s.log := by simpa using hid
    obtain ⟨h₀, h₁, hu⟩ := h.created id hid
    exact ⟨h₀, h₁, fun b u hb => hu b u (update_none hb).2⟩
  · intro q
    constructor
    · intro hq
      rcases List.mem_append.mp hq with hq | hq
      · obtain ⟨⟨b, hb⟩, hn⟩ := (h.deleted q).mp hq
        exact ⟨⟨b, List.mem_append_left _ hb⟩, fun c u hc => hn c u (update_none hc).2⟩
      · cases List.mem_singleton.mp hq
        refine ⟨⟨a, List.mem_append_left _ (h.live a t ht)⟩, fun b u hb he => ?_⟩
        exact (update_none hb).1 (h.unique (update_none hb).2 ht he)
    · rintro ⟨⟨c, hc⟩, hn⟩
      have hc : .created ⟨c, q⟩ ∈ s.log := by simpa using hc
      apply List.mem_append.mpr
      by_cases hq : t.sequence = q
      · exact .inr (by simp [hq])
      · refine .inl ((h.deleted q).mpr ⟨⟨c, hc⟩, fun b u hb => ?_⟩)
        by_cases hba : b = a
        · subst hba
          cases ht.symm.trans hb
          exact hq
        · exact hn b u ((Function.update_of_ne hba none s.heap).trans hb)
  · apply usedAlive_append h.used
    rintro q hq rfl
    exact h.not_deleted ht hq

theorem Numbered.restartTimer (h : Numbered s) (ht : s.heap a = some t) (now : Timestamp) :
    Numbered { s with
      heap := Function.update s.heap a (some (t.restart now))
      log := s.log ++ [.restarted t.sequence] } := by
  have hheap : ∀ b u, Function.update s.heap a (some (t.restart now)) b = some u →
      ∃ v, s.heap b = some v ∧ v.sequence = u.sequence := by
    intro b u hb
    rcases update_some hb with ⟨rfl, rfl⟩ | ⟨_, hb⟩
    · exact ⟨t, ht, (t.restart_sequence now).symm⟩
    · exact ⟨u, hb, rfl⟩
  have hback : ∀ b v, s.heap b = some v →
      ∃ u, Function.update s.heap a (some (t.restart now)) b = some u ∧ u.sequence = v.sequence := by
    intro b v hb
    by_cases hba : b = a
    · subst hba
      cases ht.symm.trans hb
      exact ⟨_, Function.update_self .., t.restart_sequence now⟩
    · exact ⟨v, by rw [Function.update_of_ne hba, hb], rfl⟩
  have hs : Numbered (s.note (.restarted t.sequence)) :=
    h.note (by simp) (by simp) fun q hq => ⟨a, t, ht, hq⟩
  constructor
  · intro b u hb
    obtain ⟨v, hv, _⟩ := hheap b u hb
    exact h.address b v hv
  · intro b u hb
    obtain ⟨v, hv, hq⟩ := hheap b u hb
    exact hq ▸ hs.live b v hv
  · intro id hid
    obtain ⟨h₀, h₁, hu⟩ := hs.created id hid
    refine ⟨h₀, h₁, fun b u hb hq => ?_⟩
    obtain ⟨v, hv, hvq⟩ := hheap b u hb
    exact hu b v hv (hvq.trans hq)
  · intro q
    refine (hs.deleted q).trans (and_congr_right fun _ => ⟨fun hn b u hb => ?_, fun hn b v hb => ?_⟩)
    · obtain ⟨v, hv, hq⟩ := hheap b u hb
      exact hq ▸ hn b v hv
    · obtain ⟨u, hu, hq⟩ := hback b v hb
      exact hq ▸ hn b u hu
  · exact hs.used

end TimerQueue
end Muduo.Net
