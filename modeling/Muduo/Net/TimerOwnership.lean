import Mathlib.Logic.ExistsUnique
import Muduo.Net.TimerInvariant

/-! Every timer is owned once: by the two indexes, by the batch that `handleRead` runs,
or by nobody because it is deleted. -/
namespace Muduo.Net.TimerQueue
open Muduo.Base Muduo.Support

inductive Place where
  | queued | running | deleted
  deriving DecidableEq, Repr

/-- Where the timer of `id` is. A later timer can live at the same address, under
another sequence number. -/
def At (s : TimerQueue) (id : TimerId) : Place → Prop
  | .queued => ⟨id.timer, id.sequence⟩ ∈ s.activeTimers
  | .running => id.timer ∈ s.running ∧ ∃ t, s.heap id.timer = some t ∧ t.sequence = id.sequence
  | .deleted => .deleted id.sequence ∈ s.log

structure Represented (s : TimerQueue) : Prop where
  same : ∀ a, (∃ w, ⟨w, a⟩ ∈ s.timers) ↔ ∃ q, ⟨a, q⟩ ∈ s.activeTimers
  key : ∀ w a, ⟨w, a⟩ ∈ s.timers → ∃ t, s.heap a = some t ∧ t.expiration = w
  sequence : ∀ a q, ⟨a, q⟩ ∈ s.activeTimers → ∃ t, s.heap a = some t ∧ t.sequence = q
  placed : ∀ id, .created id ∈ s.log → ∃! p, s.At id p
  used : UsedAlive s.log

variable {s : TimerQueue} {id : TimerId}

theorem Inv.placed (h : Inv s) (hid : .created id ∈ s.log) : ∃! p, s.At id p := by
  obtain ⟨_, _, haddr⟩ := h.numbered.created id hid
  by_cases hlive : ∃ t, s.heap id.timer = some t ∧ t.sequence = id.sequence
  · obtain ⟨t, ht, hseq⟩ := hlive
    have hnot : ¬ s.At id .deleted := by
      intro hd
      exact h.numbered.not_deleted ht (hseq ▸ hd)
    by_cases hr : id.timer ∈ s.running
    · refine ⟨.running, ⟨hr, t, ht, hseq⟩, fun p hp => ?_⟩
      cases p with
      | queued =>
        obtain ⟨_, _, _, hout⟩ := (h.indexed.active _ _).mp hp
        exact absurd hr hout
      | running => rfl
      | deleted => exact absurd hp hnot
    · refine ⟨.queued, (h.indexed.active _ _).mpr ⟨t, ht, hseq, hr⟩, fun p hp => ?_⟩
      cases p with
      | queued => rfl
      | running => exact absurd hp.1 hr
      | deleted => exact absurd hp hnot
  · have hgone : .deleted id.sequence ∈ s.log := by
      refine (h.numbered.deleted _).mpr ⟨⟨_, hid⟩, fun a t ht hseq => hlive ⟨t, ?_, hseq⟩⟩
      rw [← haddr a t ht hseq]
      exact ht
    refine ⟨.deleted, hgone, fun p hp => ?_⟩
    cases p with
    | queued =>
      obtain ⟨t, ht, hseq, _⟩ := (h.indexed.active _ _).mp hp
      exact absurd ⟨t, ht, hseq⟩ hlive
    | running => exact absurd hp.2 hlive
    | deleted => rfl

theorem Inv.represented (h : Inv s) : Represented s := by
  constructor
  · intro a
    constructor
    · rintro ⟨w, ha⟩
      obtain ⟨t, ht, _, hout⟩ := (h.indexed.timers w a).mp ha
      exact ⟨t.sequence, (h.indexed.active _ _).mpr ⟨t, ht, rfl, hout⟩⟩
    · rintro ⟨q, ha⟩
      obtain ⟨t, ht, _, hout⟩ := (h.indexed.active a q).mp ha
      exact ⟨t.expiration, (h.indexed.timers _ _).mpr ⟨t, ht, rfl, hout⟩⟩
  · intro w a ha
    obtain ⟨t, ht, hw, _⟩ := (h.indexed.timers w a).mp ha
    exact ⟨t, ht, hw⟩
  · intro a q ha
    obtain ⟨t, ht, hq, _⟩ := (h.indexed.active a q).mp ha
    exact ⟨t, ht, hq⟩
  · exact fun id hid => h.placed hid
  · exact h.numbered.used

theorem reachable_inv {cs : List Call} (h : machine.Run new cs s) : Inv s :=
  h.invariant (fun _ _ _ hi he hs => step_keeps hi he hs) new_inv

/-- In every run the representation holds between any two operations, and no operation
fails an assertion or uses a deleted timer. -/
theorem owned_once {cs : List Call} (h : machine.Run new cs s) :
    Represented s ∧ ∀ c, machine.enabled s c → ∃ s', machine.step s c = .ok s' := by
  have hi := reachable_inv h
  refine ⟨hi.represented, fun c he => ?_⟩
  obtain ⟨s', hok, _⟩ := step_spec hi he
  exact ⟨s', hok⟩

/-- The callback of the first timer adds a timer and cancels the second. -/
theorem owned_once_reentrant : ∃ s, machine.Run new [.addTimer 1 5 none, .addTimer 2 5 (some 3),
    .handleRead 7, .runNext, .addTimer 3 9 none, .cancel ⟨2, 2⟩, .runNext, .finishRead] s ∧
    Represented s := by
  obtain ⟨s, hr, _⟩ := machine.exists_run new [.addTimer 1 5 none, .addTimer 2 5 (some 3),
    .handleRead 7, .runNext, .addTimer 3 9 none, .cancel ⟨2, 2⟩, .runNext, .finishRead]
    callingExpiredTimers false (by decide)
  exact ⟨s, hr, (owned_once hr).1⟩

end Muduo.Net.TimerQueue
