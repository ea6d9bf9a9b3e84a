import Muduo.Net.PollSlots

/-! What `fillActiveChannels` reports after `poll(2)`. -/
namespace Muduo.Net.PollPoller
open Muduo.Support

variable {κ : Type} {fd : κ → Int} {p q : PollPoller κ}

/-- The channels `l` get the events of the slots `pfds`, once each, and nothing else changes. -/
structure Filled (p q : PollPoller κ) (pfds : List PollFd) (l : List κ) : Prop where
  once : l.Nodup
  ready : ∀ k, k ∈ l ↔ ∃ pfd ∈ pfds, 0 < pfd.revents ∧ p.channels pfd.fd = some k
  revents : ∀ pfd ∈ pfds, 0 < pfd.revents → ∀ k, p.channels pfd.fd = some k →
    q.objects k = (p.objects k).set_revents pfd.revents
  others : ∀ k, k ∉ l → q.objects k = p.objects k
  channels : q.channels = p.channels
  pollfds : q.pollfds = p.pollfds

theorem filled_nil {pfds : List PollFd} (h : ∀ pfd ∈ pfds, ¬ 0 < pfd.revents) :
    Filled p p pfds [] where
  once := List.nodup_nil
  ready k := by
    simp only [List.not_mem_nil, false_iff, not_exists, not_and]
    exact fun pfd hm hr => absurd hr (h pfd hm)
  revents pfd hm hr := absurd hr (h pfd hm)
  others _ _ := rfl
  channels := rfl
  pollfds := rfl

theorem Filled.skip {pfd : PollFd} {pfds : List PollFd} {l : List κ} (h : Filled p q pfds l)
    (hr : ¬ 0 < pfd.revents) : Filled p q (pfd :: pfds) l where
  once := h.once
  ready k := by
    rw [h.ready k]
    simp [hr]
  revents b hb hpos := by
    rcases List.mem_cons.mp hb with rfl | hb
    · exact absurd hpos hr
    · exact h.revents b hb hpos
  others := h.others
  channels := h.channels
  pollfds := h.pollfds

variable [DecidableEq κ]

/-- The next slot with events, where no later one has its descriptor. -/
theorem Filled.cons {pfd : PollFd} {pfds : List PollFd} {k : κ} {l : List κ}
    (h : Filled (p.store k ((p.objects k).set_revents pfd.revents)) q pfds l)
    (hr : 0 < pfd.revents) (hk : p.channels pfd.fd = some k)
    (hnew : ∀ b ∈ pfds, 0 < b.revents → p.channels b.fd ≠ some k) :
    Filled p q (pfd :: pfds) (k :: l) where
  once := by
    refine List.nodup_cons.mpr ⟨fun hm => ?_, h.once⟩
    obtain ⟨b, hb, hpos, hbk⟩ := (h.ready k).mp hm
    exact hnew b hb hpos hbk
  ready j := by
    rw [List.mem_cons, h.ready j]
    simp [hr, hk, store, eq_comm]
  revents b hb hpos j hj := by
    rcases List.mem_cons.mp hb with rfl | hb
    · rw [hk] at hj
      cases hj
      have hl : k ∉ l := fun hm => by
        obtain ⟨b, hb, hpos, hbk⟩ := (h.ready k).mp hm
        exact hnew b hb hpos hbk
      rw [h.others k hl, store_self]
    · have hjk : j ≠ k := fun he => hnew b hb hpos (he ▸ hj)
      rw [h.revents b hb hpos j hj, store_of_ne p _ hjk]
  others j hj := by
    rw [List.mem_cons, not_or] at hj
    rw [h.others j hj.2, store_of_ne p _ hj.1]
  channels := h.channels
  pollfds := h.pollfds

/-- Slots with events have channels of their own. -/
structure Ready (fd : κ → Int) (p : PollPoller κ) (pfds : List PollFd) : Prop where
  owner : ∀ pfd ∈ pfds, 0 < pfd.revents → ∃ k, p.channels pfd.fd = some k ∧ fd k = pfd.fd
  apart : pfds.Pairwise fun a b =>
    0 < a.revents → 0 < b.revents → p.channels a.fd ≠ p.channels b.fd

theorem fillFrom_filled (pfds : List PollFd) (p : PollPoller κ) (activeChannels : List κ)
    (h : Ready fd p pfds) : ∃ q l,
      fillFrom fd (pfds.countP fun pfd => 0 < pfd.revents) pfds p activeChannels =
        .ok (q, activeChannels ++ l) ∧ Filled p q pfds l := by
  induction pfds generalizing p activeChannels with
  | nil => exact ⟨p, [], by simp [fillFrom], filled_nil (by simp)⟩
  | cons pfd pfds ih =>
    obtain ⟨hapart, hrest⟩ := List.pairwise_cons.mp h.apart
    rw [fillFrom]
    by_cases hr : 0 < pfd.revents
    · obtain ⟨k, hk, hfd⟩ := h.owner pfd List.mem_cons_self hr
      have hnext : Ready fd (p.store k ((p.objects k).set_revents pfd.revents)) pfds :=
        ⟨fun b hb => h.owner b (List.mem_cons_of_mem _ hb), hrest⟩
      obtain ⟨q, l, hok, hq⟩ := ih _ (activeChannels ++ [k]) hnext
      refine ⟨q, k :: l, ?_, hq.cons hr hk fun b hb hpos he => ?_⟩
      · rw [List.countP_cons_of_pos (by simpa using hr), if_pos (by omega), if_neg (by omega), hk]
        simp [hfd, hok]
      · exact hapart b hb hr hpos (hk.trans he.symm)
    · have hnext : Ready fd p pfds :=
        ⟨fun b hb => h.owner b (List.mem_cons_of_mem _ hb), hrest⟩
      obtain ⟨q, l, hok, hq⟩ := ih p activeChannels hnext
      rw [List.countP_cons_of_neg (by simpa using hr)]
      by_cases hmore : 0 < pfds.countP fun pfd => 0 < pfd.revents
      · exact ⟨q, l, by rw [if_pos (by omega), if_pos (by omega), hok], hq.skip hr⟩
      · refine ⟨p, [], by rw [if_neg (by omega), List.append_nil], filled_nil ?_⟩
        have hnone := List.countP_eq_zero.mp (Nat.eq_zero_of_not_pos hmore)
        exact List.forall_mem_cons.mpr ⟨hr, fun b hb => by simpa using hnone b hb⟩

/-- The slot of a registered channel. -/
def HasSlot (p : PollPoller κ) (k : κ) (pfd : PollFd) : Prop :=
  (p.objects k).channel.addedToLoop = true ∧
    ∃ i : Nat, (p.objects k).index = i ∧ p.pollfds[i]? = some pfd

/-- Each channel whose slot has events is reported once, with its own events, and no other
channel is touched. -/
structure Reports (p q : PollPoller κ) (activeChannels : List κ) : Prop where
  once : activeChannels.Nodup
  ready : ∀ k, k ∈ activeChannels ↔ ∃ pfd, p.HasSlot k pfd ∧ 0 < pfd.revents
  revents : ∀ k pfd, p.HasSlot k pfd → 0 < pfd.revents →
    q.objects k = (p.objects k).set_revents pfd.revents
  others : ∀ k, k ∉ activeChannels → q.objects k = p.objects k

omit [DecidableEq κ] in
/-- A slot with events is that of the channel which the map has for its descriptor. -/
theorem Represents.slot_iff (hfd : ∀ k, 0 ≤ fd k) (h : Represents fd p) (hi : p.Ignores)
    {i : Nat} {pfd : PollFd} {k : κ} (hpfd : p.pollfds[i]? = some pfd) (hr : 0 < pfd.revents) :
    p.channels pfd.fd = some k ↔
      (p.objects k).channel.addedToLoop = true ∧ (p.objects k).index = Int.ofNat i := by
  have hact : ¬ pfd.fd < 0 := by
    intro hneg
    have hz := hi pfd (Array.mem_toList_iff.mpr (Array.mem_of_getElem? hpfd)) hneg
    omega
  have hown : ∀ j, (p.objects j).channel.addedToLoop = true →
      (p.objects j).index = Int.ofNat i → fd j = pfd.fd := by
    intro j hj hji
    have hf := (h.dense.owns_slot hj hji hpfd).1
    have hpos := hfd j
    omega
  constructor
  · intro hk
    obtain ⟨j, hj, hji⟩ := h.dense.owner i (Array.getElem?_eq_some_iff.mp hpfd).1
    have hjk := (h.mapped _ j).mpr ⟨hj, hown j hj hji⟩
    rw [hk] at hjk
    cases hjk
    exact ⟨hj, hji⟩
  · rintro ⟨hk, hki⟩
    exact (h.mapped _ k).mpr ⟨hk, hown k hk hki⟩

omit [DecidableEq κ] in
theorem Represents.ready (hfd : ∀ k, 0 ≤ fd k) (h : Represents fd p) (hi : p.Ignores) :
    Ready fd p p.pollfds.toList where
  owner pfd hm hr := by
    obtain ⟨i, hpfd⟩ := List.getElem?_of_mem hm
    rw [Array.getElem?_toList] at hpfd
    obtain ⟨k, hk, hki⟩ := h.dense.owner i (Array.getElem?_eq_some_iff.mp hpfd).1
    have hmap := (h.slot_iff hfd hi hpfd hr).mpr ⟨hk, hki⟩
    exact ⟨k, hmap, ((h.mapped _ _).mp hmap).2⟩
  apart := by
    rw [List.pairwise_iff_getElem]
    intro i j hilt hjlt hij hri hrj he
    have hpi : p.pollfds[i]? = some p.pollfds.toList[i] := by
      rw [← Array.getElem?_toList, List.getElem?_eq_getElem]
    have hpj : p.pollfds[j]? = some p.pollfds.toList[j] := by
      rw [← Array.getElem?_toList, List.getElem?_eq_getElem]
    obtain ⟨k, hk, hki⟩ := h.dense.owner i (Array.getElem?_eq_some_iff.mp hpi).1
    have hmap := (h.slot_iff hfd hi hpi hri).mpr ⟨hk, hki⟩
    rw [he] at hmap
    have hkj := ((h.slot_iff hfd hi hpj hrj).mp hmap).2
    rw [show (p.objects k).index = Int.ofNat i from hki] at hkj
    cases hkj
    exact Nat.lt_irrefl _ hij

/-- With the numbers that `poll(2)` returns, the loop of `fillActiveChannels` ends well. -/
theorem Represents.fill (hfd : ∀ k, 0 ≤ fd k) (h : Represents fd p) (hi : p.Ignores) :
    ∃ q activeChannels, p.fillActiveChannels fd p.numEvents = .ok (q, activeChannels) ∧
      Filled p q p.pollfds.toList activeChannels :=
  fillFrom_filled p.pollfds.toList p [] (h.ready hfd hi)

omit [DecidableEq κ] in
theorem Represents.reports (hfd : ∀ k, 0 ≤ fd k) (h : Represents fd p) (hi : p.Ignores)
    {l : List κ} (hq : Filled p q p.pollfds.toList l) : Reports p q l where
  once := hq.once
  ready k := by
    rw [hq.ready k]
    constructor
    · rintro ⟨pfd, hm, hr, hk⟩
      obtain ⟨i, hpfd⟩ := List.getElem?_of_mem hm
      rw [Array.getElem?_toList] at hpfd
      obtain ⟨hreg, hki⟩ := (h.slot_iff hfd hi hpfd hr).mp hk
      exact ⟨pfd, ⟨hreg, i, hki, hpfd⟩, hr⟩
    · rintro ⟨pfd, ⟨hreg, i, hki, hpfd⟩, hr⟩
      exact ⟨pfd, Array.mem_toList_iff.mpr (Array.mem_of_getElem? hpfd), hr,
        (h.slot_iff hfd hi hpfd hr).mpr ⟨hreg, hki⟩⟩
  revents k pfd := by
    rintro ⟨hreg, i, hki, hpfd⟩ hr
    exact hq.revents pfd (Array.mem_toList_iff.mpr (Array.mem_of_getElem? hpfd)) hr k
      ((h.slot_iff hfd hi hpfd hr).mpr ⟨hreg, hki⟩)
  others := hq.others

omit [DecidableEq κ] in
/-- The events of a slot and of a channel are no part of the representation. -/
theorem Represents.answered (h : Represents fd p) (revents : Nat → Int) :
    Represents fd (p.answered revents) where
  dense := by
    apply h.dense.congr (by simp [PollPoller.answered])
    · exact fun _ => Iff.rfl
    · exact fun _ => rfl
    · intro k i pfd hpfd hown
      exact ⟨{ pfd with revents := revents i }, by simp [PollPoller.answered, hpfd], hown⟩
  mapped := h.mapped

omit [DecidableEq κ] in
/-- Only the events of the channels change. -/
theorem Filled.objects {pfds : List PollFd} {l : List κ} (hq : Filled p q pfds l) (k : κ) :
    (q.objects k).channel = (p.objects k).channel ∧
      (q.objects k).index = (p.objects k).index := by
  by_cases hk : k ∈ l
  · obtain ⟨pfd, hm, hr, hmap⟩ := (hq.ready k).mp hk
    rw [hq.revents pfd hm hr k hmap]
    exact ⟨rfl, rfl⟩
  · rw [hq.others k hk]
    exact ⟨rfl, rfl⟩

omit [DecidableEq κ] in
theorem Represents.filled (h : Represents fd p) {pfds : List PollFd} {l : List κ}
    (hq : Filled p q pfds l) : Represents fd q := by
  have hobj := hq.objects
  constructor
  · rw [hq.pollfds]
    apply h.dense.congr rfl
    · intro k
      simp only [view, (hobj k).1]
    · exact fun k => (hobj k).2
    · intro k i pfd hpfd hown
      refine ⟨pfd, hpfd, ?_⟩
      simpa only [view, (hobj k).1] using hown
  · intro f k
    rw [hq.channels, (hobj k).1]
    exact h.mapped f k

/-- A step can fail by an assertion only; the answer of the kernel always goes through. -/
theorem step_represents (hfd : ∀ k, 0 ≤ fd k) (h : Represents fd p) (a : Step κ)
    (he : (machine fd).enabled p a) : Asserted ((machine fd).step p a) (Represents fd) := by
  cases a with
  | call c =>
    cases c with
    | update op k => exact updateChannel_represents h rfl (by simp)
    | remove k =>
      by_cases hidle : (p.objects k).channel.isNoneEvent = true
      · have hrem := removeChannel_represents (k := k) (o := { p.objects k with
          channel := { (p.objects k).channel with addedToLoop := false } }) hfd h rfl rfl
        simpa [machine, Channel.remove, hidle, pure, Except.pure] using hrem
      · exact .inl (by simp [machine, Channel.remove, assert, hidle])
  | poll revents =>
    have ha := h.answered revents
    obtain ⟨q, l, hok, hq⟩ := ha.fill hfd he
    exact .inr ⟨q, by simp [machine, hok, -bind_pure_comp, pure, Except.pure], ha.filled hq⟩

theorem represents_run (hfd : ∀ k, 0 ≤ fd k) {steps : List (Step κ)}
    (h : (machine fd).Run new steps p) : Represents fd p := by
  apply h.invariant _ represents_new
  intro p a q hp he hs
  obtain hs' | ⟨q', hs', hq⟩ := step_represents hfd hp a he
  · rw [hs] at hs'
    cases hs'
  · rw [hs] at hs'
    cases hs'
    exact hq

/-- Over every sequence of calls whose assertions hold, the slots represent the registered
channels, nothing outside the vector or the map is touched, and what `poll(2)` answers
reaches exactly the channels it is about. -/
theorem slots_represent_channels (hfd : ∀ k, 0 ≤ fd k) (steps : List (Step κ))
    (h : (machine fd).Run new steps p) :
    Represents fd p ∧
    (∀ a, (machine fd).enabled p a → (machine fd).step p a ≠ .error .memory) ∧
    ∀ revents, (p.answered revents).Ignores → ∃ q activeChannels,
      (p.answered revents).fillActiveChannels fd (p.answered revents).numEvents =
        .ok (q, activeChannels) ∧ Reports (p.answered revents) q activeChannels := by
  have hp := represents_run hfd h
  refine ⟨hp, fun a he hs => ?_, fun revents hi => ?_⟩
  · obtain hs' | ⟨q, hs', _⟩ := step_represents hfd hp a he <;> rw [hs] at hs' <;> cases hs'
  · have ha := hp.answered revents
    obtain ⟨q, l, hok, hq⟩ := ha.fill hfd hi
    exact ⟨q, l, hok, ha.reports hfd hi hq⟩

instance enabledDecidable (p : PollPoller κ) (a : Step κ) :
    Decidable ((machine fd).enabled p a) := by
  cases a <;> unfold machine Ignores <;> infer_instance

/-- The first of three channels is removed while the last slot is ignored. -/
theorem slots_represent_channels_sample : ∃ p : PollPoller Nat,
    (machine Nat.cast).Run new [.call (.update .enableReading 4), .call (.update .enableWriting 5),
      .call (.update .enableReading 6), .call (.update .disableAll 6),
      .call (.update .disableReading 4), .call (.remove 4)] p ∧
    (p.objects 6).index = 0 ∧ p.pollfds = #[⟨-7, 0, 0⟩, ⟨5, 4, 0⟩] ∧ Represents Nat.cast p := by
  have hr : (machine Nat.cast).Run (new : PollPoller Nat)
      [.call (.update .enableReading 4), .call (.update .enableWriting 5),
        .call (.update .enableReading 6), .call (.update .disableAll 6),
        .call (.update .disableReading 4), .call (.remove 4)] _ := Machine.run_of_exec rfl
  exact ⟨_, hr, rfl, rfl, (slots_represent_channels (fun _ => Int.natCast_nonneg _) _ hr).1⟩

end Muduo.Net.PollPoller
