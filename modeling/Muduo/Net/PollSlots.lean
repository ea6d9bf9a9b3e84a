import Muduo.Net.PollPoller

/-! The slots of the vector belong to the registered channels, one each, so that the events
`poll(2)` reports reach the channels they are about. -/
namespace Muduo.Net.PollPoller
open Muduo.Support

variable {κ : Type} {fd : κ → Int}

/-- A registered channel owns a slot with its descriptor, or that of an ignored one, and
its mask. -/
def view (fd : κ → Int) : SlotView κ PolledChannel PollFd where
  live o := o.channel.addedToLoop = true
  index := PolledChannel.index
  owns k o pfd := (pfd.fd = fd k ∨ pfd.fd = -fd k - 1) ∧ pfd.events = o.channel.events

/-- The indices of the registered channels are the positions of the slots, and the map
holds just these channels. -/
structure Represents (fd : κ → Int) (p : PollPoller κ) : Prop where
  dense : Dense (view fd) p.objects p.pollfds
  mapped : ∀ f k, p.channels f = some k ↔
    (p.objects k).channel.addedToLoop = true ∧ fd k = f

theorem represents_new : Represents fd (new : PollPoller κ) where
  dense := .empty fun _ h => Bool.noConfusion h
  mapped _ _ := by simp [new, PolledChannel.new, Channel.new]

variable {p q : PollPoller κ} {k : κ}

theorem Represents.not_registered (h : Represents fd p) (hidx : (p.objects k).index < 0) :
    ¬ (p.objects k).channel.addedToLoop = true := by
  intro hk
  obtain ⟨i, _, hi, _⟩ := h.dense.slot k hk
  have hi : (p.objects k).index = Int.ofNat i := hi
  rw [hi] at hidx
  exact absurd hidx (Int.not_lt.mpr (Int.natCast_nonneg i))

theorem pollfd_ok {idx : Int} (h₀ : 0 ≤ idx) (hlt : idx < p.pollfds.size) :
    ∃ pfd, p.pollfds[idx.toNat]? = some pfd ∧ p.pollfd idx = .ok pfd := by
  obtain ⟨pfd, hpfd⟩ : ∃ pfd, p.pollfds[idx.toNat]? = some pfd :=
    ⟨_, Array.getElem?_eq_getElem (by omega)⟩
  exact ⟨pfd, hpfd, by rw [pollfd, hpfd]⟩

/-- `-fd-1` stands for `fd`. -/
theorem decode {slot x : Int} (hx : 0 ≤ x) (h : slot = x ∨ slot = -x - 1) :
    (if slot < 0 then -slot - 1 else slot) = x := by
  split <;> omega

/-- The channel that owns the last slot can be found through its descriptor. -/
theorem Represents.channelAtEnd (hfd : ∀ k, 0 ≤ fd k) (h : Represents fd p) {n : Nat}
    (hn : n < p.pollfds.size) :
    ∃ m pfd, p.pollfds[n]? = some pfd ∧ (p.objects m).channel.addedToLoop = true ∧
      (p.objects m).index = Int.ofNat n ∧
      (if pfd.fd < 0 then -pfd.fd - 1 else pfd.fd) = fd m ∧ p.channels (fd m) = some m := by
  obtain ⟨m, hm, hmn⟩ := h.dense.owner n hn
  obtain ⟨i, pfd, hi, hpfd, hown⟩ := h.dense.slot m hm
  rw [hmn] at hi
  cases hi
  exact ⟨m, pfd, hpfd, hm, hmn, decode (hfd m) hown.1, (h.mapped _ _).mpr ⟨hm, rfl⟩⟩

section Updates
variable [DecidableEq κ]

theorem update_objects_ne {objects : κ → PolledChannel} {o : PolledChannel} {j : κ} (h : j ≠ k) :
    Function.update objects k o j = objects j := Function.update_of_ne h o objects

/-- A new channel is put behind the last slot. -/
theorem Represents.push (h : Represents fd p) {o : PolledChannel} {idx : Int}
    (hnone : p.channels (fd k) = none) (hk : ¬ (p.objects k).channel.addedToLoop = true)
    (hreg : o.channel.addedToLoop = true) (hidx : idx = Int.ofNat p.pollfds.size) :
    Represents fd { p with
      objects := Function.update p.objects k (o.set_index idx)
      pollfds := p.pollfds.push ⟨fd k, o.channel.events, 0⟩
      channels := Function.update p.channels (fd k) (some k) } where
  dense := by
    apply h.dense.push hk (fun j hj => update_objects_ne hj)
    · simpa [view, PolledChannel.set_index] using hreg
    · simpa [view, PolledChannel.set_index] using hidx
    · simp [view, PolledChannel.set_index]
  mapped f j := by
    by_cases hj : j = k
    · subst hj
      have hreg' : (o.set_index idx).channel.addedToLoop = true := hreg
      by_cases hf : f = fd j
      · simp [hf, hreg']
      · simp only [Function.update_of_ne hf, Function.update_self, hreg', true_and]
        rw [h.mapped]
        exact iff_of_false (fun hc => hk hc.1) (Ne.symm hf)
    · by_cases hf : f = fd k
      · subst hf
        simp only [Function.update_self, update_objects_ne hj]
        rw [← h.mapped, hnone]
        simp [Ne.symm hj]
      · simp only [Function.update_of_ne hf, update_objects_ne hj]
        exact h.mapped f j

/-- A registered channel keeps its slot, with its new mask. -/
theorem Represents.set (h : Represents fd p) {o : PolledChannel} {i : Nat} {slot : Int}
    (hk : (p.objects k).channel.addedToLoop = true) (hi : (p.objects k).index = Int.ofNat i)
    (hreg : o.channel.addedToLoop = true) (hidx : o.index = Int.ofNat i)
    (hslot : slot = fd k ∨ slot = -fd k - 1) :
    Represents fd { p with
      objects := Function.update p.objects k o
      pollfds := p.pollfds.setIfInBounds i ⟨slot, o.channel.events, 0⟩ } where
  dense := by
    apply h.dense.set hk hi (fun j hj => update_objects_ne hj)
    · simpa [view] using hreg
    · simpa [view] using hidx
    · simpa [view] using hslot
  mapped f j := by
    by_cases hj : j = k
    · subst hj
      simp only [Function.update_self]
      rw [h.mapped, hk, hreg]
    · simp only [update_objects_ne hj]
      exact h.mapped f j

theorem Represents.mapped_erase (h : Represents fd p) {objects : κ → PolledChannel}
    (hk : (p.objects k).channel.addedToLoop = true)
    (hgone : (objects k).channel.addedToLoop = false)
    (hrest : ∀ j, j ≠ k →
      (objects j).channel.addedToLoop = (p.objects j).channel.addedToLoop) (f : Int) (j : κ) :
    Function.update p.channels (fd k) none f = some j ↔
      (objects j).channel.addedToLoop = true ∧ fd j = f := by
  have hat := (h.mapped (fd k) k).mpr ⟨hk, rfl⟩
  by_cases hj : j = k
  · subst hj
    by_cases hf : f = fd j
    · simp [hf, hgone]
    · simp [hgone, Function.update_of_ne hf, h.mapped, Ne.symm hf]
  · rw [hrest j hj, ← h.mapped]
    by_cases hf : f = fd k
    · subst hf
      simp [hat, Ne.symm hj]
    · rw [Function.update_of_ne hf]

theorem Represents.pop (h : Represents fd p) {o : PolledChannel} {i : Nat}
    (hk : (p.objects k).channel.addedToLoop = true) (hi : (p.objects k).index = Int.ofNat i)
    (hlast : i + 1 = p.pollfds.size) (hreg : o.channel.addedToLoop = false) :
    Represents fd { p with
      objects := Function.update p.objects k o
      channels := Function.update p.channels (fd k) none
      pollfds := p.pollfds.pop } where
  dense := h.dense.pop hk hi hlast (by simp [view, hreg]) fun j hj => update_objects_ne hj
  mapped := h.mapped_erase hk (by simp [hreg]) fun j hj => by simp only [update_objects_ne hj]

theorem Represents.swap_pop (h : Represents fd p) {o : PolledChannel} {m : κ} {i n : Nat} {idx : Int}
    (hk : (p.objects k).channel.addedToLoop = true) (hi : (p.objects k).index = Int.ofNat i)
    (hn : n + 1 = p.pollfds.size) (hin : i < n)
    (hm : (p.objects m).channel.addedToLoop = true) (hmn : (p.objects m).index = Int.ofNat n)
    (hreg : o.channel.addedToLoop = false) (hidx : idx = Int.ofNat i) :
    Represents fd { p with
      objects := Function.update (Function.update p.objects k o) m ((p.objects m).set_index idx)
      channels := Function.update p.channels (fd k) none
      pollfds := (p.pollfds.swapIfInBounds i n).pop } := by
  have hmk : m ≠ k := by
    rintro rfl
    rw [hi] at hmn
    cases hmn
    exact Nat.lt_irrefl _ hin
  have hrest : ∀ j, j ≠ k → j ≠ m → Function.update (Function.update p.objects k o) m
      ((p.objects m).set_index idx) j = p.objects j := by
    intro j hjk hjm
    rw [Function.update_of_ne hjm, Function.update_of_ne hjk]
  have hgone : (Function.update (Function.update p.objects k o) m
      ((p.objects m).set_index idx) k).channel.addedToLoop = false := by
    rw [Function.update_of_ne (Ne.symm hmk), Function.update_self, hreg]
  constructor
  · apply h.dense.swap_pop hk hi hn hin hm hmn (by simp [view, hgone])
    · simpa [view, PolledChannel.set_index] using hm
    · simpa [view, PolledChannel.set_index] using hidx
    · intro b hb
      simpa [view, PolledChannel.set_index] using hb
    · exact hrest
  · apply h.mapped_erase hk hgone
    intro j hjk
    by_cases hjm : j = m
    · subst hjm
      simp [PolledChannel.set_index]
    · rw [hrest j hjk hjm]

theorem updateChannel_represents {o : PolledChannel} (h : Represents fd p)
    (hidx : o.index = (p.objects k).index) (hreg : o.channel.addedToLoop = true) :
    Asserted ((p.store k o).updateChannel fd k) (Represents fd) := by
  unfold updateChannel
  simp only [store, Function.update_self]
  split
  · next hneg =>
    apply Asserted.assert_bind
    intro hnone
    have hk := h.not_registered (k := k) (by omega)
    rw [Function.update_idem]
    apply Asserted.intro
    apply h.push hnone hk hreg
    simp
  · next hneg =>
    apply Asserted.assert_bind
    intro hsome
    apply Asserted.assert_bind
    intro hrange
    obtain ⟨pfd, _, hpfd⟩ := pollfd_ok hrange.1 hrange.2
    rw [pollfd] at hpfd
    rw [pollfd, hpfd]
    apply Asserted.assert_bind
    intro hfd
    apply Asserted.intro
    have hi : o.index = Int.ofNat o.index.toNat := (Int.toNat_of_nonneg hrange.1).symm
    apply h.set ((h.mapped _ _).mp hsome).1 (hidx ▸ hi) hreg hi
    split
    · exact .inr rfl
    · exact .inl rfl

theorem removeChannel_represents (hfd : ∀ k, 0 ≤ fd k) {o : PolledChannel} (h : Represents fd p)
    (hidx : o.index = (p.objects k).index) (hreg : o.channel.addedToLoop = false) :
    Asserted ((p.store k o).removeChannel fd k) (Represents fd) := by
  unfold removeChannel
  simp only [store, Function.update_self]
  apply Asserted.assert_bind
  intro hsome
  apply Asserted.assert_bind
  intro hidle
  apply Asserted.assert_bind
  intro hrange
  obtain ⟨pfd, _, hpfd⟩ := pollfd_ok hrange.1 hrange.2
  rw [pollfd] at hpfd
  rw [pollfd, hpfd]
  apply Asserted.assert_bind
  intro hslot
  have hk := ((h.mapped _ _).mp hsome).1
  have hi : (p.objects k).index = Int.ofNat o.index.toNat := by
    rw [← hidx]
    exact (Int.toNat_of_nonneg hrange.1).symm
  split
  · next hlast =>
    apply Asserted.intro
    exact h.pop hk hi (by omega) hreg
  · next hlast =>
    obtain ⟨m, back, hback, hm, hmn, hfdm, hmap⟩ :=
      h.channelAtEnd hfd (n := p.pollfds.size - 1) (by omega)
    have hkm : fd m ≠ fd k := by
      intro he
      rw [he, hsome] at hmap
      cases hmap
      rw [hi] at hmn
      exact hlast (Int.ofNat.inj hmn)
    have hlt : o.index.toNat < p.pollfds.size - 1 := by omega
    have hmk : m ≠ k := fun he => hkm (by rw [he])
    have hend : p.pollfd ((p.pollfds.size - 1 : Nat) : Int) = .ok back := by
      rw [pollfd, Int.toNat_natCast, hback]
    rw [pollfd] at hend
    rw [pollfd, hend]
    dsimp only [ok_bind]
    rw [hfdm, Function.update_of_ne hkm, hmap]
    dsimp only
    rw [Function.update_of_ne hmk]
    apply Asserted.intro
    apply h.swap_pop hk hi (by omega) hlt hm hmn hreg
    exact (Int.toNat_of_nonneg hrange.1).symm

end Updates

end Muduo.Net.PollPoller
