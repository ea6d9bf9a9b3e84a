import Muduo.Net.PollReport

/-! Which slots `poll(2)` ignores, and which channels can be removed: a channel's first
call pushes its descriptor as it is, and only a later one negates it. -/
namespace Muduo.Net.PollPoller
open Muduo.Support

variable {κ : Type} {fd : κ → Int} {p q : PollPoller κ} {k : κ}

/-- What the slot of a channel holds. -/
def slotFd (fd : κ → Int) (k : κ) (ch : Channel) : Int :=
  if ch.isNoneEvent = true ∧ ch.updates ≠ 1 then -fd k - 1 else fd k

def slotView (fd : κ → Int) : SlotView κ PolledChannel PollFd where
  live o := o.channel.addedToLoop = true
  index := PolledChannel.index
  owns k o pfd := pfd.fd = slotFd fd k o.channel

/-- The slots hold what the calls have left there, and a channel that was ever handed to the
poller has an index. -/
structure Placed (fd : κ → Int) (p : PollPoller κ) : Prop where
  slots : Represents fd p
  held : Dense (slotView fd) p.objects p.pollfds
  used : ∀ k, 0 ≤ (p.objects k).index ↔ 0 < (p.objects k).channel.updates

theorem placed_new : Placed fd (new : PollPoller κ) where
  slots := represents_new
  held := .empty fun _ h => Bool.noConfusion h
  used _ := by simp [new, PolledChannel.new, Channel.new]

theorem Placed.updates_pos (h : Placed fd p) (hk : (p.objects k).channel.addedToLoop = true) :
    0 < (p.objects k).channel.updates := by
  rw [← h.used]
  exact Int.not_lt.mp fun hneg => h.slots.not_registered hneg hk

/-- Where a registered channel stands: its slot `i` is in range and holds `pfd`. -/
structure Seated (fd : κ → Int) (p : PollPoller κ) (k : κ) (i : Nat) (pfd : PollFd) : Prop where
  index : (p.objects k).index = Int.ofNat i
  range : 0 ≤ Int.ofNat i ∧ Int.ofNat i < p.pollfds.size
  slot : p.pollfds[(Int.ofNat i).toNat]? = some pfd
  mapped : p.channels (fd k) = some k
  own : pfd.fd = fd k ∨ pfd.fd = -fd k - 1
  held : pfd.fd = slotFd fd k (p.objects k).channel
  events : pfd.events = (p.objects k).channel.events

theorem Placed.seated (h : Placed fd p) (hk : (p.objects k).channel.addedToLoop = true) :
    ∃ i pfd, Seated fd p k i pfd := by
  obtain ⟨i, pfd, hi, hpfd, hown⟩ := h.slots.dense.slot k hk
  have hlt := h.slots.dense.slot_lt hk hi
  exact ⟨i, pfd, hi, ⟨Int.natCast_nonneg i, Int.ofNat_lt.mpr hlt⟩, hpfd,
    (h.slots.mapped _ _).mpr ⟨hk, rfl⟩, hown.1, h.held.owns_slot hk hi hpfd, hown.2⟩

/-- What one call does to the channels and to the map. -/
structure Effect (fd : κ → Int) [DecidableEq κ] (p q : PollPoller κ) (k : κ) (ch : Channel)
    (c : Option κ) : Prop where
  channel : (q.objects k).channel = ch
  others : ∀ j, j ≠ k → (q.objects j).channel = (p.objects j).channel
  channels : q.channels = Function.update p.channels (fd k) c

/-- The descriptor of `k` is not that of another registered channel. -/
def Owns (fd : κ → Int) (p : PollPoller κ) (k : κ) : Prop :=
  p.channels (fd k) = none ∨ p.channels (fd k) = some k

@[simp] theorem apply_updates (op : InterestOp) (ch : Channel) :
    (op.apply ch).updates = ch.updates + 1 := by
  cases op <;> rfl

section Calls
variable [DecidableEq κ]

/-- The first call on a channel pushes its slot. -/
theorem Placed.push (h : Placed fd p) (hown : Owns fd p k)
    (hu : (p.objects k).channel.updates = 0) (op : InterestOp) : ∃ q,
      (machine fd).step p (.call (.update op k)) = .ok q ∧ Placed fd q ∧
        Effect fd p q k (op.apply (p.objects k).channel) (some k) := by
  have hidx : (p.objects k).index < 0 := by
    have := h.used k
    omega
  have hk := h.slots.not_registered hidx
  have hnone : p.channels (fd k) = none :=
    hown.resolve_right fun hsome => hk ((h.slots.mapped _ _).mp hsome).1
  refine ⟨{ p with
      objects := Function.update p.objects k
        { p.objects k with channel := op.apply (p.objects k).channel, index := p.pollfds.size }
      pollfds := p.pollfds.push ⟨fd k, (op.apply (p.objects k).channel).events, 0⟩
      channels := Function.update p.channels (fd k) (some k) }, ?_, ⟨?_, ?_, fun j => ?_⟩, ?_⟩
  · simp [machine, updateChannel, store, hidx, hnone, PolledChannel.set_index, -bind_pure_comp,
      pure, Except.pure]
  · exact h.slots.push hnone hk (o := { p.objects k with
      channel := op.apply (p.objects k).channel }) (by simp) rfl
  · apply h.held.push hk (fun j hj => update_objects_ne hj)
    · simp [slotView]
    · simp [slotView]
    · simp [slotView, slotFd, hu]
  · by_cases hj : j = k
    · subst hj
      simp
    · simpa [hj] using h.used j
  · exact ⟨by simp, fun j hj => by simp [hj], rfl⟩

/-- A later call sets the slot, negated exactly without interest. -/
theorem Placed.set (h : Placed fd p) (hk : (p.objects k).channel.addedToLoop = true)
    (op : InterestOp) : ∃ q,
      (machine fd).step p (.call (.update op k)) = .ok q ∧ Placed fd q ∧
        Effect fd p q k (op.apply (p.objects k).channel) (some k) := by
  obtain ⟨i, pfd, hi, hrange, hpoll, hsome, hown, _⟩ := h.seated hk
  have hu := h.updates_pos hk
  have hslot : (if (op.apply (p.objects k).channel).isNoneEvent = true then -fd k - 1 else fd k) =
      slotFd fd k (op.apply (p.objects k).channel) := by
    have hne : (op.apply (p.objects k).channel).updates ≠ 1 := by
      rw [apply_updates]
      omega
    simp only [slotFd, ne_eq, hne, not_false_eq_true, and_true]
  refine ⟨{ p with
      objects := Function.update p.objects k
        { p.objects k with channel := op.apply (p.objects k).channel }
      pollfds := p.pollfds.setIfInBounds i ⟨slotFd fd k (op.apply (p.objects k).channel),
        (op.apply (p.objects k).channel).events, 0⟩ }, ?_, ⟨?_, ?_, fun j => ?_⟩, ?_⟩
  · simp only [machine, updateChannel, store, Function.update_self, hi, pollfd, hpoll, hslot]
    rw [if_neg (Int.not_lt.mpr hrange.1)]
    refine (assert_bind_true hsome _).trans ?_
    refine (assert_bind_true hrange _).trans ?_
    exact assert_bind_true hown _
  · apply h.slots.set hk hi (o := { p.objects k with
      channel := op.apply (p.objects k).channel }) (by simp) hi
    unfold slotFd
    split
    · exact .inr rfl
    · exact .inl rfl
  · apply h.held.set hk hi (fun j hj => update_objects_ne hj)
    · simp [slotView]
    · simpa [slotView] using hi
    · simp [slotView]
  · by_cases hj : j = k
    · subst hj
      have := h.used j
      simp
      omega
    · simpa [hj] using h.used j
  · exact ⟨by simp, fun j hj => by simp [hj], by rw [← hsome, Function.update_eq_self]⟩

/-- A channel as `remove()` hands it to the poller. -/
def removed (o : PolledChannel) : PolledChannel :=
  { o with channel := { o.channel with addedToLoop := false } }

theorem step_remove (hidle : (p.objects k).channel.isNoneEvent = true) :
    (machine fd).step p (.call (.remove k)) =
      (p.store k (removed (p.objects k))).removeChannel fd k := by
  simp [machine, Channel.remove, hidle, removed, pure, Except.pure]

private theorem used_update {objects : κ → PolledChannel} {o : PolledChannel} {j : κ}
    (h : ∀ j, 0 ≤ (objects j).index ↔ 0 < (objects j).channel.updates)
    (ho : 0 ≤ o.index ↔ 0 < o.channel.updates) :
    0 ≤ (Function.update objects k o j).index ↔
      0 < (Function.update objects k o j).channel.updates := by
  by_cases hj : j = k
  · subst hj
    simpa using ho
  · simpa [hj] using h j

/-- A negated slot is given up, and the last one takes its place. -/
theorem Placed.remove (hfd : ∀ k, 0 ≤ fd k) (h : Placed fd p)
    (hk : (p.objects k).channel.addedToLoop = true)
    (hidle : (p.objects k).channel.isNoneEvent = true)
    (hu : (p.objects k).channel.updates ≠ 1) : ∃ q,
      (machine fd).step p (.call (.remove k)) = .ok q ∧ Placed fd q ∧
        Effect fd p q k { (p.objects k).channel with addedToLoop := false } none := by
  obtain ⟨i, pfd, hi, hrange, hpoll, hsome, _, hheld, hevents⟩ := h.seated hk
  have hlt : i < p.pollfds.size := Int.ofNat_lt.mp hrange.2
  have hneg : pfd.fd = -fd k - 1 := by
    rw [hheld, slotFd, if_pos ⟨hidle, hu⟩]
  have hgone : (removed (p.objects k)).channel.isNoneEvent = true := hidle
  have hidx : (removed (p.objects k)).index = Int.ofNat i := hi
  rw [step_remove hidle]
  simp only [removeChannel, store, Function.update_self, hidx, pollfd, hpoll]
  rw [show (Int.ofNat i).toNat = i from rfl]
  by_cases hlast : i = p.pollfds.size - 1
  · refine ⟨_, ?_, ⟨h.slots.pop hk hi (by omega) (o := removed (p.objects k)) rfl,
      h.held.pop hk hi (by omega) (by simp [slotView, removed]) fun j hj => update_objects_ne hj,
      fun j => used_update h.used (h.used k)⟩,
      ⟨by simp [removed], fun j hj => by simp [hj], rfl⟩⟩
    refine (assert_bind_true hsome _).trans ?_
    refine (assert_bind_true hgone _).trans ?_
    refine (assert_bind_true hrange _).trans ?_
    refine (assert_bind_true ⟨hneg, hevents⟩ _).trans ?_
    exact if_pos hlast
  · obtain ⟨m, back, hback, hm, hmn, hfdm, hmap⟩ :=
      h.slots.channelAtEnd hfd (n := p.pollfds.size - 1) (by omega)
    have hmk : m ≠ k := by
      rintro rfl
      rw [hi] at hmn
      exact hlast (Int.ofNat.inj hmn)
    have hfm : fd m ≠ fd k := by
      intro he
      rw [he, hsome] at hmap
      exact hmk (Option.some.inj hmap).symm
    have hm' : (Function.update p.objects k (removed (p.objects k)) m) = p.objects m :=
      update_objects_ne hmk
    refine ⟨{ p with
        objects := Function.update (Function.update p.objects k (removed (p.objects k))) m
          ((p.objects m).set_index (Int.ofNat i))
        channels := Function.update p.channels (fd k) none
        pollfds := (p.pollfds.swapIfInBounds i (p.pollfds.size - 1)).pop }, ?_,
      ⟨h.slots.swap_pop hk hi (by omega) (by omega) hm hmn (o := removed (p.objects k)) rfl rfl,
        ?_, fun j => ?_⟩, ⟨?_, fun j hj => ?_, rfl⟩⟩
    · refine (assert_bind_true hsome _).trans ?_
      refine (assert_bind_true hgone _).trans ?_
      refine (assert_bind_true hrange _).trans ?_
      refine (assert_bind_true ⟨hneg, hevents⟩ _).trans ?_
      refine (if_neg hlast).trans ?_
      simp only [Int.toNat_natCast, hback, ok_bind, hfdm, Function.update_of_ne hfm, hmap, hm']
      rfl
    · apply h.held.swap_pop hk hi (by omega) (by omega) hm hmn
      · simp [slotView, update_objects_ne (Ne.symm hmk), removed]
      · simpa [slotView, PolledChannel.set_index] using hm
      · simp [slotView, PolledChannel.set_index]
      · intro b hb
        simpa [slotView, PolledChannel.set_index] using hb
      · intro j hjk hjm
        exact (update_objects_ne hjm).trans (update_objects_ne hjk)
    · refine used_update (fun j => used_update h.used (h.used k)) ?_
      have hum := h.updates_pos hm
      exact iff_of_true (Int.natCast_nonneg i) hum
    · simp [update_objects_ne (Ne.symm hmk), removed]
    · by_cases hjm : j = m
      · subst hjm
        simp [PolledChannel.set_index]
      · simp [hjm, hj]

/-- A slot that only the first call has set is not negated: its channel cannot go. -/
theorem Placed.remove_fails (hfd : ∀ k, 0 ≤ fd k) (h : Placed fd p)
    (hk : (p.objects k).channel.addedToLoop = true)
    (hidle : (p.objects k).channel.isNoneEvent = true)
    (hu : (p.objects k).channel.updates = 1) :
    (machine fd).step p (.call (.remove k)) = .error .assertion := by
  obtain ⟨i, pfd, hi, hrange, hpoll, hsome, _, hheld, _⟩ := h.seated hk
  have hgone : (removed (p.objects k)).channel.isNoneEvent = true := hidle
  have hidx : (removed (p.objects k)).index = Int.ofNat i := hi
  have hslot : ¬ (pfd.fd = -fd k - 1 ∧ pfd.events = (removed (p.objects k)).channel.events) := by
    rw [slotFd, if_neg fun hn => hn.2 hu] at hheld
    rintro ⟨hneg, _⟩
    have := hfd k
    omega
  rw [step_remove hidle]
  simp only [removeChannel, store, Function.update_self, hidx, pollfd, hpoll]
  refine (assert_bind_true hsome _).trans ?_
  refine (assert_bind_true hgone _).trans ?_
  refine (assert_bind_true hrange _).trans ?_
  exact assert_bind_false hslot _

/-- A removed channel keeps its index, and is not found in the map. -/
theorem Placed.update_fails (h : Placed fd p)
    (hk : ¬ (p.objects k).channel.addedToLoop = true)
    (hu : 0 < (p.objects k).channel.updates) (op : InterestOp) :
    (machine fd).step p (.call (.update op k)) = .error .assertion := by
  have hidx : ¬ (p.objects k).index < 0 := Int.not_lt.mpr ((h.used k).mpr hu)
  have hnone : ¬ p.channels (fd k) = some k := fun hc => hk ((h.slots.mapped _ _).mp hc).1
  simp only [machine, updateChannel, store, Function.update_self]
  rw [if_neg hidx]
  exact assert_bind_false hnone _

/-- `poll(2)` and the loop behind it change no channel, slot or map. -/
theorem Placed.poll (hfd : ∀ k, 0 ≤ fd k) (h : Placed fd p) {revents : Nat → Int}
    (hi : (p.answered revents).Ignores) : ∃ q, (machine fd).step p (.poll revents) = .ok q ∧
      Placed fd q ∧ ∀ k, (q.objects k).channel = (p.objects k).channel := by
  have ha := h.slots.answered revents
  obtain ⟨q, l, hok, hq⟩ := ha.fill hfd hi
  have hobj : ∀ k, (q.objects k).channel = (p.objects k).channel ∧
      (q.objects k).index = (p.objects k).index := hq.objects
  refine ⟨q, by simp [machine, hok, -bind_pure_comp, pure, Except.pure],
    ⟨ha.filled hq, ?_, fun k => ?_⟩, fun k => (hobj k).1⟩
  · rw [hq.pollfds]
    apply h.held.congr (by simp [PollPoller.answered])
    · intro k
      simp only [slotView, (hobj k).1]
    · exact fun k => (hobj k).2
    · intro k i pfd hpfd hown
      refine ⟨{ pfd with revents := revents i }, by simp [PollPoller.answered, hpfd], ?_⟩
      simpa only [slotView, (hobj k).1] using hown
  · rw [(hobj k).1, (hobj k).2]
    exact h.used k

/-- Channels that were never removed, each on a descriptor of its own. -/
def Legal (fd : κ → Int) (p : PollPoller κ) : Step κ → Prop
  | .call (.update _ k) => ((p.objects k).channel.addedToLoop = true ∨
      (p.objects k).channel.updates = 0) ∧ Owns fd p k
  | .call (.remove k) => (p.objects k).channel.addedToLoop = true ∧
      (p.objects k).channel.isNoneEvent = true
  | .poll _ => True

def tending (fd : κ → Int) : Machine (PollPoller κ) (Step κ) := (machine fd).restrict (Legal fd)

/-- Every registered channel without interest has a negated slot, `poll(2)` never reports
it, and no call fails. -/
structure Quiet (fd : κ → Int) (p : PollPoller κ) : Prop where
  negated : ∀ k, (p.objects k).channel.addedToLoop = true →
    (p.objects k).channel.isNoneEvent = true → ∃ pfd, p.HasSlot k pfd ∧ pfd.fd = -fd k - 1
  unreported : ∀ revents, (p.answered revents).Ignores → ∀ q activeChannels,
    (p.answered revents).fillActiveChannels fd (p.answered revents).numEvents =
      .ok (q, activeChannels) →
    ∀ k ∈ activeChannels, (p.objects k).channel.isNoneEvent = false
  serves : ∀ a, (tending fd).enabled p a → ∃ q, (tending fd).step p a = .ok q

/-- No registered channel has had a single call that left it without interest. -/
def Settled (p : PollPoller κ) : Prop :=
  ∀ k, (p.objects k).channel.addedToLoop = true → (p.objects k).channel.isNoneEvent = true →
    (p.objects k).channel.updates ≠ 1

omit [DecidableEq κ] in
theorem Placed.settled_negated (h : Placed fd p) (hs : Settled p)
    (hk : (p.objects k).channel.addedToLoop = true)
    (hidle : (p.objects k).channel.isNoneEvent = true) :
    ∃ pfd, p.HasSlot k pfd ∧ pfd.fd = -fd k - 1 := by
  obtain ⟨i, pfd, hi, hpfd, hheld⟩ := h.held.slot k hk
  have hheld : pfd.fd = slotFd fd k (p.objects k).channel := hheld
  rw [slotFd, if_pos ⟨hidle, hs k hk hidle⟩] at hheld
  exact ⟨pfd, ⟨hk, i, hi, hpfd⟩, hheld⟩

/-- The first call on a channel leaves it with interest. -/
def Interested (p : PollPoller κ) : Step κ → Prop
  | .call (.update op k) => (p.objects k).channel.updates = 0 →
      (op.apply (p.objects k).channel).isNoneEvent = false
  | .call (.remove _) | .poll _ => True

theorem Effect.settled {ch : Channel} {c : Option κ} (h : Effect fd p q k ch c)
    (hs : Settled p) : Settled q ↔
      (ch.addedToLoop = true → ch.isNoneEvent = true → ch.updates ≠ 1) := by
  constructor
  · intro hq
    have hk := hq k
    rwa [h.channel] at hk
  · intro hch j
    by_cases hj : j = k
    · subst hj
      rwa [h.channel]
    · rw [h.others j hj]
      exact hs j

/-- A call on a settled poller succeeds, and leaves it settled exactly if it is not a first
call that leaves its channel without interest. -/
theorem Placed.step (hfd : ∀ k, 0 ≤ fd k) (h : Placed fd p) (hs : Settled p) {a : Step κ}
    (he : (tending fd).enabled p a) : ∃ q, (tending fd).step p a = .ok q ∧ Placed fd q ∧
      (Settled q ↔ Interested p a) := by
  obtain ⟨hen, hlegal⟩ := he
  cases a with
  | call c =>
    cases c with
    | update op k =>
      obtain ⟨hreg | hu, hown⟩ := hlegal
      · obtain ⟨q, hok, hq, heff⟩ := h.set hreg op
        have hu := h.updates_pos hreg
        refine ⟨q, hok, hq, (heff.settled hs).trans (iff_of_true ?_ ?_)⟩
        · intro _ _
          rw [apply_updates]
          omega
        · exact fun hz => absurd hz (by omega)
      · obtain ⟨q, hok, hq, heff⟩ := h.push hown hu op
        refine ⟨q, hok, hq, (heff.settled hs).trans ?_⟩
        simp [Interested, hu]
    | remove k =>
      obtain ⟨hreg, hidle⟩ := hlegal
      obtain ⟨q, hok, hq, heff⟩ := h.remove hfd hreg hidle (hs k hreg hidle)
      exact ⟨q, hok, hq, (heff.settled hs).trans (iff_of_true Bool.noConfusion trivial)⟩
  | poll revents =>
    obtain ⟨q, hok, hq, hch⟩ := h.poll hfd hen
    refine ⟨q, hok, hq, iff_of_true (fun k => ?_) trivial⟩
    rw [hch k]
    exact hs k

/-- The kernel does not answer for a negative descriptor. -/
theorem Placed.unreported (hfd : ∀ k, 0 ≤ fd k) (h : Placed fd p) (hs : Settled p)
    {revents : Nat → Int} (hi : (p.answered revents).Ignores) {q : PollPoller κ} {l : List κ}
    (hok : (p.answered revents).fillActiveChannels fd (p.answered revents).numEvents =
      .ok (q, l)) {k : κ} (hk : k ∈ l) : (p.objects k).channel.isNoneEvent = false := by
  have ha := h.slots.answered revents
  obtain ⟨q', l', hok', hq⟩ := ha.fill hfd hi
  rw [hok] at hok'
  cases hok'
  obtain ⟨pfd, ⟨hreg, i, hidx, hpfd⟩, hr⟩ := ((ha.reports hfd hi hq).ready k).mp hk
  by_contra hidle
  obtain ⟨pfd', ⟨_, i', hidx', hpfd'⟩, hneg⟩ :=
    h.settled_negated hs hreg (Bool.not_eq_false _ ▸ hidle)
  have hsame : i' = i := Int.ofNat.inj (hidx'.symm.trans hidx)
  subst hsame
  have hfd' : pfd.fd = pfd'.fd := by
    simp only [answered, Array.getElem?_mapIdx, hpfd', Option.map_some, Option.some.injEq] at hpfd
    rw [← hpfd]
  have hzero := hi pfd (Array.mem_toList_iff.mpr (Array.mem_of_getElem? hpfd)) (by
    have := hfd k
    omega)
  omega

theorem Placed.quiet_iff (hfd : ∀ k, 0 ≤ fd k) (h : Placed fd p) : Quiet fd p ↔ Settled p := by
  constructor
  · intro hq k hreg hidle hu
    obtain ⟨pfd, ⟨_, i, hi, hpfd⟩, hneg⟩ := hq.negated k hreg hidle
    have hheld : pfd.fd = slotFd fd k (p.objects k).channel := h.held.owns_slot hreg hi hpfd
    rw [slotFd, if_neg fun hn => hn.2 hu] at hheld
    have := hfd k
    omega
  · intro hs
    refine ⟨fun k => h.settled_negated hs, fun revents hi q l hok k hk => ?_, fun a he => ?_⟩
    · exact h.unreported hfd hs hi hok hk
    · obtain ⟨q, hok, _⟩ := h.step hfd hs he
      exact ⟨q, hok⟩

/-- Channels without interest are ignored, and every channel can be removed, exactly as long
as no first call leaves a channel without interest. -/
theorem ignores_disabled_iff (hfd : ∀ k, 0 ≤ fd k) {steps : List (Step κ)}
    (h : (tending fd).Run new steps p) :
    (tending fd).Throughout new steps (Quiet fd) ↔
      (tending fd).EveryStep new steps Interested := by
  have hstart : Quiet fd (new : PollPoller κ) :=
    (placed_new.quiet_iff hfd).mpr fun k hreg => Bool.noConfusion hreg
  refine h.throughout_iff (I := Placed fd) ?_ placed_new hstart
  intro p a q hp hquiet he hok
  obtain ⟨q', hok', hq, hs⟩ := hp.step hfd ((hp.quiet_iff hfd).mp hquiet) he
  cases hok.symm.trans hok'
  exact ⟨hq, (hq.quiet_iff hfd).trans hs⟩

instance ownsDecidable (p : PollPoller κ) (k : κ) : Decidable (Owns fd p k) :=
  inferInstanceAs (Decidable (_ ∨ _))

instance legalDecidable (p : PollPoller κ) : (a : Step κ) → Decidable (Legal fd p a)
  | .call (.update _ _) | .call (.remove _) => inferInstanceAs (Decidable (_ ∧ _))
  | .poll _ => inferInstanceAs (Decidable True)

instance tendingDecidable (p : PollPoller κ) (a : Step κ) : Decidable ((tending fd).enabled p a) :=
  inferInstanceAs (Decidable ((machine fd).enabled p a ∧ Legal fd p a))

instance interestedDecidable (p : PollPoller κ) : (a : Step κ) → Decidable (Interested p a)
  | .call (.update _ _) => inferInstanceAs (Decidable (_ → _))
  | .call (.remove _) | .poll _ => inferInstanceAs (Decidable True)

/-- Two channels: one is disabled and removed, the other one stays. -/
theorem ignores_disabled_sample : ∃ p : PollPoller Nat,
    (tending Nat.cast).Run new [.call (.update .enableReading 4), .call (.update .enableReading 5),
      .call (.update .disableAll 4), .call (.remove 4)] p ∧
    ((tending Nat.cast).Throughout new [.call (.update .enableReading 4),
        .call (.update .enableReading 5), .call (.update .disableAll 4), .call (.remove 4)]
        (Quiet Nat.cast) ↔
      (tending Nat.cast).EveryStep new [.call (.update .enableReading 4),
        .call (.update .enableReading 5), .call (.update .disableAll 4), .call (.remove 4)]
        Interested) := by
  have hr : (tending Nat.cast).Run (new : PollPoller Nat)
      [.call (.update .enableReading 4), .call (.update .enableReading 5),
        .call (.update .disableAll 4), .call (.remove 4)] _ := Machine.run_of_exec rfl
  exact ⟨_, hr, ignores_disabled_iff (fun _ => Int.natCast_nonneg _) hr⟩

/-- `~Acceptor` without `listen()`: `disableAll()` is the first call on the channel, and
`remove()` fails the assertion on its slot. -/
theorem acceptor_not_removed : ¬ ∀ (steps : List (Step Nat)) (p : PollPoller Nat),
    (tending Nat.cast).Run new steps p → Quiet Nat.cast p := by
  intro h
  have hr : (tending Nat.cast).Run (new : PollPoller Nat) [.call (.update .disableAll 4)] _ :=
    Machine.run_of_exec rfl
  obtain ⟨q, hq⟩ := (h _ _ hr).serves (.call (.remove 4)) ⟨trivial, rfl, rfl⟩
  cases hq

end Calls
end Muduo.Net.PollPoller
