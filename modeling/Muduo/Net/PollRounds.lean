import Muduo.Net.PollerAgreement
import Mathlib.Algebra.Ring.Nat
import Mathlib.Data.List.Nodup

/-! What the two pollers report of the same channels on the same descriptors: `poll(2)` fills
a slot for each channel, `epoll_wait` a vector of events that may be too short. -/
namespace Muduo.Net
open Muduo.Support

open Channel (POLLERR POLLHUP POLLNVAL)

/-- The conditions of the descriptors, all of which are open. -/
structure Readiness where
  mask : Int → Nat
  valid : ∀ f, mask f &&& POLLNVAL = 0

variable {κ : Type} [DecidableEq κ] (fd : κ → Int)

namespace PollPoller

/-- What `poll(2)` writes for a slot. -/
def pollRevents (ready : Readiness) (pfd : PollFd) : Int :=
  if pfd.fd < 0 then 0
  else (ready.mask pfd.fd &&& (pfd.events ||| (POLLERR ||| POLLHUP ||| POLLNVAL)) : Nat)

/-- `poll(2)` with the slots of the poller. -/
def polled (p : PollPoller κ) (ready : Readiness) : PollPoller κ :=
  p.answered fun i => ((p.pollfds[i]?).map (pollRevents ready)).getD 0

def poll (p : PollPoller κ) (ready : Readiness) : Except Fault (PollPoller κ × List κ) :=
  (p.polled ready).fillActiveChannels fd (p.polled ready).numEvents

end PollPoller

namespace EPollPoller

def kInitEventListSize : Nat := 16

/-- The event that `epoll_wait` has for a descriptor. -/
def event (set : Int → Option (EpollEvent κ)) (ready : Readiness) (f : Int) :
    Option (EpollEvent κ) := do
  let e ← set f
  let revents := ready.mask f &&& (e.events ||| (POLLERR ||| POLLHUP))
  if revents = 0 then none else some ⟨revents, e.ptr⟩

/-- The loop of `fillActiveChannels` over the events that are left. -/
def fillFrom : List (EpollEvent κ) → EPollPoller κ → List κ → Except Fault (EPollPoller κ × List κ)
  | [], p, activeChannels => .ok (p, activeChannels)
  | e :: events, p, activeChannels => do
      assert (p.channels (fd e.ptr) = some e.ptr)
      fillFrom events (p.store e.ptr ((p.objects e.ptr).set_revents e.events))
        (activeChannels ++ [e.ptr])

def fillActiveChannels (p : EPollPoller κ) (size : Nat) (events : List (EpollEvent κ)) :
    Except Fault (EPollPoller κ × List κ) := do
  assert (events.length ≤ size)
  fillFrom fd events p []

/-- `poll` with room for `size` events, where `epoll_wait` has found those of the descriptors
`fds`; and the room that there is afterwards. -/
def poll (p : EPollPoller κ) (size : Nat) (ready : Readiness) (fds : List Int) :
    Except Fault (EPollPoller κ × List κ × Nat) := do
  let events := fds.filterMap (event p.epoll ready)
  let numEvents := events.length
  if 0 < numEvents then
    let (p, activeChannels) ← p.fillActiveChannels fd size events
    return (p, activeChannels, if numEvents = size then size * 2 else size)
  else return (p, [], size)

/-- `epoll_wait` finds events of as many descriptors as there is room for, or of all that have
some. -/
structure Waits (p : EPollPoller κ) (size : Nat) (ready : Readiness) (fds : List Int) : Prop where
  once : fds.Nodup
  found : ∀ f ∈ fds, (event p.epoll ready f).isSome = true
  room : fds.length ≤ size
  all : fds.length < size → ∀ f, (event p.epoll ready f).isSome = true → f ∈ fds

end EPollPoller

/-- The two pollers, side by side, and the channels that each reported last. -/
structure Pollers (κ : Type) where
  poll : PollPoller κ
  epoll : EPollPoller κ
  eventListSize : Nat
  reported : List κ × List κ

namespace Pollers

def new : Pollers κ := ⟨.new, .new, EPollPoller.kInitEventListSize, [], []⟩

inductive Step (κ : Type) where
  | call (c : PollerCall κ)
  | poll (ready : Readiness) (fds : List Int)

def enabled (s : Pollers κ) : Step κ → Prop
  | .call c => (EPollPoller.serving fd).enabled s.epoll c
  | .poll ready fds => EPollPoller.Waits s.epoll s.eventListSize ready fds

def step (s : Pollers κ) : Step κ → Except Fault (Pollers κ)
  | .call c => do
      let poll ← (PollPoller.machine fd).step s.poll (.call c)
      let epoll ← (EPollPoller.serving fd).step s.epoll c
      return { s with poll, epoll }
  | .poll ready fds => do
      let (poll, polled) ← s.poll.poll fd ready
      let (epoll, found, eventListSize) ← s.epoll.poll fd s.eventListSize ready fds
      return ⟨poll, epoll, eventListSize, polled, found⟩

def machine : Machine (Pollers κ) (Step κ) := ⟨enabled fd, step fd⟩

/-- No channel is used after its removal, and none loses its interest that had none. -/
def Clean (s : Pollers κ) : Step κ → Prop
  | .call c => Unspent s.epoll c ∧ EPollPoller.Quiets s.epoll c
  | .poll .. => True

end Pollers

/-- What a channel is told of the condition of its descriptor. -/
def pending (ready : Readiness) (k : κ) (ch : Channel) : Nat :=
  ready.mask (fd k) &&& (ch.events ||| (POLLERR ||| POLLHUP))

/-- The channel is registered with interest, and its descriptor has something for it. -/
def Due (ready : Readiness) (k : κ) (ch : Channel) : Prop :=
  ch.addedToLoop = true ∧ ch.isNoneEvent = false ∧ pending fd ready k ch ≠ 0

variable {fd} {ready : Readiness} {k : κ}

omit [DecidableEq κ] in
/-- An open descriptor is never reported as closed. -/
theorem and_valid (f : Int) (events : Nat) :
    ready.mask f &&& (events ||| (POLLERR ||| POLLHUP ||| POLLNVAL)) =
      ready.mask f &&& (events ||| (POLLERR ||| POLLHUP)) := by
  rw [← Nat.or_assoc events, Nat.and_or_distrib_left, ready.valid, Nat.or_zero]

namespace PollPoller
variable {p q : PollPoller κ}

omit [DecidableEq κ] in
theorem hasSlot_polled {pfd : PollFd} : (p.polled ready).HasSlot k pfd ↔
    ∃ b, p.HasSlot k b ∧ pfd = { b with revents := pollRevents ready b } := by
  constructor
  · rintro ⟨hreg, i, hi, hpfd⟩
    simp only [polled, answered, Array.getElem?_mapIdx] at hpfd
    obtain ⟨b, hb, rfl⟩ := Option.map_eq_some_iff.mp hpfd
    exact ⟨b, ⟨hreg, i, hi, hb⟩, by rw [hb]; rfl⟩
  · rintro ⟨b, ⟨hreg, i, hi, hb⟩, rfl⟩
    refine ⟨hreg, i, hi, ?_⟩
    simp only [polled, answered, Array.getElem?_mapIdx, hb]
    rfl

omit [DecidableEq κ] in
theorem HasSlot.unique {a b : PollFd} (ha : p.HasSlot k a) (hb : p.HasSlot k b) : a = b := by
  obtain ⟨_, i, hi, ha⟩ := ha
  obtain ⟨_, j, hj, hb⟩ := hb
  have hij : i = j := Int.ofNat.inj (hi.symm.trans hj)
  subst hij
  exact Option.some.inj (ha.symm.trans hb)

omit [DecidableEq κ] in
/-- The slot of a channel after `poll(2)`. -/
theorem Placed.polled (hfd : ∀ k, 0 ≤ fd k) (h : Placed fd p) (hs : Settled p)
    (hk : (p.objects k).channel.addedToLoop = true) : ∃ pfd, (p.polled ready).HasSlot k pfd ∧
      pfd.revents = if (p.objects k).channel.isNoneEvent = true then 0
        else (pending fd ready k (p.objects k).channel : Int) := by
  obtain ⟨i, pfd, hi, _, hpfd, _, _, hheld, hevents⟩ := h.seated hk
  refine ⟨_, hasSlot_polled.mpr ⟨pfd, ⟨hk, i, hi, hpfd⟩, rfl⟩, ?_⟩
  have hpos := hfd k
  by_cases hidle : (p.objects k).channel.isNoneEvent = true
  · rw [slotFd, if_pos ⟨hidle, hs k hk hidle⟩] at hheld
    rw [if_pos hidle]
    exact if_pos (by omega)
  · rw [slotFd, if_neg fun hn => hidle hn.1] at hheld
    rw [if_neg hidle]
    have hnonneg : ¬ pfd.fd < 0 := by omega
    refine (if_neg hnonneg).trans ?_
    rw [and_valid, hheld, hevents, pending]

/-- `poll` reports exactly the channels for which there is something, once each, and tells
each what there is. -/
theorem Placed.poll_spec (hfd : ∀ k, 0 ≤ fd k) (h : Placed fd p) (hs : Settled p)
    (ready : Readiness) : ∃ q l, p.poll fd ready = .ok (q, l) ∧ Placed fd q ∧ l.Nodup ∧
      (∀ k, k ∈ l ↔ Due fd ready k (p.objects k).channel) ∧
      (∀ k ∈ l, (q.objects k).revents = pending fd ready k (p.objects k).channel) ∧
      q.channels = p.channels ∧ ∀ k, (q.objects k).channel = (p.objects k).channel := by
  have hignores : (p.polled ready).Ignores := by
    intro pfd hm hneg
    obtain ⟨i, hpfd⟩ := List.getElem?_of_mem hm
    rw [Array.getElem?_toList] at hpfd
    simp only [PollPoller.polled, answered, Array.getElem?_mapIdx] at hpfd
    obtain ⟨b, hb, rfl⟩ := Option.map_eq_some_iff.mp hpfd
    rw [hb]
    exact if_pos hneg
  have ha := h.slots.answered fun i => ((p.pollfds[i]?).map (pollRevents ready)).getD 0
  obtain ⟨q, l, hok, hq⟩ := ha.fill hfd hignores
  have hreports := ha.reports hfd hignores hq
  have hslot : ∀ k pfd, (p.polled ready).HasSlot k pfd → pfd.revents =
      if (p.objects k).channel.isNoneEvent = true then 0
        else (pending fd ready k (p.objects k).channel : Int) := by
    intro k pfd hslot
    obtain ⟨pfd', hslot', hrevents⟩ := h.polled hfd hs hslot.1
    rw [hslot.unique hslot']
    exact hrevents
  have hdue : ∀ k, k ∈ l ↔ Due fd ready k (p.objects k).channel := by
    intro k
    rw [hreports.ready k]
    constructor
    · rintro ⟨pfd, hk, hpos⟩
      rw [hslot k pfd hk] at hpos
      split at hpos
      · exact absurd hpos (Int.lt_irrefl 0)
      · next hidle => exact ⟨hk.1, Bool.eq_false_iff.mpr hidle, by omega⟩
    · rintro ⟨hreg, hidle, hpending⟩
      have hpolled : ∃ pfd, (p.polled ready).HasSlot k pfd ∧ pfd.revents =
          if (p.objects k).channel.isNoneEvent = true then 0
            else (pending fd ready k (p.objects k).channel : Int) := h.polled hfd hs hreg
      obtain ⟨pfd, hk, hrevents⟩ := hpolled
      rw [hidle, if_neg Bool.false_ne_true] at hrevents
      exact ⟨pfd, hk, by omega⟩
  obtain ⟨q', hstep, hplaced, hsame⟩ := h.poll hfd hignores
  have hqq : q' = q := by
    simp only [machine] at hstep
    rw [hok] at hstep
    exact (Except.ok.inj hstep).symm
  subst hqq
  refine ⟨q', l, hok, hplaced, hreports.once, hdue, fun k hk => ?_, hq.channels, hsame⟩
  obtain ⟨pfd, hkslot, hpos⟩ := (hreports.ready k).mp hk
  rw [hreports.revents k pfd hkslot hpos, PolledChannel.set_revents]
  dsimp only
  rw [hslot k pfd hkslot, ((hdue k).mp hk).2.1, if_neg Bool.false_ne_true]

end PollPoller

namespace EPollPoller
variable {p q : EPollPoller κ} {events : List (EpollEvent κ)}

/-- The channels of `events` get their masks, and nothing else changes. -/
structure Filled (p q : EPollPoller κ) (events : List (EpollEvent κ)) : Prop where
  revents : ∀ e ∈ events, q.objects e.ptr = (p.objects e.ptr).set_revents e.events
  others : ∀ k, k ∉ events.map EpollEvent.ptr → q.objects k = p.objects k
  channels : q.channels = p.channels
  epoll : q.epoll = p.epoll

/-- Where the map has the channel of each event, the loop of `fillActiveChannels` ends well. -/
theorem fillFrom_filled (events : List (EpollEvent κ)) (p : EPollPoller κ)
    (activeChannels : List κ) (hn : (events.map EpollEvent.ptr).Nodup)
    (hm : ∀ e ∈ events, p.channels (fd e.ptr) = some e.ptr) : ∃ q,
      fillFrom fd events p activeChannels =
        .ok (q, activeChannels ++ events.map EpollEvent.ptr) ∧ Filled p q events := by
  induction events generalizing p activeChannels with
  | nil => exact ⟨p, by simp [fillFrom], by simp, fun _ _ => rfl, rfl, rfl⟩
  | cons e events ih =>
    rw [List.map_cons, List.nodup_cons] at hn
    let next := p.store e.ptr ((p.objects e.ptr).set_revents e.events)
    have hnext : ∀ k, k ≠ e.ptr → next.objects k = p.objects k :=
      fun k hk => Function.update_of_ne hk _ _
    obtain ⟨q, hok, hq⟩ := ih next (activeChannels ++ [e.ptr]) hn.2
      fun b hb => hm b (List.mem_cons_of_mem _ hb)
    refine ⟨q, ?_, ⟨fun b hb => ?_, fun k hk => ?_, hq.channels, hq.epoll⟩⟩
    · rw [fillFrom, assert_bind_true (hm e List.mem_cons_self), hok, List.append_assoc]
      rfl
    · rcases List.mem_cons.mp hb with rfl | hb
      · rw [hq.others b.ptr hn.1]
        exact Function.update_self ..
      · have hne : b.ptr ≠ e.ptr := fun he => hn.1 (he ▸ List.mem_map_of_mem hb)
        rw [hq.revents b hb, hnext _ hne]
    · rw [List.map_cons, List.mem_cons, not_or] at hk
      rw [hq.others k hk.2, hnext k hk.1]

/-- A registered channel without interest is not in the kernel's set. -/
def Unwatched (fd : κ → Int) (p : EPollPoller κ) : Prop :=
  ∀ k, (p.objects k).channel.addedToLoop = true → (p.objects k).channel.isNoneEvent = true →
    p.epoll (fd k) = none

omit [DecidableEq κ] in
theorem Tracks.apart (h : Tracks fd p) {j : κ} (hj : (p.objects j).channel.addedToLoop = true)
    (hk : p.channels (fd k) = none ∨ p.channels (fd k) = some k) (hne : j ≠ k) : fd j ≠ fd k := by
  intro hf
  have hmap := (h.mapped _ _).mpr ⟨hj, rfl⟩
  rw [hf] at hmap
  exact owned_apart hk hne hmap

/-- Of the kernel's set an update touches the entry of its channel, which goes with the
interest. -/
theorem Tracks.update_epoll (h : Tracks fd p)
    (hown : p.channels (fd k) = none ∨ p.channels (fd k) = some k) {op : InterestOp}
    (hquiets : Quiets p (.update op k)) (hok : (machine fd).step p (.update op k) = .ok q) :
    (∀ f, f ≠ fd k → q.epoll f = p.epoll f) ∧
      ((op.apply (p.objects k).channel).isNoneEvent = true → q.epoll (fd k) = none) := by
  cases hreg : (p.objects k).channel.addedToLoop with
  | false =>
    obtain ⟨hidx, hidle⟩ := h.gone k hreg
    have hnone : p.channels (fd k) = none := by
      refine hown.resolve_right fun hs => ?_
      have hreg' := ((h.mapped _ _).mp hs).1
      rw [hreg] at hreg'
      cases hreg'
    have hunheld : p.epoll (fd k) = none := by
      refine Option.eq_none_iff_forall_not_mem.mpr fun e he => ?_
      cases hnone.symm.trans (h.held _ e he)
    cases (step_update_absent rfl hunheld (.inl ⟨hidx, hnone⟩)).symm.trans hok
    refine ⟨fun f hf => Function.update_of_ne hf _ _, fun hi => ?_⟩
    cases hidle.symm.trans (hquiets hi)
  | true =>
    have hk := h.live k hreg
    rw [Quiets] at hquiets
    generalize ho : p.objects k = o at hk hquiets ⊢
    generalize hc : p.channels (fd k) = c at hk
    generalize he : p.epoll (fd k) = e at hk
    cases hk with
    | new removed _ => exact absurd hreg (by simp [ho, removed])
    | deleted _ idle =>
      cases (step_update_absent ho he (.inr ⟨rfl, hc⟩)).symm.trans hok
      refine ⟨fun f hf => Function.update_of_ne hf _ _, fun hi => ?_⟩
      cases idle.symm.trans (hquiets hi)
    | added _ =>
      cases (step_update_added ho hc he).symm.trans hok
      split
      · exact ⟨fun f hf => Function.update_of_ne hf _ _, fun _ => Function.update_self ..⟩
      · next hidle => exact ⟨fun f hf => Function.update_of_ne hf _ _, fun hi => absurd hi hidle⟩

theorem Tracks.remove_epoll (h : Tracks fd p) (hreg : (p.objects k).channel.addedToLoop = true)
    (hidle : (p.objects k).channel.isNoneEvent = true)
    (hok : (machine fd).step p (.remove k) = .ok q) : ∀ f, f ≠ fd k → q.epoll f = p.epoll f := by
  have hk := h.live k hreg
  generalize ho : p.objects k = o at hk hidle hreg
  generalize hc : p.channels (fd k) = c at hk
  generalize he : p.epoll (fd k) = e at hk
  cases hk with
  | new removed _ => exact absurd hreg (by simp [removed])
  | added _ =>
    cases (step_remove ho hc hidle he (.inl ⟨rfl, rfl⟩)).symm.trans hok
    exact fun f hf => Function.update_of_ne hf _ _
  | deleted _ _ =>
    cases (step_remove ho hc hidle he (.inr ⟨rfl, rfl⟩)).symm.trans hok
    exact fun f hf => Function.update_of_ne hf _ _

theorem Unwatched.update (hw : Unwatched fd p) (h : Tracks fd p)
    (hown : p.channels (fd k) = none ∨ p.channels (fd k) = some k) {op : InterestOp}
    (hquiets : Quiets p (.update op k)) (hok : (machine fd).step p (.update op k) = .ok q) :
    Unwatched fd q := by
  obtain ⟨q', hok', _, heff⟩ := h.update hown op
  cases hok.symm.trans hok'
  obtain ⟨hothers, hself⟩ := h.update_epoll hown hquiets hok
  intro j hreg hidle
  by_cases hj : j = k
  · subst hj
    rw [heff.channel] at hidle
    exact hself hidle
  · rw [heff.others j hj] at hreg hidle
    rw [hothers _ (h.apart hreg hown hj)]
    exact hw j hreg hidle

theorem Unwatched.remove (hw : Unwatched fd p) (h : Tracks fd p)
    (hreg : (p.objects k).channel.addedToLoop = true)
    (hidle : (p.objects k).channel.isNoneEvent = true)
    (hok : (machine fd).step p (.remove k) = .ok q) : Unwatched fd q := by
  obtain ⟨q', hok', _, heff⟩ := h.remove hreg hidle
  cases hok.symm.trans hok'
  intro j hregj hidlej
  by_cases hj : j = k
  · subst hj
    rw [heff.channel] at hregj
    cases hregj
  · rw [heff.others j hj] at hregj hidlej
    rw [h.remove_epoll hreg hidle hok _ (h.apart hregj (.inr ((h.mapped _ _).mpr ⟨hreg, rfl⟩)) hj)]
    exact hw j hregj hidlej

omit [DecidableEq κ] in
/-- The events of the channels are no part of what is tracked. -/
theorem Tracks.congr (h : Tracks fd p)
    (ho : ∀ k, (q.objects k).channel = (p.objects k).channel ∧
      (q.objects k).index = (p.objects k).index)
    (hc : q.channels = p.channels) (he : q.epoll = p.epoll) : Tracks fd q where
  live k hreg := by
    rw [(ho k).1] at hreg
    have hk := h.live k hreg
    rw [hc, he]
    obtain ⟨hchannel, hindex⟩ := ho k
    generalize q.objects k = o' at hchannel hindex ⊢
    obtain ⟨ch, idx, revents⟩ := o'
    dsimp only at hchannel hindex
    subst hchannel hindex
    generalize p.objects k = o at hk hreg ⊢
    generalize p.channels (fd k) = c at hk ⊢
    generalize p.epoll (fd k) = e at hk ⊢
    cases hk with
    | new removed idle => exact .new removed idle
    | added registered => exact .added registered
    | deleted registered idle => exact .deleted registered idle
  gone k hreg := by
    rw [(ho k).1] at hreg ⊢
    rw [(ho k).2]
    exact h.gone k hreg
  mapped f k := by
    rw [hc, (ho k).1]
    exact h.mapped f k
  held f e hf := by
    rw [he] at hf
    rw [hc]
    exact h.held f e hf

omit [DecidableEq κ] in
theorem Filled.objects (h : Filled p q events) (k : κ) :
    (q.objects k).channel = (p.objects k).channel ∧
      (q.objects k).index = (p.objects k).index := by
  by_cases hk : k ∈ events.map EpollEvent.ptr
  · obtain ⟨e, he, rfl⟩ := List.mem_map.mp hk
    rw [h.revents e he]
    exact ⟨rfl, rfl⟩
  · rw [h.others k hk]
    exact ⟨rfl, rfl⟩

omit [DecidableEq κ] in
/-- The kernel's set holds the registered channels with interest. -/
theorem Tracks.watched_iff (h : Tracks fd p) (hw : Unwatched fd p) {f : Int} {e : EpollEvent κ} :
    p.epoll f = some e ↔ fd e.ptr = f ∧ (p.objects e.ptr).channel.addedToLoop = true ∧
      (p.objects e.ptr).channel.isNoneEvent = false ∧
      e.events = (p.objects e.ptr).channel.events := by
  constructor
  · intro he
    obtain ⟨hreg, rfl⟩ := (h.mapped _ _).mp (h.held f e he)
    have hidle : (p.objects e.ptr).channel.isNoneEvent = false := by
      refine Bool.eq_false_iff.mpr fun hidle => ?_
      cases (hw e.ptr hreg hidle).symm.trans he
    refine ⟨rfl, hreg, hidle, ?_⟩
    have hk := h.live e.ptr hreg
    rw [he] at hk
    obtain ⟨events, k⟩ := e
    dsimp only at hk ⊢
    generalize p.objects k = o at hk ⊢
    generalize p.channels (fd k) = c at hk
    cases hk
    rfl
  · rintro ⟨rfl, hreg, hidle, hevents⟩
    have hk := h.live e.ptr hreg
    obtain ⟨events, k⟩ := e
    dsimp only at hk hreg hidle hevents ⊢
    subst hevents
    generalize p.objects k = o at hk hreg hidle ⊢
    generalize p.channels (fd k) = c at hk
    generalize p.epoll (fd k) = entry at hk ⊢
    cases hk with
    | new removed _ => exact absurd hreg (by simp [removed])
    | added _ => rfl
    | deleted _ idle => cases hidle.symm.trans idle

omit [DecidableEq κ] in
/-- The events of the kernel are those that are due. -/
theorem Tracks.event_iff (h : Tracks fd p) (hw : Unwatched fd p) {f : Int} {e : EpollEvent κ} :
    event p.epoll ready f = some e ↔ fd e.ptr = f ∧
      Due fd ready e.ptr (p.objects e.ptr).channel ∧
      e.events = pending fd ready e.ptr (p.objects e.ptr).channel := by
  constructor
  · intro he
    obtain ⟨entry, hentry, he⟩ := Option.bind_eq_some_iff.mp he
    obtain ⟨rfl, hreg, hidle, hevents⟩ := (h.watched_iff hw).mp hentry
    dsimp only at he
    split at he
    · cases he
    · next hne =>
      cases he
      rw [hevents] at hne ⊢
      exact ⟨rfl, ⟨hreg, hidle, hne⟩, rfl⟩
  · rintro ⟨rfl, ⟨hreg, hidle, hne⟩, hevents⟩
    have hentry : p.epoll (fd e.ptr) = some ⟨(p.objects e.ptr).channel.events, e.ptr⟩ :=
      (h.watched_iff hw).mpr ⟨rfl, hreg, hidle, rfl⟩
    rw [event, hentry]
    refine (if_neg hne).trans ?_
    rw [← pending, ← hevents]

omit [DecidableEq κ] in
/-- The descriptors of the events are those that `epoll_wait` went through. -/
theorem Tracks.event_fds (h : Tracks fd p) (hw : Unwatched fd p) (fds : List Int)
    (hf : ∀ f ∈ fds, (event p.epoll ready f).isSome = true) :
    (fds.filterMap (event p.epoll ready)).map (fun e => fd e.ptr) = fds := by
  induction fds with
  | nil => rfl
  | cons f fds ih =>
    obtain ⟨e, he⟩ := Option.isSome_iff_exists.mp (hf f List.mem_cons_self)
    rw [List.filterMap_cons_some he, List.map_cons, ((h.event_iff hw).mp he).1,
      ih fun g hg => hf g (List.mem_cons_of_mem _ hg)]

/-- `poll` reports channels for which there is something, once each, and tells each what
there is; all of them unless `events_` is full, in which case it doubles. -/
theorem Tracks.poll_spec (h : Tracks fd p) (hw : Unwatched fd p) {size : Nat} {fds : List Int}
    (hwaits : Waits p size ready fds) : ∃ q l,
      p.poll fd size ready fds =
        .ok (q, l, if 0 < l.length ∧ l.length = size then size * 2 else size) ∧
      Tracks fd q ∧ Unwatched fd q ∧ l.Nodup ∧ l.length ≤ size ∧
      (∀ k ∈ l, Due fd ready k (p.objects k).channel ∧
        (q.objects k).revents = pending fd ready k (p.objects k).channel) ∧
      (l.length < size → ∀ k, Due fd ready k (p.objects k).channel → k ∈ l) ∧
      q.channels = p.channels ∧ ∀ k, (q.objects k).channel = (p.objects k).channel := by
  have hfds := h.event_fds hw fds hwaits.found
  generalize hevents : fds.filterMap (event p.epoll ready) = events at hfds
  have hmem : ∀ e ∈ events, fd e.ptr ∈ fds ∧ Due fd ready e.ptr (p.objects e.ptr).channel ∧
      e.events = pending fd ready e.ptr (p.objects e.ptr).channel := by
    intro e he
    rw [← hevents] at he
    obtain ⟨f, hf, he⟩ := List.mem_filterMap.mp he
    obtain ⟨rfl, hdue⟩ := (h.event_iff hw).mp he
    exact ⟨hf, hdue⟩
  have hlen : events.length = fds.length := by rw [← hfds, List.length_map]
  have honce : (events.map EpollEvent.ptr).Nodup := by
    have hn : ((events.map EpollEvent.ptr).map fd).Nodup := by
      rw [List.map_map]
      exact hfds.symm ▸ hwaits.once
    exact List.Nodup.of_map fd hn
  have hmapped : ∀ e ∈ events, p.channels (fd e.ptr) = some e.ptr :=
    fun e he => (h.mapped _ _).mpr ⟨(hmem e he).2.1.1, rfl⟩
  have hall : events.length < size → ∀ k, Due fd ready k (p.objects k).channel →
      k ∈ events.map EpollEvent.ptr := by
    intro hlt k hdue
    have hevent : event p.epoll ready (fd k) =
        some ⟨pending fd ready k (p.objects k).channel, k⟩ :=
      (h.event_iff hw).mpr ⟨rfl, hdue, rfl⟩
    have hf := hwaits.all (hlen ▸ hlt) (fd k) (by rw [hevent]; rfl)
    rw [← hevents]
    exact List.mem_map.mpr ⟨_, List.mem_filterMap.mpr ⟨fd k, hf, hevent⟩, rfl⟩
  obtain ⟨q, hok, hq⟩ := fillFrom_filled events p [] honce hmapped
  have hroom : events.length ≤ size := hlen ▸ hwaits.room
  refine ⟨q, events.map EpollEvent.ptr, ?_, h.congr hq.objects hq.channels hq.epoll, ?_, honce,
    ?_, ?_, ?_, hq.channels, fun k => (hq.objects k).1⟩
  · rw [List.length_map]
    simp only [poll, hevents]
    split
    · next hpos =>
      rw [fillActiveChannels, assert_bind_true hroom, hok, ok_bind]
      simp only [hpos, true_and]
      rfl
    · next hzero =>
      obtain rfl : events = [] := List.eq_nil_of_length_eq_zero (Nat.eq_zero_of_not_pos hzero)
      cases hok
      rfl
  · intro k hreg hidle
    rw [(hq.objects k).1] at hreg hidle
    rw [hq.epoll]
    exact hw k hreg hidle
  · rw [List.length_map]
    exact hroom
  · intro k hk
    obtain ⟨e, he, rfl⟩ := List.mem_map.mp hk
    refine ⟨(hmem e he).2.1, ?_⟩
    rw [hq.revents e he, PolledChannel.set_revents, (hmem e he).2.2]
  · rw [List.length_map]
    exact hall

end EPollPoller

namespace Pollers
open EPollPoller (Quiets)

/-- The pollers have the same channels, and neither watches one that has no interest. -/
structure Together (fd : κ → Int) (s : Pollers κ) : Prop where
  placed : PollPoller.Placed fd s.poll
  settled : PollPoller.Settled s.poll
  tracks : EPollPoller.Tracks fd s.epoll
  unwatched : EPollPoller.Unwatched fd s.epoll
  alike : Alike s.poll s.epoll
  room : 0 < s.eventListSize

/-- What a round of `poll` reports: each channel for which there is something once, with the
same events by both pollers; all of them by `poll(2)`, and by `epoll_wait` as many as it has
room for, which is doubled when it is used up. -/
structure Agree (fd : κ → Int) (ready : Readiness) (s t : Pollers κ) : Prop where
  polledOnce : t.reported.1.Nodup
  foundOnce : t.reported.2.Nodup
  due : ∀ k, k ∈ t.reported.1 ↔ Due fd ready k (s.poll.objects k).channel
  found : ∀ k ∈ t.reported.2, k ∈ t.reported.1
  revents : ∀ k ∈ t.reported.2, (t.epoll.objects k).revents = (t.poll.objects k).revents
  fits : t.reported.2.length ≤ s.eventListSize
  all : t.reported.2.length < s.eventListSize → t.reported.1.Perm t.reported.2
  grows : t.eventListSize =
    if t.reported.2.length = s.eventListSize then s.eventListSize * 2 else s.eventListSize
  same : ∀ k, (t.poll.objects k).channel = (s.poll.objects k).channel

variable {s t u : Pollers κ}

omit [DecidableEq κ] in
theorem new_together : Together fd (new : Pollers κ) where
  placed := PollPoller.placed_new
  settled _ h := Bool.noConfusion h
  tracks := EPollPoller.tracks_new
  unwatched _ h := Bool.noConfusion h
  alike := ⟨fun _ => rfl, rfl⟩
  room := Nat.succ_pos 15

/-- A channel that has lost its interest in a call had it before, so this call was not its
first. -/
theorem Together.settles (h : Together fd s) {c : PollerCall κ} {e : EPollPoller κ}
    (hen : (EPollPoller.serving fd).enabled s.epoll c) (hk : Quiets s.epoll c)
    (hok : (EPollPoller.serving fd).step s.epoll c = .ok e) {p : PollPoller κ}
    (ha : Alike p e) : PollPoller.Settled p ∧ EPollPoller.Unwatched fd e := by
  obtain ⟨hpre, hown⟩ := hen
  cases c with
  | update op k =>
    obtain ⟨e', hok', _, heff⟩ := h.tracks.update hown op
    cases hok.symm.trans hok'
    refine ⟨fun j hreg hidle => ?_, h.unwatched.update h.tracks hown hk hok⟩
    rw [ha.channel j] at hreg hidle ⊢
    by_cases hj : j = k
    · subst hj
      rw [heff.channel] at hidle ⊢
      have hinterest := hk hidle
      have hregistered : (s.poll.objects j).channel.addedToLoop = true := by
        by_contra hnone
        rw [h.alike.channel j, Bool.not_eq_true] at hnone
        cases (h.tracks.gone j hnone).2.symm.trans hinterest
      have hpos := h.placed.updates_pos hregistered
      rw [h.alike.channel j] at hpos
      rw [PollPoller.apply_updates]
      omega
    · rw [heff.others j hj, ← h.alike.channel j] at hreg hidle ⊢
      exact h.settled j hreg hidle
  | remove k =>
    obtain ⟨hreg, hidle⟩ := hpre
    obtain ⟨e', hok', _, heff⟩ := h.tracks.remove hreg hidle
    cases hok.symm.trans hok'
    refine ⟨fun j hregj hidlej => ?_, h.unwatched.remove h.tracks hreg hidle hok⟩
    rw [ha.channel j] at hregj hidlej ⊢
    by_cases hj : j = k
    · subst hj
      rw [heff.channel] at hregj
      cases hregj
    · rw [heff.others j hj, ← h.alike.channel j] at hregj hidlej ⊢
      exact h.settled j hregj hidlej

theorem Together.call (hfd : ∀ k, 0 ≤ fd k) (h : Together fd s) {c : PollerCall κ}
    (hen : (machine fd).enabled s (.call c)) (hk : Clean s (.call c)) :
    ∃ t, (machine fd).step s (.call c) = .ok t ∧ Together fd t := by
  obtain ⟨e, hok, he, ⟨_, p, hpok, hp, ha⟩ | ⟨hspent, _⟩⟩ :=
    step_both hfd h.placed h.tracks h.alike hen
  · obtain ⟨hsettled, hunwatched⟩ := h.settles hen hk.2 hok ha
    refine ⟨{ s with
      poll := p
      epoll := e }, ?_, hp, hsettled, he, hunwatched, ha, h.room⟩
    simp only [machine, step, hpok, hok, ok_bind]
    rfl
  · exact absurd hk.1 hspent

theorem Together.round (hfd : ∀ k, 0 ≤ fd k) (h : Together fd s) {ready : Readiness}
    {fds : List Int} (hen : (machine fd).enabled s (.poll ready fds)) :
    ∃ t, (machine fd).step s (.poll ready fds) = .ok t ∧ Together fd t ∧ Agree fd ready s t := by
  obtain ⟨p, l, hpok, hp, hpn, hpd, hpr, hpc, hps⟩ := h.placed.poll_spec hfd h.settled ready
  obtain ⟨e, l', hok, he, hw, hn, hroom, hd, hall, hc, hs⟩ := h.tracks.poll_spec h.unwatched hen
  have hgrow : (if 0 < l'.length ∧ l'.length = s.eventListSize then s.eventListSize * 2
      else s.eventListSize) =
      if l'.length = s.eventListSize then s.eventListSize * 2 else s.eventListSize := by
    have := h.room
    split <;> split <;> omega
  rw [hgrow] at hok
  have hmem : ∀ k ∈ l', k ∈ l := fun k hk => by
    rw [hpd k, h.alike.channel k]
    exact (hd k hk).1
  refine ⟨⟨p, e, if l'.length = s.eventListSize then s.eventListSize * 2 else s.eventListSize,
    l, l'⟩, ?_, ⟨hp, fun k hreg hidle => ?_, he, hw, ⟨fun k => ?_, ?_⟩, ?_⟩,
    ⟨hpn, hn, hpd, hmem, fun k hk => ?_, hroom, fun hlt => ?_, rfl, hps⟩⟩
  · simp only [machine, step, hpok, hok, ok_bind]
    rfl
  · rw [hps k] at hreg hidle ⊢
    exact h.settled k hreg hidle
  · rw [hps k, hs k]
    exact h.alike.channel k
  · rw [hpc, hc]
    exact h.alike.channels
  · have := h.room
    dsimp only
    split <;> omega
  · rw [hpr k (hmem k hk), (hd k hk).2, h.alike.channel k]
  · refine (List.perm_ext_iff_of_nodup hpn hn).mpr fun k => ⟨fun hk => ?_, hmem k⟩
    rw [hpd k, h.alike.channel k] at hk
    exact hall hlt k hk

theorem step_together (hfd : ∀ k, 0 ≤ fd k) (s : Pollers κ) (a : Step κ) (t : Pollers κ)
    (h : Together fd s) (he : (machine fd).enabled s a) (hk : Clean s a)
    (hok : (machine fd).step s a = .ok t) : Together fd t := by
  cases a with
  | call c =>
    obtain ⟨t', hok', ht⟩ := h.call hfd he hk
    cases hok.symm.trans hok'
    exact ht
  | poll ready fds =>
    obtain ⟨t', hok', ht, _⟩ := h.round hfd he
    cases hok.symm.trans hok'
    exact ht

/-- Rounds change no channel. -/
theorem Together.rounds (hfd : ∀ k, 0 ≤ fd k) {ready : Readiness} (polls : List (List Int))
    (h : Together fd s) (hr : (machine fd).Run s (polls.map (.poll ready)) t) :
    Together fd t ∧ ∀ k, (t.poll.objects k).channel = (s.poll.objects k).channel := by
  induction polls generalizing s with
  | nil =>
    cases hr
    exact ⟨h, fun _ => rfl⟩
  | cons fds polls ih =>
    cases hr with
    | cons he hs hr =>
      obtain ⟨u, hok, hu, hagree⟩ := h.round hfd he
      cases hs.symm.trans hok
      obtain ⟨ht, hsame⟩ := ih hu hr
      exact ⟨ht, fun k => (hsame k).trans (hagree.same k)⟩

/-- While the descriptors stay as they are, rounds make room for the channels that are due. -/
theorem Together.makes_room (hfd : ∀ k, 0 ≤ fd k) {ready : Readiness} {l : List κ} (hl : l.Nodup)
    (polls : List (List Int)) (h : Together fd s)
    (hdue : ∀ k, k ∈ l ↔ Due fd ready k (s.poll.objects k).channel)
    (hlen : l.length < s.eventListSize * 2 ^ polls.length)
    (hr : (machine fd).Run s (polls.map (.poll ready)) t) : l.length < t.eventListSize := by
  induction polls generalizing s with
  | nil =>
    cases hr
    simpa using hlen
  | cons fds polls ih =>
    cases hr with
    | @cons _ v _ _ _ he hs hr =>
      obtain ⟨u, hok, hu, hagree⟩ := h.round hfd he
      cases hs.symm.trans hok
      refine ih hu (fun k => ?_) ?_ hr
      · rw [hagree.same k]
        exact hdue k
      · rw [hagree.grows]
        rw [List.length_cons, Nat.pow_succ, Nat.mul_comm (2 ^ _) 2, ← Nat.mul_assoc] at hlen
        split
        · exact hlen
        · next hpart =>
          have hlt := Nat.lt_of_le_of_ne hagree.fits hpart
          have hperm : l.Perm v.reported.1 := (List.perm_ext_iff_of_nodup hl
            hagree.polledOnce).mpr fun k => (hdue k).trans (hagree.due k).symm
          rw [(hperm.trans (hagree.all hlt)).length_eq]
          exact Nat.lt_of_lt_of_le hlt (Nat.le_mul_of_pos_right _ (Nat.two_pow_pos _))

/-- Over every history of calls that reuses no removed channel and disables only channels
that have interest, with rounds of `poll` in between: both pollers serve every further step;
in every round they report the same channels with the same events, but for those for which
`epoll_wait` had no room; and as the room doubles with each round that uses it up, so many
rounds on the same descriptors are enough to report them all. -/
theorem pollers_agree (hfd : ∀ k, 0 ≤ fd k) {steps : List (Step κ)}
    (hr : (machine fd).Run new steps s) (hk : (machine fd).EveryStep new steps Clean) :
    (∀ a, (machine fd).enabled s a → Clean s a → ∃ t, (machine fd).step s a = .ok t) ∧
    (∀ ready fds t, (machine fd).enabled s (.poll ready fds) →
      (machine fd).step s (.poll ready fds) = .ok t → Agree fd ready s t) ∧
    ∀ ready polls fds t, (machine fd).Run s ((polls ++ [fds]).map (.poll ready)) t →
      t.reported.1.length < s.eventListSize * 2 ^ polls.length →
      t.reported.1.Perm t.reported.2 := by
  have h : Together fd s := hr.invariant_of_everyStep (step_together hfd) hk new_together
  refine ⟨fun a he hc => ?_, fun ready fds t he hok => ?_, fun ready polls fds t hrun hlen => ?_⟩
  · cases a with
    | call c =>
      obtain ⟨t, hok, _⟩ := h.call hfd he hc
      exact ⟨t, hok⟩
    | poll ready fds =>
      obtain ⟨t, hok, _⟩ := h.round hfd he
      exact ⟨t, hok⟩
  · obtain ⟨t', hok', _, hagree⟩ := h.round hfd he
    cases hok.symm.trans hok'
    exact hagree
  · rw [List.map_append] at hrun
    obtain ⟨u, hu, hlast⟩ := Machine.run_append.mp hrun
    obtain ⟨hus, hsame⟩ := h.rounds hfd polls hu
    cases hlast with
    | cons he hs hnil =>
      cases hnil
      obtain ⟨t', hok, _, hagree⟩ := hus.round hfd he
      cases hs.symm.trans hok
      have hdue : ∀ k, k ∈ t.reported.1 ↔ Due fd ready k (s.poll.objects k).channel := by
        intro k
        rw [← hsame k]
        exact hagree.due k
      have hroom := h.makes_room hfd hagree.polledOnce polls hdue hlen hu
      have hle : t.reported.2.length ≤ t.reported.1.length :=
        List.Nodup.length_le_of_subset hagree.foundOnce hagree.found
      exact hagree.all (Nat.lt_of_le_of_lt hle hroom)

theorem four_valid (f : Int) : (if f = 4 then Channel.POLLIN else 0) &&& POLLNVAL = 0 := by
  split <;> rfl

/-- Something to read on descriptor 4. -/
def fourReady : Readiness := ⟨fun f => if f = 4 then Channel.POLLIN else 0, four_valid⟩

omit [DecidableEq κ] in
theorem event_unready (set : Int → Option (EpollEvent κ)) {f : Int} (h : ready.mask f = 0) :
    EPollPoller.event set ready f = none := by
  rw [EPollPoller.event]
  cases set f with
  | none => rfl
  | some e => simp [h]

/-- Two channels, one of which has something to read. -/
theorem pollers_agree_sample : ∃ s t : Pollers Nat, (machine Nat.cast).Run new
    [.call (.update .enableReading 4), .call (.update .enableWriting 5)] s ∧
    (machine Nat.cast).step s (.poll fourReady [4]) = .ok t ∧
    Agree Nat.cast fourReady s t ∧ t.reported = ([4], [4]) := by
  have hr : (machine Nat.cast).Run (new : Pollers Nat)
      [.call (.update .enableReading 4), .call (.update .enableWriting 5)] _ :=
    .cons ⟨trivial, .inl rfl⟩ rfl (.cons ⟨trivial, .inl rfl⟩ rfl (.nil _))
  have hk : (machine Nat.cast).EveryStep (new : Pollers Nat)
      [.call (.update .enableReading 4), .call (.update .enableWriting 5)] Clean := by
    refine .cons ⟨trivial, .inl rfl⟩ rfl ⟨.inr rfl, fun h => by cases h⟩ (.cons
      ⟨trivial, .inl rfl⟩ rfl ⟨.inr rfl, fun h => by cases h⟩ fun pre a suf _ h _ => ?_)
    cases pre <;> cases h
  have hstep := (pollers_agree (fun _ => Int.natCast_nonneg _) hr hk).2.1 fourReady [4]
  refine ⟨_, _, hr, rfl, hstep _ ⟨by decide, by decide, by decide, fun _ f hf => ?_⟩ rfl, rfl⟩
  by_contra hne
  have hf4 : f ≠ 4 := fun he => hne (List.mem_singleton.mpr he)
  rw [event_unready _ (if_neg hf4)] at hf
  cases hf

end Pollers

end Muduo.Net
