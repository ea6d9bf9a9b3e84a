import Muduo.Net.EPollInterest
import Muduo.Net.PollTeardown

/-! What is left of a removed channel in the two pollers, which are to be interchangeable. -/
namespace Muduo.Net
open Muduo.Support

namespace Poller

/-- `hasChannel`: the map finds the channel under its descriptor. -/
def hasChannel {κ : Type} [DecidableEq κ] (channels : ChannelMap κ) (fd : κ → Int) (k : κ) :
    Bool :=
  match channels (fd k) with
  | some j => decide (j = k)
  | none => false

end Poller

variable {κ : Type} [DecidableEq κ] {fd : κ → Int}

theorem hasChannel_iff {channels : ChannelMap κ} {k : κ} :
    Poller.hasChannel channels fd k = true ↔ channels (fd k) = some k := by
  unfold Poller.hasChannel
  cases channels (fd k) with
  | none => simp
  | some j => simp

namespace EPollPoller
variable {p q : EPollPoller κ} {k : κ}

/-- The descriptor of a channel is not that of another registered one. -/
def Owned (fd : κ → Int) (p : EPollPoller κ) : PollerCall κ → Prop
  | .update _ k => p.channels (fd k) = none ∨ p.channels (fd k) = some k
  | .remove _ => True

/-- The calls on channels that own their descriptors while they are registered. -/
def serving (fd : κ → Int) : Machine (EPollPoller κ) (PollerCall κ) :=
  (machine fd).restrict (Owned fd)

/-- The registered channels are those of the map, each at its stage, and the kernel holds
descriptors of registered channels only. -/
structure Tracks (fd : κ → Int) (p : EPollPoller κ) : Prop where
  live : ∀ k, (p.objects k).channel.addedToLoop = true →
    Stage k (p.objects k) (p.channels (fd k)) (p.epoll (fd k))
  gone : ∀ k, (p.objects k).channel.addedToLoop = false →
    (p.objects k).index = kNew ∧ (p.objects k).channel.isNoneEvent = true
  mapped : ∀ f k, p.channels f = some k ↔
    (p.objects k).channel.addedToLoop = true ∧ fd k = f
  held : ∀ f e, p.epoll f = some e → p.channels f = some e.ptr

omit [DecidableEq κ] in
theorem tracks_new : Tracks fd (new : EPollPoller κ) where
  live _ h := Bool.noConfusion h
  gone _ _ := ⟨rfl, rfl⟩
  mapped _ _ := by simp [new, PolledChannel.new, Channel.new]
  held _ _ h := by simp [new] at h

omit [DecidableEq κ] in
theorem owned_apart {c : Option κ} {j : κ} (hown : c = none ∨ c = some k) (hjk : j ≠ k) :
    c ≠ some j := by
  rintro rfl
  rcases hown with hn | hs
  · cases hn
  · exact hjk (Option.some.inj hs)

theorem Tracks.put (h : Tracks fd p) (hown : p.channels (fd k) = none ∨ p.channels (fd k) = some k)
    {o : PolledChannel} {c : Option κ} {e : Option (EpollEvent κ)} {ctls : List EpollCtl}
    (hk : Stage k o c e) : Tracks fd (p.put fd k o c e ctls) where
  live j hj := by
    by_cases hjk : j = k
    · subst hjk
      simpa [EPollPoller.put] using hk
    · have hreg : (p.objects j).channel.addedToLoop = true := by
        simpa [EPollPoller.put, hjk] using hj
      have hmap := (h.mapped _ _).mpr ⟨hreg, rfl⟩
      have hf : fd j ≠ fd k := by
        intro hf
        rw [hf] at hmap
        exact owned_apart hown hjk hmap
      simpa [EPollPoller.put, hjk, hf] using h.live j hreg
  gone j hj := by
    by_cases hjk : j = k
    · subst hjk
      simp only [EPollPoller.put, Function.update_self] at hj ⊢
      cases hk with
      | new _ idle => exact ⟨rfl, idle⟩
      | added registered => exact absurd hj (by simp [registered])
      | deleted registered _ => exact absurd hj (by simp [registered])
    · simp only [EPollPoller.put, Function.update_of_ne hjk] at hj ⊢
      exact h.gone j hj
  mapped f j := by
    by_cases hf : f = fd k
    · subst hf
      by_cases hjk : j = k
      · subst hjk
        simp only [EPollPoller.put, Function.update_self, and_true]
        cases hk with
        | new removed _ => simp [removed]
        | added registered => simp [registered]
        | deleted registered _ => simp [registered]
      · simp only [EPollPoller.put, Function.update_self, Function.update_of_ne hjk]
        rw [← h.mapped]
        exact iff_of_false (fun hc => hjk (hk.key hc)) (owned_apart hown hjk)
    · by_cases hjk : j = k
      · subst hjk
        simp only [EPollPoller.put, Function.update_of_ne hf, h.mapped]
        exact iff_of_false (fun hc => hf hc.2.symm) (fun hc => hf hc.2.symm)
      · simp only [EPollPoller.put, Function.update_of_ne hf, Function.update_of_ne hjk]
        exact h.mapped f j
  held f e' he := by
    by_cases hf : f = fd k
    · subst hf
      simp only [EPollPoller.put, Function.update_self] at he ⊢
      subst he
      cases hk with
      | added _ => rfl
    · simp only [EPollPoller.put, Function.update_of_ne hf] at he ⊢
      exact h.held f e' he

/-- What one call does to the channels, to the map and to the kernel's set. -/
structure Effect (fd : κ → Int) (p q : EPollPoller κ) (k : κ) (ch : Channel) (c : Option κ) :
    Prop where
  channel : (q.objects k).channel = ch
  others : ∀ j, j ≠ k → (q.objects j).channel = (p.objects j).channel
  channels : q.channels = Function.update p.channels (fd k) c
  watched : ch.isNoneEvent = false → q.epoll (fd k) = some ⟨ch.events, k⟩

theorem effect_put {o : PolledChannel} {c : Option κ} {e : Option (EpollEvent κ)}
    {ctls : List EpollCtl}
    (he : o.channel.isNoneEvent = false → e = some ⟨o.channel.events, k⟩) :
    Effect fd p (p.put fd k o c e ctls) k o.channel c where
  channel := by simp [EPollPoller.put]
  others j hj := by simp [EPollPoller.put, hj]
  channels := rfl
  watched hn := by simp [EPollPoller.put, he hn]

/-- An update registers its channel, whether it is new or removed or known. -/
theorem Tracks.update (h : Tracks fd p)
    (hown : p.channels (fd k) = none ∨ p.channels (fd k) = some k) (op : InterestOp) : ∃ q,
      (machine fd).step p (.update op k) = .ok q ∧ Tracks fd q ∧
        Effect fd p q k (op.apply (p.objects k).channel) (some k) := by
  cases hreg : (p.objects k).channel.addedToLoop with
  | false =>
    obtain ⟨hidx, _⟩ := h.gone k hreg
    have hnone : p.channels (fd k) = none := by
      refine hown.resolve_right fun hs => ?_
      have hreg' := ((h.mapped _ _).mp hs).1
      rw [hreg] at hreg'
      cases hreg'
    have hunheld : p.epoll (fd k) = none := by
      refine Option.eq_none_iff_forall_not_mem.mpr fun e he => ?_
      cases hnone.symm.trans (h.held _ e he)
    exact ⟨_, step_update_absent rfl hunheld (.inl ⟨hidx, hnone⟩),
      h.put hown (.added (by simp)), effect_put fun _ => rfl⟩
  | true =>
    have hk := h.live k hreg
    generalize ho : p.objects k = o at hk ⊢
    generalize hc : p.channels (fd k) = c at hk
    generalize he : p.epoll (fd k) = e at hk
    cases hk with
    | new removed _ => exact absurd hreg (by simp [ho, removed])
    | deleted _ _ =>
      exact ⟨_, step_update_absent ho he (.inr ⟨rfl, hc⟩), h.put (.inr hc) (.added (by simp)),
        effect_put fun _ => rfl⟩
    | added _ =>
      refine ⟨_, step_update_added ho hc he, ?_⟩
      split
      · next hidle =>
        refine ⟨h.put (.inr hc) (.deleted (by simp) hidle), effect_put fun hn => ?_⟩
        rw [hidle] at hn
        cases hn
      · exact ⟨h.put (.inr hc) (.added (by simp)), effect_put fun _ => rfl⟩

theorem Tracks.remove (h : Tracks fd p) (hreg : (p.objects k).channel.addedToLoop = true)
    (hidle : (p.objects k).channel.isNoneEvent = true) : ∃ q,
      (machine fd).step p (.remove k) = .ok q ∧ Tracks fd q ∧
        Effect fd p q k { (p.objects k).channel with addedToLoop := false } none := by
  have hk := h.live k hreg
  generalize ho : p.objects k = o at hk hidle hreg ⊢
  generalize hc : p.channels (fd k) = c at hk
  generalize he : p.epoll (fd k) = e at hk
  have heff {ch : Channel} {revents : Int} {ctls : List EpollCtl} (hidle : ch.isNoneEvent = true) :
      Effect fd p (p.put fd k ⟨{ ch with addedToLoop := false }, kNew, revents⟩ none none ctls) k
        { ch with addedToLoop := false } none :=
    effect_put fun hn => absurd (hidle.symm.trans hn) (by simp)
  cases hk with
  | new removed _ => exact absurd hreg (by simp [removed])
  | added _ =>
    exact ⟨_, step_remove ho hc hidle he (.inl ⟨rfl, rfl⟩), h.put (.inr hc) (.new rfl hidle),
      heff hidle⟩
  | deleted _ _ =>
    exact ⟨_, step_remove ho hc hidle he (.inr ⟨rfl, rfl⟩), h.put (.inr hc) (.new rfl hidle),
      heff hidle⟩

/-- No call that is served fails. -/
theorem Tracks.step (h : Tracks fd p) {c : PollerCall κ} (hen : (serving fd).enabled p c) :
    ∃ q, (serving fd).step p c = .ok q ∧ Tracks fd q := by
  obtain ⟨hpre, hown⟩ := hen
  cases c with
  | update op k =>
    obtain ⟨q, hok, hq, _⟩ := h.update hown op
    exact ⟨q, hok, hq⟩
  | remove k =>
    obtain ⟨hreg, hidle⟩ := hpre
    obtain ⟨q, hok, hq, _⟩ := h.remove hreg hidle
    exact ⟨q, hok, hq⟩

theorem Tracks.run (h : Tracks fd p) {calls : List (PollerCall κ)}
    (hr : (serving fd).Run p calls q) : Tracks fd q := by
  refine hr.invariant (fun s c t hs hen hok => ?_) h
  obtain ⟨t', hok', ht⟩ := hs.step hen
  cases hok.symm.trans hok'
  exact ht

/-- The poller treats `k` as it treats a new channel: it does not know it, the kernel does not
watch it, and any call registers it and has its interest watched. -/
structure Unknown (fd : κ → Int) (p : EPollPoller κ) (k : κ) : Prop where
  index : (p.objects k).index = PolledChannel.new.index
  absent : ∀ f, p.channels f ≠ some k
  unwatched : ∀ f e, p.epoll f = some e → e.ptr ≠ k
  registers : ∀ op, (serving fd).enabled p (.update op k) → ∃ q,
    (serving fd).step p (.update op k) = .ok q ∧ Poller.hasChannel q.channels fd k = true ∧
      ((op.apply (p.objects k).channel).isNoneEvent = false →
        q.epoll (fd k) = some ⟨(op.apply (p.objects k).channel).events, k⟩)

theorem Tracks.unknown (h : Tracks fd p) (hk : (p.objects k).channel.addedToLoop = false) :
    Unknown fd p k := by
  have habsent : ∀ f, p.channels f ≠ some k := by
    intro f hf
    have hreg := ((h.mapped _ _).mp hf).1
    rw [hk] at hreg
    cases hreg
  refine ⟨(h.gone k hk).1, habsent, fun f e he hek => ?_, fun op hen => ?_⟩
  · have hmap := h.held f e he
    rw [hek] at hmap
    exact habsent f hmap
  · obtain ⟨q, hok, _, heff⟩ := h.update hen.2 op
    refine ⟨q, hok, ?_, heff.watched⟩
    rw [hasChannel_iff, heff.channels, Function.update_self]

end EPollPoller

/-- The calls on a `PollPoller`. -/
def PollPoller.serve (fd : κ → Int) (p : PollPoller κ) (calls : List (PollerCall κ)) :
    Except Fault (PollPoller κ) :=
  calls.foldlM (fun p c => (PollPoller.machine fd).step p (.call c)) p

/-- A `PollPoller` goes through the calls that an `EPollPoller` goes through, and after each
of them has the same channels. -/
def Interchangeable (fd : κ → Int) (calls : List (PollerCall κ)) : Prop :=
  ∀ pre suf, calls = pre ++ suf → ∀ e, (EPollPoller.serving fd).Run .new pre e →
    ∃ p, PollPoller.serve fd .new pre = .ok p ∧
      ∀ k, Poller.hasChannel p.channels fd k = Poller.hasChannel e.channels fd k

/-- The channel of an update has not been removed before, and that of a removal has had more
than its first call. -/
def Unspent (e : EPollPoller κ) : PollerCall κ → Prop
  | .update _ k => (e.objects k).channel.addedToLoop = true ∨ (e.objects k).channel.updates = 0
  | .remove k => (e.objects k).channel.updates ≠ 1

/-- The channel objects and the map are the same. -/
structure Alike (p : PollPoller κ) (e : EPollPoller κ) : Prop where
  channel : ∀ k, (p.objects k).channel = (e.objects k).channel
  channels : p.channels = e.channels

variable {p p' : PollPoller κ} {e e' : EPollPoller κ} {k : κ}

theorem Alike.step (h : Alike p e) {ch : Channel} {c : Option κ}
    (hp : PollPoller.Effect fd p p' k ch c) (he : EPollPoller.Effect fd e e' k ch c) :
    Alike p' e' where
  channel j := by
    by_cases hj : j = k
    · subst hj
      rw [hp.channel, he.channel]
    · rw [hp.others j hj, he.others j hj]
      exact h.channel j
  channels := by rw [hp.channels, he.channels, h.channels]

/-- Of a call that the `EPollPoller` serves, the `PollPoller` does the same, or fails an
assertion. -/
theorem step_both (hfd : ∀ k, 0 ≤ fd k) (hp : PollPoller.Placed fd p)
    (he : EPollPoller.Tracks fd e) (h : Alike p e) {c : PollerCall κ}
    (hen : (EPollPoller.serving fd).enabled e c) : ∃ e',
      (EPollPoller.serving fd).step e c = .ok e' ∧ EPollPoller.Tracks fd e' ∧
        (Unspent e c ∧ (∃ p', (PollPoller.machine fd).step p (.call c) = .ok p' ∧
          PollPoller.Placed fd p' ∧ Alike p' e') ∨
        ¬ Unspent e c ∧ (PollPoller.machine fd).step p (.call c) = .error .assertion) := by
  obtain ⟨hpre, hown⟩ := hen
  cases c with
  | update op k =>
    obtain ⟨e', hok, he', heff⟩ := he.update hown op
    refine ⟨e', hok, he', ?_⟩
    rw [Unspent, ← h.channel k]
    rw [← h.channel k] at heff
    by_cases hreg : (p.objects k).channel.addedToLoop = true
    · obtain ⟨p', hok', hp', heff'⟩ := hp.set hreg op
      exact .inl ⟨.inl hreg, p', hok', hp', h.step heff' heff⟩
    · by_cases hu : (p.objects k).channel.updates = 0
      · have hown' : PollPoller.Owns fd p k := by
          rw [PollPoller.Owns, h.channels]
          exact hown
        obtain ⟨p', hok', hp', heff'⟩ := hp.push hown' hu op
        exact .inl ⟨.inr hu, p', hok', hp', h.step heff' heff⟩
      · refine .inr ⟨fun hn => hn.elim hreg hu, ?_⟩
        exact hp.update_fails hreg (Nat.pos_of_ne_zero hu) op
  | remove k =>
    obtain ⟨hreg, hidle⟩ := hpre
    obtain ⟨e', hok, he', heff⟩ := he.remove hreg hidle
    refine ⟨e', hok, he', ?_⟩
    rw [Unspent, ← h.channel k]
    rw [← h.channel k] at heff hreg hidle
    by_cases hu : (p.objects k).channel.updates = 1
    · exact .inr ⟨fun hn => hn hu, hp.remove_fails hfd hreg hidle hu⟩
    · obtain ⟨p', hok', hp', heff'⟩ := hp.remove hfd hreg hidle hu
      exact .inl ⟨hu, p', hok', hp', h.step heff' heff⟩

/-- Over a run the `PollPoller` keeps up exactly as long as every call is on an unspent
channel. -/
theorem serve_run (hfd : ∀ k, 0 ≤ fd k) {calls : List (PollerCall κ)}
    (hr : (EPollPoller.serving fd).Run e calls e') (hp : PollPoller.Placed fd p)
    (he : EPollPoller.Tracks fd e) (h : Alike p e) :
    ((∃ p', PollPoller.serve fd p calls = .ok p') ↔
        (EPollPoller.serving fd).EveryStep e calls Unspent) ∧
      ∀ p', PollPoller.serve fd p calls = .ok p' → Alike p' e' := by
  induction hr generalizing p with
  | nil e =>
    refine ⟨iff_of_true ⟨p, rfl⟩ ?_, fun p' hok => ?_⟩
    · intro pre c suf _ hc
      cases pre <;> cases hc
    · cases hok
      exact h
  | @cons e e₁ e' c calls hen hs _ ih =>
    obtain ⟨e₂, hs', he₁, hstep⟩ := step_both hfd hp he h hen
    rw [hs] at hs'
    cases hs'
    rw [Machine.everyStep_cons hen hs]
    simp only [PollPoller.serve, List.foldlM_cons]
    rcases hstep with ⟨hun, p₁, hok, hp₁, h₁⟩ | ⟨hspent, hfail⟩
    · rw [hok, ok_bind]
      obtain ⟨hserve, halike⟩ := ih hp₁ he₁ h₁
      exact ⟨hserve.trans (and_iff_right hun).symm, halike⟩
    · rw [hfail, error_bind]
      refine ⟨iff_of_false ?_ fun hn => hspent hn.1, fun p' hok => ?_⟩
      · rintro ⟨p', hok⟩
        cases hok
      · cases hok

/-- An `EPollPoller` serves every call, and treats the channels that it does not have as new.
A `PollPoller` keeps up with it exactly as long as no channel is used after its removal or
removed after its first call. -/
theorem removal_resets_iff (hfd : ∀ k, 0 ≤ fd k) {calls : List (PollerCall κ)}
    (h : (EPollPoller.serving fd).Run .new calls e) :
    (Interchangeable fd calls ↔ (EPollPoller.serving fd).EveryStep .new calls Unspent) ∧
      (∀ c, (EPollPoller.serving fd).enabled e c → ∃ q,
        (EPollPoller.serving fd).step e c = .ok q) ∧
      (∀ k, Poller.hasChannel e.channels fd k = false → EPollPoller.Unknown fd e k) ∧
      ∀ k q, (EPollPoller.serving fd).enabled e (.remove k) →
        (EPollPoller.serving fd).step e (.remove k) = .ok q → EPollPoller.Unknown fd q k := by
  have hnew : Alike (.new : PollPoller κ) .new := ⟨fun _ => rfl, rfl⟩
  have hserve {pre : List (PollerCall κ)} {e : EPollPoller κ}
      (hr : (EPollPoller.serving fd).Run .new pre e) :=
    serve_run hfd hr PollPoller.placed_new EPollPoller.tracks_new hnew
  have he := EPollPoller.tracks_new.run h
  refine ⟨⟨fun hi => ?_, fun hun pre suf hcalls e₁ hr => ?_⟩, fun c hen => ?_, fun k hk => ?_,
    fun k q hen hok => ?_⟩
  · obtain ⟨p, hok, _⟩ := hi calls [] (List.append_nil _).symm e h
    exact (hserve h).1.mp ⟨p, hok⟩
  · have hpre : (EPollPoller.serving fd).EveryStep .new pre Unspent := by
      intro a c b t ha ht
      exact hun a c (b ++ suf) t (by rw [hcalls, ha, List.append_assoc, List.cons_append]) ht
    obtain ⟨p, hok⟩ := (hserve hr).1.mpr hpre
    exact ⟨p, hok, fun k => by rw [((hserve hr).2 p hok).channels]⟩
  · obtain ⟨q, hok, _⟩ := he.step hen
    exact ⟨q, hok⟩
  · refine he.unknown (Bool.eq_false_iff.mpr fun hreg => ?_)
    rw [hasChannel_iff.mpr ((he.mapped _ _).mpr ⟨hreg, rfl⟩)] at hk
    cases hk
  · obtain ⟨q', hok', hq, heff⟩ := he.remove hen.1.1 hen.1.2
    cases hok.symm.trans hok'
    exact hq.unknown (by rw [heff.channel])

instance ownedDecidable (e : EPollPoller κ) :
    (c : PollerCall κ) → Decidable (EPollPoller.Owned fd e c)
  | .update _ _ => inferInstanceAs (Decidable (_ ∨ _))
  | .remove _ => inferInstanceAs (Decidable True)

instance callDecidable (e : EPollPoller κ) :
    (c : PollerCall κ) → Decidable ((EPollPoller.machine fd).enabled e c)
  | .update _ _ => inferInstanceAs (Decidable True)
  | .remove _ => inferInstanceAs (Decidable (_ ∧ _))

instance servingDecidable (e : EPollPoller κ) (c : PollerCall κ) :
    Decidable ((EPollPoller.serving fd).enabled e c) :=
  inferInstanceAs (Decidable ((EPollPoller.machine fd).enabled e c ∧ EPollPoller.Owned fd e c))

theorem removal_resets_sample : ∃ e : EPollPoller Nat,
    (EPollPoller.serving Nat.cast).Run .new [.update .enableReading 4, .update .disableAll 4,
      .remove 4, .update .enableReading 5] e ∧
    (Interchangeable Nat.cast [.update .enableReading 4, .update .disableAll 4, .remove 4,
        .update .enableReading 5] ↔
      (EPollPoller.serving Nat.cast).EveryStep .new [.update .enableReading 4,
        .update .disableAll 4, .remove 4, .update .enableReading 5] Unspent) := by
  have hr : (EPollPoller.serving Nat.cast).Run (.new : EPollPoller Nat)
      [.update .enableReading 4, .update .disableAll 4, .remove 4, .update .enableReading 5] _ :=
    Machine.run_of_exec rfl
  exact ⟨_, hr, (removal_resets_iff (fun _ => Int.natCast_nonneg _) hr).1⟩

/-- A channel that is enabled again after its removal: the `PollPoller` has left its index. -/
theorem index_not_reset : ¬ ∀ (calls : List (PollerCall Nat)) (e : EPollPoller Nat),
    (EPollPoller.serving Nat.cast).Run .new calls e → Interchangeable Nat.cast calls := by
  intro h
  have hr : (EPollPoller.serving Nat.cast).Run (.new : EPollPoller Nat)
      [.update .enableReading 4, .update .disableAll 4, .remove 4, .update .enableReading 4] _ :=
    Machine.run_of_exec rfl
  obtain ⟨p, hok, _⟩ := h _ _ hr _ [] (List.append_nil _).symm _ hr
  cases hok

end Muduo.Net
