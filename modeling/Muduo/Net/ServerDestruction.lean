import Muduo.Net.ServerLifeCycle
import Muduo.Net.ServerRegistry

/-! `~TcpServer` against the removals that are on their way to the base loop. -/
namespace Muduo.Net
open Muduo.Support

namespace TcpServer
variable {s t : TcpServer} {due : ConnId → Nat} {id : ConnId} {loop : LoopId}

theorem destroyConnection_spec {rest : List ConnId} (h : Ledger s none (owed (id :: rest)))
    (hid : id ∉ rest) (hok : s.destroyConnection id = .ok t) :
    Ledger t none (owed rest) ∧ (t.Removing ↔ s.Removing) := by
  obtain ⟨o, hd, hok⟩ := bind_ok.mp hok
  have hdue : ∀ j, owed (id :: rest) j + (if j = id then 1 else 0) = owed rest j := by
    intro j
    by_cases hj : j = id
    · subst hj
      simp [owed, hid]
    · simp [owed, hj]
  split at hok
  · have hop : Operated s t (owed rest) False := by
      apply call_operated (f := fun c => c.connectDestroyed) h _ _ hok
      · intro o c _ hb hc
        exact TcpConnection.connectDestroyed_yields hb hc
      · intro j
        rw [handed_none, Nat.zero_add, ← hdue j]
        rfl
    exact ⟨hop.ledger, hop.removing.trans (or_iff_left not_false)⟩
  · cases hok
    constructor
    · apply h.post
      · rintro i f hf
        cases hf
        exact ⟨o, deref_ok hd, rfl⟩
      · intro j
        have hj := hdue j
        simp only [Task.lifeCall, Functor.lifeCall, Option.map_some, Option.some.injEq,
          Prod.mk.injEq, and_true, handed_none, Nat.zero_add, eq_comm (a := id)]
        exact hj
    · apply or_congr_right
      refine exists_congr fun l => exists_congr fun i => Mailbox.mem_post.trans (or_iff_left ?_)
      rintro ⟨_, hm⟩
      cases List.mem_singleton.mp hm

/-- The loop of `~TcpServer`, with `ids` still to come. -/
theorem destroyConnections_spec {ids : List ConnId} (h : Ledger s none (owed ids))
    (hn : ids.Nodup) (hok : ids.foldlM destroyConnection s = .ok t) :
    Ledger t none (owed []) ∧ (t.Removing ↔ s.Removing) := by
  induction ids generalizing s with
  | nil =>
    cases hok
    exact ⟨h, .rfl⟩
  | cons id rest ih =>
    obtain ⟨hid, hrest⟩ := List.nodup_cons.mp hn
    rw [List.foldlM_cons] at hok
    obtain ⟨u, hu, hok⟩ := bind_ok.mp hok
    obtain ⟨hl, hr⟩ := destroyConnection_spec h hid hu
    obtain ⟨hl', hr'⟩ := ih hl hrest hok
    exact ⟨hl', hr'.trans hr⟩

theorem destructor_spec (h : Serving s) (hok : s.destructor = .ok t) :
    Ledger t none (fun _ => 1) ∧ (t.Removing ↔ s.Removing) := by
  obtain ⟨u, hu, hok⟩ := bind_ok.mp hok
  cases hok
  obtain ⟨hl, hr⟩ := destroyConnections_spec h.ledger h.registered.held_nodup hu
  exact ⟨⟨hl.buffered, hl.queued, hl.tasks, hl.destroys⟩, hr⟩

/-- Nothing is queued, and no loop is in a `handleClose`. -/
structure Quiescent (s : TcpServer) : Prop where
  pending : ∀ l, s.pending l = []
  closing : ∀ l, s.closing l = none

theorem Quiescent.not_removing (h : Quiescent s) : ¬ s.Removing := by
  rintro (⟨l, hl⟩ | ⟨l, i, hm⟩)
  · exact hl (h.closing l)
  · rw [h.pending] at hm
    cases hm

/-- The call that `enterRemoval` records was on its way. -/
theorem enterRemoval_spec {a : Step} (h : Ledger s none due) (he : machine.enabled s a)
    (ht : s.enterRemoval a = some t) : s.Removing ∧ Ledger t none due := by
  cases a with
  | runFunctor loop w =>
    rw [enterRemoval] at ht
    split at ht
    · next i us hp =>
      cases ht
      have hl := h.take hp
      refine ⟨.inr ⟨loop, i, by rw [hp]; exact List.mem_cons_self⟩,
        hl.buffered, hl.queued, hl.tasks, fun j o ho => ?_⟩
      have hd := hl.destroys j o ho
      simp only [handed, Task.lifeCall, Option.some.injEq, Prod.mk.injEq, reduceCtorEq, and_false,
        if_false] at hd ⊢
      exact hd
    · cases ht
    · cases ht
  | closeCallback loop =>
    rw [enterRemoval] at ht
    split at ht
    · cases ht
      exact ⟨.inl ⟨loop, he⟩, h.buffered, h.queued, h.tasks, h.destroys⟩
    · cases ht
  | newConnection => cases ht
  | handleRead id r => cases ht
  | handleWrite id w => cases ht
  | handleClose id => cases ht
  | send id inLoopThread m data len w => cases ht
  | shutdown id inLoopThread => cases ht
  | forceClose id => cases ht
  | forceCloseWithDelay id => cases ht
  | startRead id inLoopThread => cases ht
  | stopRead id inLoopThread => cases ht

/-- `removeConnection` in another loop than the server's. -/
theorem closeCallback_posts (h : Ledger s none due) (hc : s.closing loop ≠ none) (hl : loop ≠ 0)
    (hok : s.closeCallback loop = .ok t) : Ledger t none due ∧ t.Removing := by
  obtain ⟨i, hi⟩ := Option.ne_none_iff_exists'.mp hc
  simp only [closeCallback, hi, removeConnection, if_neg hl] at hok
  cases hok
  constructor
  · have hs : Ledger { s with closing := Function.update s.closing loop none } none due :=
      ⟨h.buffered, h.queued, h.tasks, h.destroys⟩
    apply hs.post
    · intro j f hf
      cases hf
    · intro j
      simp [Task.lifeCall]
  · have hm : Task.removeConnectionInLoop i ∈ s.pending.post 0 [.removeConnectionInLoop i] 0 :=
      Mailbox.mem_post.mpr (.inr ⟨rfl, List.mem_cons_self⟩)
    exact .inr ⟨0, i, hm⟩

end TcpServer

namespace OwnedServer
open TcpServer (Serving Ledger)

/-- A removal has entered the destroyed server, or is on its way there. -/
def Late (s : OwnedServer) : Prop :=
  s.destroyed = true ∧ (0 < s.lateRemovals ∨ s.server.Removing)

/-- `~TcpServer` runs while a removal is on its way, or a connection closes after it. -/
def Crosses (s : OwnedServer) : Step → Prop
  | .destroy => s.server.Removing
  | .serve a => s.destroyed = true ∧ s.server.handlesClose a

/-- Every connection that was accepted is due to be destroyed once. -/
structure Accounted (s : OwnedServer) : Prop where
  before : s.destroyed = false → Serving s.server ∧ s.lateRemovals = 0
  after : s.destroyed = true → Ledger s.server none fun _ => 1

variable {s t : OwnedServer} {a : Step}

theorem serveDestroyed_spec {a : TcpServer.Step} (h : Ledger s.server none fun _ => 1)
    (he : TcpServer.machine.enabled s.server a) (ha : TcpServer.accepts a = false)
    (hok : s.serveDestroyed a = .ok t) :
    t.destroyed = s.destroyed ∧ (Ledger t.server none fun _ => 1) ∧
      (0 < t.lateRemovals ∨ t.server.Removing ↔
        (0 < s.lateRemovals ∨ s.server.Removing) ∨ s.server.handlesClose a) := by
  unfold serveDestroyed at hok
  split at hok
  · next u hu =>
    cases hok
    obtain ⟨hr, hl⟩ := TcpServer.enterRemoval_spec h he hu
    exact ⟨rfl, hl, iff_of_true (.inl (Nat.succ_pos _)) (.inl (.inr hr))⟩
  · next hnone =>
    obtain ⟨u, hu, hok⟩ := bind_ok.mp hok
    cases hok
    by_cases hclose : ∃ loop, a = .closeCallback loop
    · obtain ⟨loop, rfl⟩ := hclose
      have hl : loop ≠ 0 := by
        rintro rfl
        cases hnone
      obtain ⟨hl, hr⟩ := TcpServer.closeCallback_posts h he hl hu
      exact ⟨rfl, hl, iff_of_true (.inr hr) (.inl (.inr (.inl ⟨loop, he⟩)))⟩
    · have hop : TcpServer.Operated s.server u (fun _ => 1) (s.server.handlesClose a) := by
        apply TcpServer.step_operated h he _ _ _ hu
        · rintro rfl
          cases ha
        · exact fun loop hx => hclose ⟨loop, hx⟩
        · rintro loop w id rfl hp
          obtain ⟨us, hp⟩ := List.head?_eq_some_iff.mp hp
          rw [TcpServer.enterRemoval, hp] at hnone
          cases hnone
      refine ⟨rfl, hop.ledger, ?_⟩
      rw [hop.removing, or_assoc]

/-- The step lemma: an accounted server stays so, and only a crossing lets a removal come
too late. -/
theorem step_spec (h : Accounted s) (he : machine.enabled s a) (hok : machine.step s a = .ok t) :
    Accounted t ∧ (t.Late ↔ s.Late ∨ ¬ ¬ s.Crosses a) := by
  rw [not_not]
  cases a with
  | destroy =>
    obtain ⟨hs, hl⟩ := h.before he
    obtain ⟨u, hu, hok⟩ := bind_ok.mp hok
    cases hok
    obtain ⟨hledger, hr⟩ := TcpServer.destructor_spec hs hu
    refine ⟨⟨fun hd => (by cases hd), fun _ => hledger⟩, ?_⟩
    have hd : s.destroyed = false := he
    simp only [Late, Crosses, hd, hl, hr, reduceCtorEq, false_and, false_or, true_and, lt_irrefl]
  | serve a =>
    cases hd : s.destroyed with
    | false =>
      obtain ⟨hs, hl⟩ := h.before hd
      simp only [machine, step, hd, Bool.false_eq_true, if_false] at hok
      obtain ⟨u, hu, hok⟩ := bind_ok.mp hok
      cases hok
      refine ⟨⟨fun _ => ⟨TcpServer.step_serving hs he.1 hu, hl⟩, fun hx => ?_⟩, ?_⟩
      · cases hx
      · simp only [Late, Crosses, hd, reduceCtorEq, false_and, or_self]
    | true =>
      simp only [machine, step, hd, if_true] at hok
      have ha : TcpServer.accepts a = false := by
        by_contra hx
        cases hd.symm.trans (he.2 (Bool.not_eq_false _ ▸ hx))
      obtain ⟨hd', hledger, hlate⟩ := serveDestroyed_spec (h.after hd) he.1 ha hok
      rw [hd] at hd'
      refine ⟨⟨fun hx => ?_, fun _ => hledger⟩, ?_⟩
      · cases hd'.symm.trans hx
      · simp only [Late, Crosses, hd, hd', true_and, hlate]

theorem start_accounted (name : Bytes) (ipPort : IpPort) (loops : List LoopId)
    (writeComplete : Bool) : Accounted (start (.new name ipPort loops writeComplete)) where
  before _ := ⟨TcpServer.new_serving name ipPort loops writeComplete, rfl⟩
  after hd := by cases hd

/-- While nothing crosses, no removal enters a destroyed server, and every connection is
destroyed once or will be. Once all is quiet, that came about exactly if nothing crossed. -/
theorem destroyed_once_iff {name : Bytes} {ipPort : IpPort} {loops : List LoopId}
    {writeComplete : Bool} {as : List Step}
    (h : machine.Run (start (.new name ipPort loops writeComplete)) as s) :
    (machine.EveryStep (start (.new name ipPort loops writeComplete)) as (fun s a => ¬ s.Crosses a) →
      s.lateRemovals = 0 ∧ (s.destroyed = true →
        ∀ id o, s.server.objects id = some o → s.server.destroys id o = 1)) ∧
    (s.destroyed = true → s.server.Quiescent →
      ((s.lateRemovals = 0 ∧ ∀ id o, s.server.objects id = some o →
          o.ran.count .connectDestroyed = 1) ↔
        machine.EveryStep (start (.new name ipPort loops writeComplete)) as
          (fun s a => ¬ s.Crosses a))) := by
  obtain ⟨hacc, hlate⟩ := h.raised_iff (I := Accounted) (D := Late) (K := fun s a => ¬ s.Crosses a)
    (fun s a t hi he hs => step_spec hi he hs) (start_accounted name ipPort loops writeComplete)
  have hstart : ¬ (start (.new name ipPort loops writeComplete)).Late := by
    rintro ⟨hd, _⟩
    cases hd
  rw [or_iff_right hstart] at hlate
  have honce : s.destroyed = true →
      ∀ id o, s.server.objects id = some o → s.server.destroys id o = 1 :=
    fun hd id o ho => (hacc.after hd).destroys id o ho
  constructor
  · intro hk
    refine ⟨?_, honce⟩
    cases hd : s.destroyed with
    | false => exact (hacc.before hd).2
    | true =>
      by_contra hne
      exact hlate.mp ⟨hd, .inl (Nat.pos_of_ne_zero hne)⟩ hk
  · intro hd hq
    have hcount : ∀ id o, s.server.objects id = some o → o.ran.count .connectDestroyed = 1 := by
      intro id o ho
      have hz : s.server.inFlight id o.loop .connectDestroyed = 0 := by
        apply Mailbox.carried_eq_zero
        intro u hu
        rw [hq.pending] at hu
        cases hu
      have hone := honce hd id o ho
      rwa [TcpServer.destroys, hz, Nat.add_zero] at hone
    have hiff : s.Late ↔ s.lateRemovals ≠ 0 := by
      rw [Late, or_iff_left hq.not_removing, Nat.pos_iff_ne_zero]
      exact and_iff_right hd
    rw [and_iff_left hcount, ← not_iff_not, ← hlate, hiff]

/-- A server destroyed with one connection, whose loop then destroys it. -/
theorem destroyed_once_sample : ∃ s : OwnedServer,
    machine.Run (start TcpServer.sampleServer) [.serve .newConnection,
      .serve (.runFunctor 1 (.accepted 0)), .destroy, .serve (.runFunctor 1 (.accepted 0))] s ∧
    s.lateRemovals = 0 ∧ ∀ id o, s.server.objects id = some o → s.server.destroys id o = 1 := by
  have hr : machine.Run (start TcpServer.sampleServer) [.serve .newConnection,
    .serve (.runFunctor 1 (.accepted 0)), .destroy, .serve (.runFunctor 1 (.accepted 0))] _ :=
      Machine.run_of_exec rfl
  have hk : machine.EveryStep (start TcpServer.sampleServer) [.serve .newConnection,
      .serve (.runFunctor 1 (.accepted 0)), .destroy, .serve (.runFunctor 1 (.accepted 0))]
      (fun s a => ¬ s.Crosses a) := by
    refine .cons (by decide) rfl (fun hx => (by cases hx.1)) ?_
    refine .cons (by decide) rfl (fun hx => (by cases hx.1)) ?_
    refine .cons rfl rfl ?_ (.cons (by decide) rfl ?_ ?_)
    · rintro (⟨l, hl⟩ | ⟨l, i, hm⟩)
      · exact hl rfl
      · rcases l with _ | _ | l <;> cases hm
    · rintro ⟨_, i, o, f, hf, _, hc⟩
      cases hf
      exact hc
    · rintro pre a suf t he
      cases pre <;> cases he
  obtain ⟨hlate, honce⟩ := (destroyed_once_iff hr).1 hk
  exact ⟨_, hr, hlate, honce rfl⟩

/-- A removal that the I/O loop has queued when the base loop destroys the server. -/
theorem removal_after_destructor : ∃ s : OwnedServer,
    machine.Run (start TcpServer.sampleServer) [.serve .newConnection,
      .serve (.runFunctor 1 (.accepted 0)), .serve (.handleClose 1), .serve (.closeCallback 1),
      .destroy, .serve (.runFunctor 0 (.accepted 0))] s ∧ s.lateRemovals = 1 :=
  machine.exists_run _ _ lateRemovals 1 (by decide)

end OwnedServer
end Muduo.Net
