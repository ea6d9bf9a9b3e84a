import Muduo.Net.ServerLedger

/-! The connections that a server's map holds, and those that are due to be destroyed. -/
namespace Muduo.Net
open Muduo.Support

namespace TcpServer

/-- The names of the map are those of its connections, and no two connections share one. -/
structure Registered (s : TcpServer) : Prop where
  registry : ∀ n id, s.connections.find n = some id →
    (s.objects id).map Connection.name = some n
  names : ∀ id n, (s.objects id).map Connection.name = some n →
    n = s.connName id ∧ id < s.nextConnId
  range : s.nextConnId ≤ INT_MAX + 1

/-- A connection is due to be destroyed once, except while the map holds it. -/
def owed (held : List ConnId) (id : ConnId) : Nat := if id ∈ held then 0 else 1

theorem owed_of_mem {held : List ConnId} {id : ConnId} (h : id ∈ held) : owed held id = 0 :=
  if_pos h

theorem owed_of_not_mem {held : List ConnId} {id : ConnId} (h : id ∉ held) : owed held id = 1 :=
  if_neg h

theorem owed_congr {held held' : List ConnId} {id : ConnId} (h : id ∈ held ↔ id ∈ held') :
    owed held id = owed held' id := if_congr h rfl rfl

structure Serving (s : TcpServer) : Prop where
  ledger : Ledger s none (owed s.held)
  registered : Registered s

variable {s t : TcpServer} {hand : Option (ConnId × LifeCall)} {due : ConnId → Nat}
  {id j : ConnId} {o p : Connection} {loop : LoopId} {closing : Prop}

theorem Registered.held_nodup (h : Registered s) : s.held.Nodup := by
  apply OrderedMap.values_nodup
  intro n m i hn hm
  exact Option.some.inj ((h.registry n i hn).symm.trans (h.registry m i hm))

theorem Registered.name_injective (h : Registered s) (ho : s.objects id = some o)
    (hp : s.objects j = some p) (hn : o.name = p.name) : id = j := by
  have hrange : ∀ i, i < s.nextConnId → i ≤ INT_MAX :=
    fun i hi => Nat.le_of_lt_succ (Nat.lt_of_lt_of_le hi h.range)
  obtain ⟨hid, hlt⟩ := h.names id o.name (by rw [ho]; rfl)
  obtain ⟨hjd, hlt'⟩ := h.names j p.name (by rw [hp]; rfl)
  exact connName_injective (hrange id hlt) (hrange j hlt') (hid.symm.trans (hn.trans hjd))

theorem Registered.find_name (h : Registered s) (ho : s.objects id = some o)
    (hf : (s.connections.find o.name).isSome = true) : s.connections.find o.name = some id := by
  obtain ⟨k, hk⟩ := Option.isSome_iff_exists.mp hf
  obtain ⟨p, hp, hn⟩ := Option.map_eq_some_iff.mp (h.registry o.name k hk)
  rw [hk, h.name_injective hp ho hn]

theorem Registered.keep (h : Registered s) (hn : SameNames s t)
    (hc : ∀ n id, t.connections.find n = some id → s.connections.find n = some id) :
    Registered t where
  registry n id hf := by
    rw [hn.objects]
    exact h.registry n id (hc n id hf)
  names id n ho := by
    rw [hn.objects] at ho
    rw [hn.connName, hn.nextConnId]
    exact h.names id n ho
  range := by
    rw [hn.nextConnId]
    exact h.range

theorem Serving.operated (h : Serving s) (hop : Operated s t (owed s.held) closing) :
    Serving t where
  ledger := by
    rw [held, hop.connections]
    exact hop.ledger
  registered := h.registered.keep hop.names fun n id hf => by rwa [hop.connections] at hf

/-- A call is noted, and the map changes. -/
theorem Ledger.note {x : LifeCall} (h : Ledger s hand due) (ho : s.objects id = some o)
    (hx : x ≠ .connectDestroyed) (connections : OrderedMap Bytes ConnId) :
    Ledger { s with
      connections
      objects := Function.update s.objects id (some { o with ran := o.ran ++ [x] }) } hand due := by
  refine ⟨fun i q hi => ?_, fun i q hi => ?_, fun l i f hm => ?_, fun i q hi => ?_⟩
  · rcases update_some hi with ⟨rfl, rfl⟩ | ⟨_, hi⟩
    · exact h.buffered i o ho
    · exact h.buffered i q hi
  · rcases update_some hi with ⟨rfl, rfl⟩ | ⟨_, hi⟩
    · exact h.queued i o ho
    · exact h.queued i q hi
  · obtain ⟨q, hq, hl⟩ := h.tasks l i f hm
    by_cases hi : i = id
    · subst hi
      cases ho.symm.trans hq
      exact ⟨_, Function.update_self .., hl⟩
    · exact ⟨q, (Function.update_of_ne hi _ _).trans hq, hl⟩
  · rcases update_some hi with ⟨rfl, rfl⟩ | ⟨_, hi⟩
    · have hd := h.destroys i o ho
      have hcount : (o.ran ++ [x]).count .connectDestroyed = o.ran.count .connectDestroyed := by
        rw [List.count_append, List.count_singleton, beq_false_of_ne hx]
        rfl
      simp only [TcpServer.destroys, hcount] at hd ⊢
      exact hd
    · exact h.destroys i q hi

/-- The connection leaves the map, and its loop is asked to destroy it. -/
theorem removeConnectionInLoop_serving (h : Ledger s hand (owed s.held)) (hr : Registered s)
    (hhand : ∀ j, handed hand j .connectDestroyed = 0)
    (hok : s.removeConnectionInLoop id = .ok t) : Serving t := by
  obtain ⟨o, hd, hok⟩ := bind_ok.mp hok
  obtain ⟨hsome, hok⟩ := assert_bind_ok.mp hok
  cases hok
  have ho := deref_ok hd
  have hfind := hr.find_name ho hsome
  have hnote := h.note (x := .removeConnectionInLoop) ho (by decide) (s.connections.erase o.name)
  have hheld : ∀ j, j ∈ (s.connections.erase o.name).values ↔
      j ∈ s.connections.values ∧ j ≠ id := by
    intro j
    simp only [OrderedMap.mem_values, OrderedMap.find_erase]
    constructor
    · rintro ⟨n, hn⟩
      split_ifs at hn with he
      refine ⟨⟨n, hn⟩, ?_⟩
      rintro rfl
      have hname := hr.registry n j hn
      rw [ho] at hname
      exact he (Option.some.inj hname).symm
    · rintro ⟨⟨n, hn⟩, hj⟩
      refine ⟨n, ?_⟩
      rw [if_neg, hn]
      rintro rfl
      exact hj (Option.some.inj (hn.symm.trans hfind))
  constructor
  · apply hnote.post
    · rintro i f hf
      cases hf
      exact ⟨_, Function.update_self .., rfl⟩
    · intro j
      have hmem : id ∈ s.connections.values := OrderedMap.mem_values.mpr ⟨_, hfind⟩
      change 0 + owed s.connections.values j + (if some (id, .connectDestroyed) =
        some (j, LifeCall.connectDestroyed) then 1 else 0) =
          handed hand j .connectDestroyed + owed (s.connections.erase o.name).values j
      rw [hhand]
      by_cases hj : j = id
      · subst hj
        rw [owed_of_mem hmem, owed_of_not_mem fun hx => ((hheld j).mp hx).2 rfl, if_pos rfl]
      · have hsame : owed (s.connections.erase o.name).values j = owed s.connections.values j :=
          owed_congr ((hheld j).trans (and_iff_left hj))
        rw [hsame, if_neg (by simp [Ne.symm hj]), Nat.add_zero]
  · refine hr.keep (.update ho rfl rfl rfl rfl) fun n i hf => ?_
    change (s.connections.erase o.name).find n = some i at hf
    rw [OrderedMap.find_erase] at hf
    split_ifs at hf
    exact hf

/-- The queues and the close callbacks say nothing about names. -/
theorem Serving.requeue {pending : Mailbox LoopId Task} {closing : LoopId → Option ConnId}
    (h : Serving s) (hl : Ledger { s with pending, closing } none (owed s.held)) :
    Serving { s with pending, closing } :=
  ⟨hl, h.registered.keep ⟨fun _ => rfl, rfl, rfl⟩ fun _ _ hf => hf⟩

theorem closeCallback_serving (h : Serving s) (hok : s.closeCallback loop = .ok t) :
    Serving t := by
  unfold closeCallback at hok
  split at hok
  · cases hok
    exact h
  · next i _ =>
    have hl : Ledger { s with closing := Function.update s.closing loop none } none
        (owed s.held) := ⟨h.ledger.buffered, h.ledger.queued, h.ledger.tasks, h.ledger.destroys⟩
    rw [removeConnection] at hok
    split at hok
    · exact removeConnectionInLoop_serving hl (h.requeue hl).registered (fun _ => rfl) hok
    · cases hok
      apply h.requeue
      apply hl.post
      · intro i f hf
        cases hf
      · intro j
        simp [Task.lifeCall]

theorem Registered.fresh (h : Registered s) : s.objects s.nextConnId = none := by
  cases ho : s.objects s.nextConnId with
  | none => rfl
  | some o => exact absurd (h.names s.nextConnId o.name (by rw [ho]; rfl)).2 (Nat.lt_irrefl _)

theorem Ledger.inFlight_fresh (h : Ledger s none due) (hn : s.objects id = none) (l : LoopId) :
    s.inFlight id l .connectDestroyed = 0 := by
  apply Mailbox.carried_eq_zero
  intro u hu hx
  cases u with
  | functor i f =>
    obtain ⟨y, _, hy⟩ := Option.map_eq_some_iff.mp hx
    cases hy
    obtain ⟨o, ho, _⟩ := h.tasks l id f hu
    cases hn.symm.trans ho
  | removeConnectionInLoop i => cases hx

/-- The connection that `newConnection` makes, before it is established. -/
theorem Serving.accept (h : Serving s) (hn : s.nextConnId ≤ INT_MAX) (loop : LoopId)
    (threadPool : EventLoopThreadPool) : Serving { s with
      threadPool
      nextConnId := s.nextConnId + 1
      objects := Function.update s.objects s.nextConnId
        (some ⟨s.connName s.nextConnId, loop, .new s.writeCompleteCallback, []⟩)
      connections := s.connections.insert (s.connName s.nextConnId) s.nextConnId } := by
  have hfresh := h.registered.fresh
  have hnew : ∀ n, s.connections.find (s.connName s.nextConnId) ≠ some n := by
    intro i hi
    obtain ⟨hname, hlt⟩ := h.registered.names i _ (h.registered.registry _ i hi)
    have he := connName_injective hn (Nat.le_trans (Nat.le_of_lt hlt) hn) hname
    exact Nat.lt_irrefl _ (he ▸ hlt)
  have hheld : ∀ j, j ∈ (s.connections.insert (s.connName s.nextConnId) s.nextConnId).values ↔
      j = s.nextConnId ∨ j ∈ s.connections.values := by
    intro j
    simp only [OrderedMap.mem_values, OrderedMap.find_insert]
    constructor
    · rintro ⟨n, hf⟩
      split_ifs at hf with he
      · exact .inl (Option.some.inj hf).symm
      · exact .inr ⟨n, hf⟩
    · rintro (rfl | ⟨n, hf⟩)
      · exact ⟨s.connName s.nextConnId, if_pos rfl⟩
      · refine ⟨n, ?_⟩
        rw [if_neg, hf]
        rintro rfl
        exact hnew j hf
  refine ⟨⟨fun i q hi => ?_, fun i q hi => ?_, fun l i f hm => ?_, fun i q hi => ?_⟩,
    ⟨fun n i hf => ?_, fun i n ho => ?_, Nat.succ_le_succ hn⟩⟩
  · rcases update_some hi with ⟨rfl, rfl⟩ | ⟨_, hi⟩
    · exact TcpConnection.new_buffered _ _ _
    · exact h.ledger.buffered i q hi
  · rcases update_some hi with ⟨rfl, rfl⟩ | ⟨_, hi⟩
    · rfl
    · exact h.ledger.queued i q hi
  · obtain ⟨q, hq, hl⟩ := h.ledger.tasks l i f hm
    have hi : i ≠ s.nextConnId := by
      rintro rfl
      cases hfresh.symm.trans hq
    exact ⟨q, (Function.update_of_ne hi _ _).trans hq, hl⟩
  · rcases update_some hi with ⟨rfl, rfl⟩ | ⟨hne, hi⟩
    · exact (Nat.zero_add _).trans ((h.ledger.inFlight_fresh hfresh loop).trans
        (owed_of_mem ((hheld s.nextConnId).mpr (.inl rfl))).symm)
    · exact (h.ledger.destroys i q hi).trans
        (owed_congr ((hheld i).trans (or_iff_right hne)).symm)
  · have hf : (s.connections.insert (s.connName s.nextConnId) s.nextConnId).find n = some i := hf
    rw [OrderedMap.find_insert] at hf
    split_ifs at hf with he
    · cases hf
      simp only [he, Function.update_self, Option.map_some]
    · have hi : i ≠ s.nextConnId := by
        rintro rfl
        have ho := h.registered.registry n _ hf
        rw [hfresh] at ho
        cases ho
      simp only [Function.update_of_ne hi]
      exact h.registered.registry n i hf
  · obtain ⟨q, hq, rfl⟩ := Option.map_eq_some_iff.mp ho
    rcases update_some hq with ⟨rfl, rfl⟩ | ⟨_, hq⟩
    · exact ⟨rfl, Nat.lt_succ_self _⟩
    · obtain ⟨hname, hlt⟩ := h.registered.names i q.name (by rw [hq]; rfl)
      exact ⟨hname, Nat.lt_succ_of_lt hlt⟩

theorem newConnection_serving (h : Serving s) (hn : s.nextConnId ≤ INT_MAX)
    (hok : s.newConnection = .ok t) : Serving t := by
  obtain ⟨⟨ioLoop, threadPool⟩, _, hok⟩ := bind_ok.mp hok
  have hs := h.accept hn ioLoop threadPool
  dsimp only at hok
  split at hok
  · refine hs.operated (call_operated (f := fun c => c.connectEstablished) hs.ledger ?_ ?_ hok :
      Operated _ t _ False)
    · intro o c _ hb hc
      exact TcpConnection.connectEstablished_yields hb hc
    · intro j
      simp
  · cases hok
    apply hs.requeue
    apply hs.ledger.post
    · rintro i f hf
      cases hf
      exact ⟨_, Function.update_self .., rfl⟩
    · intro j
      simp [Task.lifeCall, Functor.lifeCall]

theorem new_serving (name : Bytes) (ipPort : IpPort) (loops : List LoopId) (writeComplete : Bool) :
    Serving (new name ipPort loops writeComplete) where
  ledger := by constructor <;> simp [new]
  registered := by constructor <;> simp [new, INT_MAX]

theorem step_serving {a : Step} (h : Serving s) (he : machine.enabled s a)
    (hok : machine.step s a = .ok t) : Serving t := by
  by_cases hnew : a = .newConnection
  · subst hnew
    exact newConnection_serving h he.2 hok
  by_cases hclose : ∃ loop, a = .closeCallback loop
  · obtain ⟨loop, rfl⟩ := hclose
    exact closeCallback_serving h hok
  by_cases hremove : ∃ loop w id, a = .runFunctor loop w ∧
      (s.pending loop).head? = some (.removeConnectionInLoop id)
  · obtain ⟨loop, w, id, rfl, hp⟩ := hremove
    obtain ⟨us, hp⟩ := List.head?_eq_some_iff.mp hp
    have hl := h.ledger.take hp
    have hok : s.runFunctor loop w = .ok t := hok
    rw [runFunctor, hp] at hok
    exact removeConnectionInLoop_serving hl
      (h.registered.keep ⟨fun _ => rfl, rfl, rfl⟩ fun _ _ hf => hf)
      (fun j => by simp [handed, Task.lifeCall]) hok
  · simp only [not_exists, not_and] at hclose hremove
    exact h.operated (step_operated h.ledger he hnew hclose hremove hok)

end TcpServer
end Muduo.Net
