import Muduo.Net.ServerSteps

/-! The life of the connections of a live server, over whole runs. -/
namespace Muduo.Net
open Muduo.Support

theorem Stage.order {ran : List LifeCall} {state : StateE} {seen : List Bool}
    (h : Stage ran state seen) : ran <+: life := by
  cases h <;> decide

theorem Stage.seen_order {ran : List LifeCall} {state : StateE} {seen : List Bool}
    (h : Stage ran state seen) : seen <+: [true, false] := by
  cases h <;> decide

theorem Stage.seen_up {ran : List LifeCall} {state : StateE} {seen : List Bool}
    (h : Stage ran state seen) : .connectEstablished ∈ ran ↔ true ∈ seen := by
  cases h <;> decide

namespace TcpServer

/-- The calls of every connection's life have run in their order, each at most once; the
connection callback has seen UP and then at most one DOWN; names tell connections apart;
the map holds the connections that were not removed. -/
structure LifeCycle (s : TcpServer) : Prop where
  order : ∀ id o, s.objects id = some o → o.ran <+: life
  seen : ∀ id o, s.objects id = some o → o.conn.upDowns <+: [true, false]
  up : ∀ id o, s.objects id = some o → (.connectEstablished ∈ o.ran ↔ true ∈ o.conn.upDowns)
  names : ∀ i j o p, s.objects i = some o → s.objects j = some p → o.name = p.name → i = j
  connections : ∀ n id, s.connections.find n = some id ↔
    ∃ o, s.objects id = some o ∧ o.name = n ∧ .removeConnectionInLoop ∉ o.ran

variable {s : TcpServer}

theorem Inv.lifeCycle {hand : Option (ConnId × LifeCall)} (h : Inv s hand) : LifeCycle s where
  order id o ho := (h.alive id o ho).stage.order
  seen id o ho := (h.alive id o ho).stage.seen_order
  up id o ho := (h.alive id o ho).stage.seen_up
  names _ _ _ _ ho hp hn := h.name_injective ho hp hn
  connections := h.registry

theorem reachable_inv {name : Bytes} {ipPort : IpPort} {loops : List LoopId} {writeComplete : Bool}
    {as : List Step} (h : machine.Run (.new name ipPort loops writeComplete) as s)
    (hk : machine.EveryStep (.new name ipPort loops writeComplete) as ReadsUp) : Inv s none := by
  apply h.invariant_of_everyStep (I := fun s => Inv s none) ?_ hk
    (new_inv name ipPort loops writeComplete)
  intro s a t hi he hk hs
  obtain ⟨t', ht, hi', _⟩ := step_spec hi he hk
  cases hs.symm.trans ht
  exact hi'

/-- In every run that switches on reading for no connection that is down, connections live
their lives in order, and every further step of this kind returns and moves no state back. -/
theorem life_cycle {name : Bytes} {ipPort : IpPort} {loops : List LoopId} {writeComplete : Bool}
    {as : List Step} (h : machine.Run (.new name ipPort loops writeComplete) as s)
    (hk : machine.EveryStep (.new name ipPort loops writeComplete) as ReadsUp) :
    LifeCycle s ∧ ∀ a, machine.enabled s a → s.ReadsUp a →
      ∃ s', machine.step s a = .ok s' ∧ Advances s s' := by
  have hi := reachable_inv h hk
  refine ⟨hi.lifeCycle, fun a he ha => ?_⟩
  obtain ⟨s', hok, _, hadv⟩ := step_spec hi he ha
  exact ⟨s', hok, hadv⟩

instance readsDownDecidable (s : TcpServer) : (t : Task) → Decidable (s.readsDown t)
  | .functor id .startReadInLoop =>
      inferInstanceAs (Decidable (∃ o ∈ s.objects id, o.conn.state = .kDisconnected))
  | .functor _ .writeCompleteCallback | .functor _ (.highWaterMarkCallback _)
  | .functor _ (.sendInLoop ..) | .functor _ .shutdownInLoop | .functor _ .forceCloseInLoop
  | .functor _ .stopReadInLoop | .functor _ .connectEstablished | .functor _ .connectDestroyed
  | .removeConnectionInLoop _ => inferInstanceAs (Decidable False)

instance restrictedDecidable (s : TcpServer) :
    (a : Step) → Decidable ((machine.restrict ReadsUp).enabled s a)
  | .runFunctor loop w => inferInstanceAs (Decidable (machine.enabled s (.runFunctor loop w) ∧
      ∀ t ∈ (s.pending loop).head?, ¬ s.readsDown t))
  | .newConnection => inferInstanceAs (Decidable (machine.enabled s .newConnection ∧ True))
  | .closeCallback loop =>
      inferInstanceAs (Decidable (machine.enabled s (.closeCallback loop) ∧ True))
  | .handleRead id r => inferInstanceAs (Decidable (machine.enabled s (.handleRead id r) ∧ True))
  | .handleWrite id w => inferInstanceAs (Decidable (machine.enabled s (.handleWrite id w) ∧ True))
  | .handleClose id => inferInstanceAs (Decidable (machine.enabled s (.handleClose id) ∧ True))
  | .send id b m data len w =>
      inferInstanceAs (Decidable (machine.enabled s (.send id b m data len w) ∧ True))
  | .shutdown id b => inferInstanceAs (Decidable (machine.enabled s (.shutdown id b) ∧ True))
  | .forceClose id => inferInstanceAs (Decidable (machine.enabled s (.forceClose id) ∧ True))
  | .forceCloseWithDelay id =>
      inferInstanceAs (Decidable (machine.enabled s (.forceCloseWithDelay id) ∧ True))
  | .startRead id b => inferInstanceAs (Decidable (machine.enabled s (.startRead id b) ∧ True))
  | .stopRead id b => inferInstanceAs (Decidable (machine.enabled s (.stopRead id b) ∧ True))

/-- A server with one I/O loop. -/
def sampleServer : TcpServer :=
  .new (ascii ['s']) ⟨ascii ['0', ':', '8', '0'], by decide⟩ [1] false

/-- A connection that another thread closes while the peer does. -/
theorem life_cycle_force_close : ∃ s, machine.Run sampleServer [.newConnection,
    .runFunctor 1 (.accepted 0), .forceClose 1, .handleClose 1, .closeCallback 1,
    .runFunctor 0 (.accepted 0), .runFunctor 1 (.accepted 0), .runFunctor 1 (.accepted 0)] s ∧
    LifeCycle s := by
  obtain ⟨s, hr, _⟩ := (machine.restrict ReadsUp).exists_run sampleServer [.newConnection,
    .runFunctor 1 (.accepted 0), .forceClose 1, .handleClose 1, .closeCallback 1,
    .runFunctor 0 (.accepted 0), .runFunctor 1 (.accepted 0), .runFunctor 1 (.accepted 0)]
    (fun s => (s.objects 1).map Connection.ran) (some life) (by decide)
  obtain ⟨hr, hk⟩ := Machine.run_restrict.mp hr
  exact ⟨s, hr, (life_cycle hr hk).1⟩

/-- `startRead()` from another thread before the connection goes down: its functor runs
behind the close and switches reading on, and a second event enters `handleClose` again,
where the assertion fails. -/
theorem early_startRead_closes_again : ∃ s, machine.Run sampleServer [.newConnection,
    .runFunctor 1 (.accepted 0), .startRead 1 false, .handleClose 1, .closeCallback 1,
    .runFunctor 1 (.accepted 0)] s ∧
    (s.objects 1).map Connection.ran = some [.connectEstablished, .handleClose] ∧
    machine.enabled s (.handleClose 1) ∧ machine.step s (.handleClose 1) = .error .assertion := by
  obtain ⟨s, hr, he⟩ := machine.exists_run sampleServer [.newConnection,
    .runFunctor 1 (.accepted 0), .startRead 1 false, .handleClose 1, .closeCallback 1,
    .runFunctor 1 (.accepted 0)] (fun s => ((s.objects 1).map Connection.ran,
      decide (machine.enabled s (.handleClose 1)),
      match machine.step s (.handleClose 1) with
        | .error f => some f
        | .ok _ => none))
    (some [.connectEstablished, .handleClose], true, some .assertion) (by decide)
  obtain ⟨hran, he⟩ := Prod.mk.inj he
  obtain ⟨henabled, hstep⟩ := Prod.mk.inj he
  refine ⟨s, hr, hran, of_decide_eq_true henabled, ?_⟩
  cases hs : machine.step s (.handleClose 1) with
  | ok t =>
    rw [hs] at hstep
    cases hstep
  | error f =>
    rw [hs] at hstep
    cases hstep
    rfl

end TcpServer
end Muduo.Net
