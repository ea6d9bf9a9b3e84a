import Muduo.Net.UserCallbacks

/-! The connections of a server and of a client with the same callbacks of the user, side
by side under the same operations. -/
namespace Muduo.Net
open Muduo.Support

def UserCall.isWriteComplete {κ : Type} : UserCall κ → Bool
  | .writeComplete _ => true
  | .connection _ _ | .message _ => false

namespace WiredConnection
variable {κ : Type} {u : UserCallbacks κ} {s t : WiredConnection κ} {os : List Operation}

/-- The connection as it is without a write-complete callback, its calls of it left out. -/
def unwired (s : WiredConnection κ) : WiredConnection κ :=
  { s with
    conn := s.conn.unwired
    writeCompleteCallback := none
    calls := s.calls.filter fun x => !x.isWriteComplete }

theorem ofClient_eq (u : UserCallbacks κ) : ofClient u = (ofServer u).unwired := rfl

theorem invoked_kept (s : WiredConnection κ) (cs : List Callback) :
    (cs.filterMap s.invoked).filter (fun x => !x.isWriteComplete) = cs.filterMap s.invoked := by
  rw [List.filter_eq_self]
  intro x hx
  obtain ⟨cb, _, hcb⟩ := List.mem_filterMap.mp hx
  cases cb <;> cases hcb <;> rfl

theorem queued_dropped (s : WiredConnection κ) (fs : List Functor) :
    (fs.filterMap s.queued).filter (fun x => !x.isWriteComplete) = [] := by
  rw [List.filter_eq_nil_iff]
  intro x hx
  obtain ⟨f, _, hf⟩ := List.mem_filterMap.mp hx
  cases f with
  | writeCompleteCallback =>
    obtain ⟨cb, _, rfl⟩ := Option.map_eq_some_iff.mp hf
    simp [UserCall.isWriteComplete]
  | _ => cases hf

theorem queued_unwired (s : WiredConnection κ) (fs : List Functor) :
    fs.filterMap s.unwired.queued = [] := by
  rw [List.filterMap_eq_nil_iff]
  intro f _
  cases f <;> rfl

theorem note_unwired (s : WiredConnection κ) (conn : TcpConnection) :
    s.unwired.note conn.unwired = (s.note conn).unwired := by
  have hcalls : (s.unwired.note conn.unwired).calls = (s.note conn).unwired.calls := by
    change (s.calls.filter fun x => !x.isWriteComplete) ++ conn.callbacks.filterMap s.invoked ++
        conn.unwired.queued.filterMap s.unwired.queued =
      (s.calls ++ conn.callbacks.filterMap s.invoked ++
        conn.queued.filterMap s.queued).filter fun x => !x.isWriteComplete
    rw [List.filter_append, List.filter_append, invoked_kept, queued_dropped, queued_unwired]
  unfold note unwired at *
  dsimp only at hcalls ⊢
  rw [hcalls]
  rfl

theorem step_unwired (s : WiredConnection κ) (o : Operation) :
    machine.step s.unwired o = (machine.step s o).map unwired := by
  change (do return s.unwired.note (← o.apply s.conn.unwired)) = Except.map unwired
    (do return s.note (← o.apply s.conn))
  rw [Operation.apply_unwired]
  cases o.apply s.conn with
  | error e => rfl
  | ok c => exact congrArg Except.ok (note_unwired s c)

/-- The two connections take the same operations. -/
theorem run_unwired {c : WiredConnection κ} :
    machine.Run s.unwired os c ↔ ∃ t, machine.Run s os t ∧ c = t.unwired := by
  induction os generalizing s with
  | nil =>
    constructor
    · intro h
      cases h
      exact ⟨s, .nil s, rfl⟩
    · rintro ⟨t, h, rfl⟩
      cases h
      exact .nil _
  | cons o os ih =>
    constructor
    · intro h
      cases h with
      | @cons _ v _ _ _ _ hs hr =>
        rw [step_unwired] at hs
        cases hok : machine.step s o with
        | error e =>
          rw [hok] at hs
          cases hs
        | ok v' =>
          rw [hok] at hs
          cases hs
          obtain ⟨t, hrun, rfl⟩ := ih.mp hr
          exact ⟨t, .cons trivial hok hrun, rfl⟩
    · rintro ⟨t, h, rfl⟩
      cases h with
      | @cons _ v _ _ _ _ hs hr =>
        refine .cons trivial ?_ (ih.mpr ⟨t, hr, rfl⟩)
        rw [step_unwired, hs]
        rfl

/-- A connection of a server between two operations. -/
structure Wired (u : UserCallbacks κ) (s : WiredConnection κ) : Prop where
  callback : s.writeCompleteCallback = u.writeCompleteCallback
  flag : s.conn.writeCompleteCallback = u.writeCompleteCallback.isSome
  taken : s.conn.queued = []

/-- A write-complete callback has been queued. -/
def Notified (s : WiredConnection κ) : Prop := ∃ cb, .writeComplete cb ∈ s.calls

theorem ofServer_wired (u : UserCallbacks κ) : Wired u (ofServer u) := ⟨rfl, rfl, rfl⟩

theorem note_notified (h : Wired u s) (conn : TcpConnection) : (s.note conn).Notified ↔
    s.Notified ∨ u.writeCompleteCallback.isSome = true ∧ .writeCompleteCallback ∈ conn.queued := by
  have hinvoked : ∀ cb, .writeComplete cb ∉ conn.callbacks.filterMap s.invoked := by
    intro cb hm
    obtain ⟨x, _, hx⟩ := List.mem_filterMap.mp hm
    cases x <;> cases hx
  have hqueued : (∃ cb, .writeComplete cb ∈ conn.queued.filterMap s.queued) ↔
      u.writeCompleteCallback.isSome = true ∧ .writeCompleteCallback ∈ conn.queued := by
    rw [← h.callback]
    constructor
    · rintro ⟨cb, hm⟩
      obtain ⟨f, hf, hx⟩ := List.mem_filterMap.mp hm
      cases f with
      | writeCompleteCallback =>
        obtain ⟨cb', hcb, _⟩ := Option.map_eq_some_iff.mp hx
        exact ⟨by rw [hcb]; rfl, hf⟩
      | _ => cases hx
    · rintro ⟨hsome, hf⟩
      obtain ⟨cb, hcb⟩ := Option.isSome_iff_exists.mp hsome
      exact ⟨cb, List.mem_filterMap.mpr ⟨_, hf, by rw [queued, hcb]; rfl⟩⟩
  rw [← hqueued]
  simp only [Notified, note, List.mem_append, hinvoked, or_false, exists_or]

theorem step_wired {o : Operation} (h : Wired u s) (hs : machine.step s o = .ok t) :
    Wired u t ∧ (t.Notified ↔ s.Notified ∨
      ¬ ¬ (u.writeCompleteCallback.isSome = true ∧ o.CompletesOutput s.conn)) := by
  obtain ⟨conn, hc, hs⟩ := bind_ok.mp hs
  cases hs
  have hn := Operation.apply_outcome hc
  refine ⟨⟨h.callback, hn.wired.trans h.flag, rfl⟩, ?_⟩
  rw [note_notified h, not_not, hn.queued, h.taken, h.flag]
  simp

theorem calls_unwired_iff (s : WiredConnection κ) :
    s.unwired.calls = s.calls ↔ ¬ s.Notified := by
  change (s.calls.filter fun x => !x.isWriteComplete) = s.calls ↔ _
  rw [List.filter_eq_self]
  constructor
  · rintro hall ⟨cb, hm⟩
    have := hall _ hm
    cases this
  · intro hno x hx
    cases x with
    | writeComplete cb => exact absurd ⟨cb, hx⟩ hno
    | connection cb connected => rfl
    | message cb => rfl

/-- The two connections take the same operations. They make the same calls of the user
exactly if no write-complete callback was registered or no operation writes what is left
of the output. -/
theorem same_calls_iff (u : UserCallbacks κ) (os : List Operation) :
    (∀ s, machine.Run (ofServer u) os s → ∃ c, machine.Run (ofClient u) os c ∧
      (c.calls = s.calls ↔ u.writeCompleteCallback = none ∨
        machine.EveryStep (ofServer u) os fun s o => ¬ o.CompletesOutput s.conn)) ∧
    ∀ c, machine.Run (ofClient u) os c → ∃ s, machine.Run (ofServer u) os s := by
  rw [ofClient_eq]
  refine ⟨fun s h => ⟨s.unwired, run_unwired.mpr ⟨s, h, rfl⟩, ?_⟩, fun c h => ?_⟩
  · obtain ⟨_, hn⟩ := h.raised_iff (fun _ _ _ hi _ hs => step_wired hi hs) (ofServer_wired u)
    have hnew : ¬ (ofServer u).Notified := by
      rintro ⟨cb, hm⟩
      cases hm
    rw [calls_unwired_iff, hn, or_iff_right hnew, not_not]
    cases hu : u.writeCompleteCallback with
    | none => simp [Machine.EveryStep]
    | some cb => simp
  · obtain ⟨t, ht, _⟩ := run_unwired.mp h
    exact ⟨t, ht⟩

instance enabledDecidable (s : WiredConnection κ) (o : Operation) :
    Decidable (machine.enabled s o) := isTrue trivial

/-- A message of two bytes that the kernel takes as a whole. -/
def established : List Operation :=
  [.runFunctor .connectEstablished (.accepted 0), .send true (fun _ => 104) 0 2 (.accepted 2)]

/-- The server's connection queues the write-complete callback, the client's does not. -/
theorem client_not_notified : ∃ s c : WiredConnection Nat,
    machine.Run (ofServer ⟨0, 1, some 2⟩) established s ∧
    machine.Run (ofClient ⟨0, 1, some 2⟩) established c ∧
    s.calls = [.connection 0 true, .writeComplete 2] ∧ c.calls = [.connection 0 true] := by
  obtain ⟨s, hs, hcalls⟩ := machine.exists_run (ofServer ⟨0, 1, some 2⟩) established
    WiredConnection.calls [.connection 0 true, .writeComplete 2] (by decide +kernel)
  obtain ⟨c, hc, hcalls'⟩ := machine.exists_run (ofClient ⟨0, 1, some 2⟩) established
    WiredConnection.calls [.connection 0 true] (by decide +kernel)
  exact ⟨s, c, hs, hc, hcalls, hcalls'⟩

end WiredConnection
end Muduo.Net
