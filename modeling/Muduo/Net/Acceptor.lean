import Muduo.Support.Descriptors

/-! `muduo::net::Acceptor`: `handleRead()` with its system calls one by one, while the other
threads of the process open and close descriptors. -/
namespace Muduo.Net
open Muduo.Support

inductive FdOwner where
  | acceptor
  /-- The connections that were handed over, and the rest of the process. -/
  | user
  deriving DecidableEq, Repr

/-- The place in `handleRead()`, and between its calls. -/
inductive AcceptPlace where
  | polling
  /-- `accept()` has failed with `EMFILE`. -/
  | refused
  /-- Behind `::close(idleFd_)`, `idleFd_ = ::accept(..)` and the second `::close(idleFd_)`. -/
  | opened | accepted | dropped
  | destroyed
  deriving DecidableEq, Repr

structure Acceptor (ι : Type) where
  table : Descriptors FdOwner
  /-- `acceptSocket_` -/
  listenFd : Nat
  /-- `idleFd_`, if it is not `-1`. -/
  idleFd : Option Nat
  /-- There is a `newConnectionCallback_`. -/
  callback : Bool
  place : AcceptPlace
  /-- The connections in the backlog. -/
  pending : List ι
  arrived : List ι
  /-- The accepted connections, with the descriptor of those that were handed over. -/
  served : List (ι × Option Nat)

namespace Acceptor
variable {ι : Type}

/-- The constructor; `createNonblockingOrDie` and the assertion end the process. -/
def new (table : Descriptors FdOwner) : Except Fault (Acceptor ι) :=
  match table.lowest with
  | none => .error .assertion
  | some listenFd =>
      let table := table.put listenFd .acceptor
      match table.lowest with
      | none => .error .assertion
      | some idleFd => .ok {
          table := table.put idleFd .acceptor
          listenFd
          idleFd := some idleFd
          callback := false
          place := .polling
          pending := []
          arrived := []
          served := [] }

inductive Step (ι : Type) where
  | arrive (c : ι)
  | setNewConnectionCallback
  /-- The first `accept()`; `interrupted` is an error that passes, such as `EINTR`. -/
  | handleRead (interrupted : Bool)
  /-- The next call where `accept()` has failed with `EMFILE`. -/
  | next
  /-- Somebody else opens a descriptor, or closes one. -/
  | userOpen
  | userClose (fd : Nat)
  | destroy
  deriving DecidableEq, Repr

/-- `::close(idleFd_)` -/
def closeIdle (s : Acceptor ι) : Except Fault (Descriptors FdOwner) :=
  match s.idleFd with
  | some fd => s.table.close .acceptor fd
  | none => .ok s.table

/-- `accept()` with its errors looked at; the record that is logged leaves `errno` alone. -/
def handleRead (s : Acceptor ι) (interrupted : Bool) : Acceptor ι :=
  if interrupted then s
  else match s.table.lowest, s.pending with
    | none, _ => { s with place := .refused }
    | some _, [] => s
    | some fd, c :: pending =>
        if s.callback then { s with
          table := s.table.put fd .user
          pending
          served := s.served ++ [(c, some fd)] }
        else { s with
          pending
          served := s.served ++ [(c, none)] }

def next (s : Acceptor ι) : Except Fault (Acceptor ι) :=
  match s.place with
  | .refused => do
      let table ← s.closeIdle
      return { s with
        table
        place := .opened }
  | .opened => match s.table.lowest, s.pending with
      | some fd, c :: pending => return { s with
          table := s.table.put fd .acceptor
          idleFd := some fd
          place := .accepted
          pending
          served := s.served ++ [(c, none)] }
      | none, _ | some _, [] => return { s with
          idleFd := none
          place := .accepted }
  | .accepted => do
      let table ← s.closeIdle
      return { s with
        table
        place := .dropped }
  | .dropped => match s.table.lowest with
      | some fd => return { s with
          table := s.table.put fd .acceptor
          idleFd := some fd
          place := .polling }
      | none => return { s with
          idleFd := none
          place := .polling }
  | .polling | .destroyed => return s

/-- The destructors of the acceptor and of its socket. -/
def destroy (s : Acceptor ι) : Except Fault (Acceptor ι) := do
  let table ← s.closeIdle
  let table ← table.close .acceptor s.listenFd
  return { s with
    table
    place := .destroyed }

def enabled (s : Acceptor ι) : Step ι → Prop
  | .arrive _ => s.place ≠ .destroyed
  | .setNewConnectionCallback | .handleRead _ | .destroy => s.place = .polling
  | .next => s.place ≠ .polling ∧ s.place ≠ .destroyed
  | .userOpen => s.table.lowest ≠ none
  | .userClose fd => s.table.owner fd = some .user

def step (s : Acceptor ι) : Step ι → Except Fault (Acceptor ι)
  | .arrive c => return { s with
      pending := s.pending ++ [c]
      arrived := s.arrived ++ [c] }
  | .setNewConnectionCallback => return { s with callback := true }
  | .handleRead interrupted => return s.handleRead interrupted
  | .next => s.next
  | .userOpen => match s.table.lowest with
      | some fd => return { s with table := s.table.put fd .user }
      | none => return s
  | .userClose fd => do
      let table ← s.table.close .user fd
      return { s with table }
  | .destroy => s.destroy

def machine : Machine (Acceptor ι) (Step ι) := ⟨enabled, step⟩

instance enabledDecidable (s : Acceptor ι) : (a : Step ι) → Decidable (machine.enabled s a)
  | .arrive _ => inferInstanceAs (Decidable (s.place ≠ .destroyed))
  | .setNewConnectionCallback | .handleRead _ | .destroy =>
      inferInstanceAs (Decidable (s.place = .polling))
  | .next => inferInstanceAs (Decidable (s.place ≠ .polling ∧ s.place ≠ .destroyed))
  | .userOpen => inferInstanceAs (Decidable (s.table.lowest ≠ none))
  | .userClose fd => inferInstanceAs (Decidable (s.table.owner fd = some .user))

/-- The descriptors of the acceptor; `idleFd_` is stale in between. -/
def fds (s : Acceptor ι) : List Nat :=
  match s.place with
  | .polling | .refused | .accepted => s.listenFd :: s.idleFd.toList
  | .opened | .dropped => [s.listenFd]
  | .destroyed => []

/-- No connection is lost, and no descriptor. -/
structure Inv (s : Acceptor ι) : Prop where
  order : s.served.map Prod.fst ++ s.pending = s.arrived
  holds : s.table.Holds .acceptor s.fds

variable {s s' : Acceptor ι}

theorem new_inv {table : Descriptors FdOwner} (ht : ∀ fd, table.owner fd ≠ some .acceptor)
    (h : new table = .ok s) : Inv s ∧ s.place = .polling ∧ s.idleFd.isSome = true := by
  rw [new] at h
  have hempty : table.Holds .acceptor [] :=
    ⟨fun fd => iff_of_false (ht fd) List.not_mem_nil, List.nodup_nil, fun _ hx => by cases hx⟩
  split at h
  · cases h
  · next listenFd hl =>
    dsimp only at h
    split at h
    · cases h
    · next idleFd hi =>
      cases h
      exact ⟨⟨rfl, (hempty.put hl).put hi⟩, rfl, rfl⟩

theorem closeIdle_spec (h : s.table.Holds .acceptor (s.listenFd :: s.idleFd.toList)) :
    ∃ table, s.closeIdle = .ok table ∧ table.Holds .acceptor [s.listenFd] ∧
      (s.idleFd.isSome = true → ∃ fd, table.lowest = some fd) := by
  rw [closeIdle]
  cases hi : s.idleFd with
  | none =>
    rw [hi] at h
    exact ⟨s.table, rfl, h, fun hx => by cases hx⟩
  | some fd =>
    rw [hi] at h
    have hmem : fd ∈ [s.listenFd] ++ [fd] := List.mem_append_right _ (List.mem_singleton_self fd)
    refine ⟨_, Descriptors.close_own ((h.owner fd).mpr hmem), h.close, fun _ => ?_⟩
    exact Descriptors.exists_lowest (Function.update_self ..) (h.bound fd hmem)

theorem Inv.handleRead (h : Inv s) (hp : s.place = .polling) (interrupted : Bool) :
    Inv (s.handleRead interrupted) := by
  have hholds := h.holds
  rw [Acceptor.handleRead]
  split
  · exact h
  · split
    · refine ⟨h.order, ?_⟩
      rw [fds, hp] at hholds
      exact hholds
    · exact h
    · next fd c pending hl hpending =>
      have horder : (s.served ++ [(c, some fd)]).map Prod.fst ++ pending = s.arrived := by
        rw [List.map_append, List.append_assoc, ← h.order, hpending]
        rfl
      split
      · refine ⟨horder, ?_⟩
        exact hholds.put_other FdOwner.noConfusion hl
      · refine ⟨?_, hholds⟩
        rw [List.map_append]
        rw [List.map_append] at horder
        exact horder

theorem Inv.next (h : Inv s) (hn : s.place ≠ .polling) (hd : s.place ≠ .destroyed) :
    ∃ s', s.next = .ok s' ∧ Inv s' := by
  have hholds := h.holds
  rw [Acceptor.next]
  cases hp : s.place with
  | polling => exact absurd hp hn
  | destroyed => exact absurd hp hd
  | refused =>
    rw [fds, hp] at hholds
    obtain ⟨table, hok, hclosed, _⟩ := closeIdle_spec hholds
    exact ⟨{ s with
      table
      place := .opened }, by simp only [hok, ok_bind]; rfl, h.order, hclosed⟩
  | accepted =>
    rw [fds, hp] at hholds
    obtain ⟨table, hok, hclosed, _⟩ := closeIdle_spec hholds
    exact ⟨{ s with
      table
      place := .dropped }, by simp only [hok, ok_bind]; rfl, h.order, hclosed⟩
  | opened =>
    rw [fds, hp] at hholds
    simp only
    split
    · next fd c pending hl hpending =>
      refine ⟨_, rfl, ?_, hholds.put hl⟩
      dsimp only
      rw [List.map_append, List.append_assoc, ← h.order, hpending]
      rfl
    · exact ⟨_, rfl, h.order, hholds⟩
    · exact ⟨_, rfl, h.order, hholds⟩
  | dropped =>
    rw [fds, hp] at hholds
    simp only
    split
    · next fd hl => exact ⟨_, rfl, h.order, hholds.put hl⟩
    · exact ⟨_, rfl, h.order, hholds⟩

theorem Inv.destroy (h : Inv s) (hp : s.place = .polling) :
    ∃ s', s.destroy = .ok s' ∧ Inv s' := by
  have hholds := h.holds
  rw [fds, hp] at hholds
  obtain ⟨table, hok, hclosed, _⟩ := closeIdle_spec hholds
  have hlisten : table.owner s.listenFd = some .acceptor :=
    (hclosed.owner s.listenFd).mpr (List.mem_singleton_self _)
  have hclosed' : table.Holds .acceptor ([] ++ [s.listenFd]) := hclosed
  refine ⟨{ s with
    table := { table with owner := Function.update table.owner s.listenFd none }
    place := .destroyed }, ?_, h.order, hclosed'.close⟩
  rw [Acceptor.destroy, hok, ok_bind, Descriptors.close_own hlisten]
  rfl

theorem step_spec (h : Inv s) {a : Step ι} (he : machine.enabled s a) :
    ∃ s', machine.step s a = .ok s' ∧ Inv s' := by
  cases a with
  | arrive c =>
    refine ⟨_, rfl, ?_, h.holds⟩
    dsimp only
    rw [← List.append_assoc, h.order]
  | setNewConnectionCallback => exact ⟨_, rfl, h.order, h.holds⟩
  | handleRead interrupted => exact ⟨_, rfl, h.handleRead he interrupted⟩
  | next => exact h.next he.1 he.2
  | destroy => exact h.destroy he
  | userOpen =>
    cases hl : s.table.lowest with
    | none => exact absurd hl he
    | some fd =>
      refine ⟨{ s with table := s.table.put fd .user }, ?_, h.order,
        h.holds.put_other FdOwner.noConfusion hl⟩
      simp only [machine, step, hl]
      rfl
  | userClose fd =>
    have hfd : s.table.owner fd = some .user := he
    refine ⟨{ s with table := { s.table with owner := Function.update s.table.owner fd none } },
      ?_, h.order, h.holds.close_other FdOwner.noConfusion hfd⟩
    simp only [machine, step, Descriptors.close_own hfd, ok_bind]
    rfl


theorem step_inv (s : Acceptor ι) (a : Step ι) (s' : Acceptor ι) (h : Inv s)
    (he : machine.enabled s a) (hok : machine.step s a = .ok s') : Inv s' := by
  obtain ⟨s'', hok', hi'⟩ := step_spec h he
  cases hok.symm.trans hok'
  exact hi'

/-- Nobody takes the descriptor that `handleRead()` has made free. -/
def Undisturbed (s : Acceptor ι) : Step ι → Prop
  | .userOpen => s.place ≠ .opened ∧ s.place ≠ .accepted ∧ s.place ≠ .dropped
  | .arrive _ | .setNewConnectionCallback | .handleRead _ | .next | .userClose _ | .destroy => True

instance undisturbedDecidable (s : Acceptor ι) : (a : Step ι) → Decidable (s.Undisturbed a)
  | .userOpen => inferInstanceAs
      (Decidable (s.place ≠ .opened ∧ s.place ≠ .accepted ∧ s.place ≠ .dropped))
  | .arrive _ | .setNewConnectionCallback | .handleRead _ | .next | .userClose _ | .destroy =>
      isTrue trivial

/-- There is a descriptor in reserve, or one is free for it. -/
def Reserved (s : Acceptor ι) : Prop :=
  match s.place with
  | .polling | .refused => s.idleFd.isSome = true
  | .opened | .dropped => ∃ fd, s.table.lowest = some fd
  | .accepted => s.idleFd.isSome = true ∨ ∃ fd, s.table.lowest = some fd
  | .destroyed => True

theorem Reserved.handleRead (h : s.Reserved) (hp : s.place = .polling) (interrupted : Bool) :
    (s.handleRead interrupted).Reserved := by
  rw [Reserved, hp] at h
  rw [Acceptor.handleRead]
  split
  · rw [Reserved, hp]
    exact h
  · split
    · exact h
    · rw [Reserved, hp]
      exact h
    · split
      · rw [Reserved, hp]
        exact h
      · rw [Reserved, hp]
        exact h

theorem Reserved.next (h : s.Reserved) (hi : Inv s) (hok : s.next = .ok s') : s'.Reserved := by
  have hholds := hi.holds
  rw [Acceptor.next] at hok
  cases hp : s.place with
  | polling =>
    simp only [hp] at hok
    cases hok
    exact h
  | destroyed =>
    simp only [hp] at hok
    cases hok
    exact h
  | refused =>
    rw [fds, hp] at hholds
    rw [Reserved, hp] at h
    obtain ⟨table, hclose, _, hroom⟩ := closeIdle_spec hholds
    simp only [hp, hclose, ok_bind] at hok
    cases hok
    exact hroom h
  | opened =>
    rw [Reserved, hp] at h
    simp only [hp] at hok
    split at hok
    · cases hok
      exact .inl rfl
    · next hl =>
      obtain ⟨fd, hfd⟩ := h
      rw [hl] at hfd
      cases hfd
    · cases hok
      exact .inr h
  | accepted =>
    rw [fds, hp] at hholds
    rw [Reserved, hp] at h
    obtain ⟨table, hclose, _, hroom⟩ := closeIdle_spec hholds
    simp only [hp, hclose, ok_bind] at hok
    cases hok
    rcases h with hsome | hfree
    · exact hroom hsome
    · cases hi : s.idleFd with
      | some fd => exact hroom (by rw [hi]; rfl)
      | none =>
        rw [closeIdle, hi] at hclose
        cases hclose
        exact hfree
  | dropped =>
    rw [Reserved, hp] at h
    obtain ⟨fd, hfd⟩ := h
    simp only [hp, hfd] at hok
    cases hok
    rfl

theorem Reserved.step (h : s.Reserved) (hi : Inv s) {a : Step ι} (he : machine.enabled s a)
    (hu : s.Undisturbed a) (hok : machine.step s a = .ok s') : s'.Reserved := by
  cases a with
  | arrive c =>
    cases hok
    exact h
  | setNewConnectionCallback =>
    cases hok
    exact h
  | handleRead interrupted =>
    cases hok
    exact h.handleRead he interrupted
  | next => exact h.next hi hok
  | destroy =>
    obtain ⟨table, _, hok⟩ := bind_ok.mp hok
    obtain ⟨table', _, hok⟩ := bind_ok.mp hok
    cases hok
    trivial
  | userOpen =>
    simp only [machine, Acceptor.step] at hok
    split at hok
    · cases hok
      rw [Reserved] at h ⊢
      cases hp : s.place with
      | opened => exact absurd hp hu.1
      | accepted => exact absurd hp hu.2.1
      | dropped => exact absurd hp hu.2.2
      | _ =>
        rw [hp] at h
        exact h
    · cases hok
      exact h
  | userClose fd =>
    have hfd : s.table.owner fd = some .user := he
    simp only [machine, Acceptor.step, Descriptors.close_own hfd, ok_bind] at hok
    cases hok
    rw [Reserved] at h ⊢
    cases hp : s.place with
    | opened =>
      rw [hp] at h
      obtain ⟨x, hx⟩ := h
      exact Descriptors.exists_lowest_close hx fd
    | dropped =>
      rw [hp] at h
      obtain ⟨x, hx⟩ := h
      exact Descriptors.exists_lowest_close hx fd
    | accepted =>
      rw [hp] at h
      refine h.imp_right ?_
      rintro ⟨x, hx⟩
      exact Descriptors.exists_lowest_close hx fd
    | _ =>
      rw [hp] at h
      exact h

/-- However the rest of the process opens and closes descriptors between its system calls, the
acceptor serves the connections in the order of their arrival, closes nothing that is not its
own, and has no descriptor beside `acceptSocket_` and `idleFd_`. Where nobody takes the
descriptor that it frees, it has one in reserve whenever it polls, and `accept()` finds room. -/
theorem reserve_kept {table : Descriptors FdOwner} (ht : ∀ fd, table.owner fd ≠ some .acceptor)
    {s₀ : Acceptor ι} (hnew : new table = .ok s₀) {as : List (Step ι)}
    (h : machine.Run s₀ as s) :
    s.served.map Prod.fst ++ s.pending = s.arrived ∧
    (∀ fd, s.table.owner fd = some .acceptor ↔ fd ∈ s.fds) ∧
    (∀ a, machine.enabled s a → ∃ s', machine.step s a = .ok s') ∧
    (machine.EveryStep s₀ as Undisturbed →
      (s.place = .polling → s.idleFd.isSome = true) ∧
      (s.place = .opened → ∃ fd, s.table.lowest = some fd)) := by
  obtain ⟨hinit, hpolling, hsome⟩ := new_inv ht hnew
  have hi := h.invariant step_inv hinit
  refine ⟨hi.order, hi.holds.owner, fun a he => ?_, fun hu => ?_⟩
  · obtain ⟨s', hok, _⟩ := step_spec hi he
    exact ⟨s', hok⟩
  · have hr : Inv s ∧ s.Reserved := by
      refine h.invariant_of_everyStep (I := fun s => Inv s ∧ s.Reserved) (K := Undisturbed)
        (fun s a s' hs he ha hok => ⟨step_inv s a s' hs.1 he hok, hs.2.step hs.1 he ha hok⟩) hu
        ⟨hinit, ?_⟩
      rw [Reserved, hpolling]
      exact hsome
    have hreserved := hr.2
    rw [Reserved] at hreserved
    constructor
    · intro hp
      rw [hp] at hreserved
      exact hreserved
    · intro hp
      rw [hp] at hreserved
      exact hreserved

/-- Standard input, output and error are open. -/
def standardTable (limit : Nat) : Descriptors FdOwner :=
  ⟨limit, fun fd => if fd < 3 then some .user else none⟩

/-- The second connection finds no descriptor, and is closed at once. -/
theorem reserve_kept_sample : ∃ s₀ s : Acceptor Nat, new (standardTable 6) = .ok s₀ ∧
    machine.Run s₀ [.setNewConnectionCallback, .arrive 10, .arrive 11, .handleRead false,
      .handleRead false, .next, .next, .next, .next] s ∧
    s.served.map Prod.fst ++ s.pending = s.arrived ∧ s.idleFd.isSome = true ∧
    s.served = [(10, some 5), (11, none)] := by
  obtain ⟨s₀, hnew⟩ : ∃ s₀ : Acceptor Nat, new (standardTable 6) = .ok s₀ := ⟨_, rfl⟩
  have ht : ∀ fd, (standardTable 6).owner fd ≠ some .acceptor := by
    intro fd
    rw [standardTable]
    dsimp only
    split <;> simp
  obtain ⟨s, hr, hs⟩ := (machine.restrict Undisturbed).exists_run s₀
    [.setNewConnectionCallback, .arrive 10, .arrive 11, .handleRead false, .handleRead false,
      .next, .next, .next, .next]
    (fun s => (s.served, s.place)) ([(10, some 5), (11, none)], .polling)
    (by cases hnew; decide +kernel)
  obtain ⟨hserved, hplace⟩ := Prod.mk.inj hs
  obtain ⟨hr, hu⟩ := Machine.run_restrict.mp hr
  obtain ⟨horder, _, _, hkept⟩ := reserve_kept ht hnew hr
  exact ⟨s₀, s, hnew, hr, horder, (hkept hu).1 hplace, hserved⟩

end Acceptor
end Muduo.Net
