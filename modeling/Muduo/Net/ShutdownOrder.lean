import Muduo.Net.SendersInvariant

/-! Whether `shutdownWrite` waits for the messages that were sent before `shutdown`. -/
namespace Muduo.Net.Senders
open Muduo.Support

variable {ι : Type} {s t : Senders ι} {i : Option ι}

/-- The steps that issue `shutdownWrite`, other than a queued `shutdownInLoop`. -/
def HalfCloses (s : Senders ι) : Step ι → Prop
  | .advance i _ => i = none ∧ s.callers none = .shutdownStored ∧ s.conn.channel.isWriting = false
  | .handleWrite w => s.conn.channel.isWriting = true ∧ s.conn.state = .kDisconnecting ∧
      w = .accepted s.conn.outputBuffer.readableBytes
  | .send .. | .shutdown _ | .doPendingFunctors | .runFunctor _ => False

/-- The step half-closes while the functor of an owed message waits in the queue. -/
def Overtakes (s : Senders ι) (a : Step ι) : Prop :=
  HalfCloses s a ∧ ∃ k ∈ s.owed, k ∈ waiting s.queue

theorem not_halfCloses {w : WriteResult} (hi : s.callers i ≠ .shutdownStored) :
    ¬ HalfCloses s (.advance i w) := by
  rintro ⟨rfl, hst, _⟩
  exact hi hst

/-- An owed message has been taken unless it waits. -/
theorem Inv.taken_iff (h : Inv s) {k : Nat} (hk : k ∈ s.owed) : k ∈ s.ids ↔ k ∉ waiting s.queue := by
  constructor
  · exact fun hi hw => (List.nodup_append.mp h.ordered.once).2.2 k hw k hi rfl
  · exact fun hw => (List.mem_append.mp (h.ordered.known k hk)).resolve_left hw

theorem Inv.called_of_caller (h : Inv s) (hi : ¬ (s.callers i).Sends) : s.called = true := by
  by_contra hno
  exact hi ((h.announced (Bool.eq_false_iff.mpr hno)).callers i)

theorem Inv.not_overtakes_iff (h : Inv s) {a : Step ι} :
    ¬ Overtakes s a ↔ (HalfCloses s a → ∀ k ∈ s.owed, k ∈ s.ids) := by
  constructor
  · exact fun hn hc k hk => (h.taken_iff hk).mpr fun hw => hn ⟨hc, k, hk, hw⟩
  · rintro hall ⟨hc, k, hk, hw⟩
    exact (h.taken_iff hk).mp (hall hc k hk) hw

theorem Inv.called_of_queue (h : Inv s) (hq : .functor .shutdownInLoop ∈ s.queue) :
    s.called = true := by
  by_contra hno
  exact (h.announced (Bool.eq_false_iff.mpr hno)).queue hq

/-- What a step does: the invariant stays, and the promise is kept unless it overtakes. -/
def Good (s : Senders ι) (a : Step ι) (t : Senders ι) : Prop :=
  Inv t ∧ (Complete s → (Complete t ↔ ¬ Overtakes s a))

/-- A step that neither writes nor closes. -/
theorem good_of_same {a : Step ι} (ht : Inv t) (ha : ¬ HalfCloses s a)
    (hc : Complete s → Complete t) : Good s a t :=
  ⟨ht, fun h => iff_of_true (hc h) fun ho => ha ho.1⟩

theorem queue_store (c : TcpConnection) :
    (s.store c).queue = s.queue ++ c.queued.map .functor := by
  simp [queue, store]

theorem mem_of_callbacks {q : List Pending} {fs : List Functor} (hfs : ∀ f ∈ fs, f.callsUser)
    (h : .functor .shutdownInLoop ∈ q ++ fs.map Pending.functor) : .functor .shutdownInLoop ∈ q := by
  rcases List.mem_append.mp h with h | h
  · exact h
  · obtain ⟨f, hf, he⟩ := List.mem_map.mp h
    cases he
    exact (hfs _ hf).elim

theorem waiting_callbacks (q : List Pending) (fs : List Functor) :
    waiting (q ++ fs.map Pending.functor) = waiting q := by
  have hnone : (fs.map Pending.functor).filterMap Pending.id? = [] := by
    rw [List.filterMap_map]
    exact List.filterMap_eq_nil_iff.mpr fun _ _ => rfl
  rw [waiting, List.filterMap_append, hnone, List.append_nil, waiting]

theorem queue_took (c : TcpConnection) (x : Taken) :
    (s.took c x).queue = s.queue ++ c.queued.map .functor := by
  simp [queue, took, store]

theorem ids_took (c : TcpConnection) (x : Taken) : (s.took c x).ids = s.ids ++ [x.id] :=
  List.map_append

/-- `sendInLoop` has run, from the queue or at once. -/
theorem Inv.took (h : Inv s) {r : Senders ι} {c' : TcpConnection} {id : Nat} {msg : Message}
    (hm : Moves s.conn c' msg.bytes False) (hconn : r.conn = s.conn) (htaken : r.taken = s.taken)
    (hcalled : r.called = s.called)
    (hordered : Ordered r.queue (s.ids ++ [id]) r.owed r.nextId)
    (hsent : ∀ i k, r.callers i = .sent k → k ∈ waiting r.queue ++ (s.ids ++ [id]))
    (hqueue : .functor .shutdownInLoop ∈ r.queue → .functor .shutdownInLoop ∈ s.queue)
    (hcallers : ∀ i, (s.callers i).Sends → (r.callers i).Sends) :
    Inv (r.took c' ⟨id, msg,
      r.conn.socket.accepted.length + r.conn.outputBuffer.readable.length⟩) := by
  have hids : r.ids = s.ids := by rw [ids, htaken, ids]
  refine h.move (t := r.took c' _) hm False.elim ?_ rfl
    (congrArg (· ++ _) htaken) ?_ ?_ hcalled ?_ hcallers
  · refine List.forall_mem_singleton.mpr ⟨output s.conn, [], (List.append_nil _).symm, ?_⟩
    rw [hconn, output, List.length_append]
  · rw [queue_took, ids_took, hids]
    exact hordered.push_callbacks hm.queued
  · rw [queue_took, ids_took, hids, waiting_callbacks]
    exact hsent
  · rw [queue_took]
    exact fun hq => hqueue (mem_of_callbacks hm.queued hq)

theorem runFunctor_callback {c : TcpConnection} {f : Functor} (hf : f.callsUser)
    (w : WriteResult) : c.runFunctor w f = .ok c := by
  cases f <;> first | rfl | exact hf.elim

variable [DecidableEq ι]

theorem Inv.goto (h : Inv s) {pc : Progress} (hpc : s.called = false → pc.Sends)
    (hsent : ∀ k, pc = .sent k → k ∈ waiting s.queue ++ s.ids) : Inv (s.goto i pc) where
  flowing := h.flowing
  ordered := h.ordered
  sent j k hj := by
    by_cases hji : j = i
    · subst hji
      simp only [Senders.goto, Function.update_self] at hj
      exact hsent k hj
    · simp only [Senders.goto, Function.update_of_ne hji] at hj
      exact h.sent j k hj
  announced hno := by
    have hu := h.announced hno
    refine ⟨hu.state, hu.queue, hu.closed, fun j => ?_⟩
    by_cases hji : j = i
    · subst hji
      simpa only [Senders.goto, Function.update_self] using hpc hno
    · simpa only [Senders.goto, Function.update_of_ne hji] using hu.callers j

theorem step_send (h : Inv s) (msg : Message)
    (hs : machine.step s (.send i msg) = .ok t) : Good s (.send i msg) t := by
  simp only [machine] at hs
  split at hs
  · cases hs
    exact good_of_same (h.goto (fun _ => trivial) fun k hk => Progress.noConfusion hk) id id
  · cases hs
    exact good_of_same h id id

theorem step_shutdown (h : Inv s) (hs : machine.step s (.shutdown i) = .ok t) :
    Good s (.shutdown i) t := by
  cases hs
  have hc : Inv { s with called := true } :=
    ⟨h.flowing, h.ordered, h.sent, fun hno => Bool.noConfusion hno⟩
  exact good_of_same (hc.goto (fun hno => Bool.noConfusion hno) fun k hk => Progress.noConfusion hk)
    id id

theorem step_doPendingFunctors (h : Inv s) (he : machine.enabled s (.doPendingFunctors))
    (hs : machine.step s .doPendingFunctors = .ok t) : Good s .doPendingFunctors t := by
  cases hs
  have hq : queue { s with functors := s.pendingFunctors, pendingFunctors := [] } = s.queue := by
    simp [queue, he.2]
  refine good_of_same ⟨h.flowing, ?_, ?_, fun hno => ?_⟩ id id
  · rw [hq]
    exact h.ordered
  · rw [hq]
    exact h.sent
  · have hu := h.announced hno
    exact ⟨hu.state, by rw [hq]; exact hu.queue, hu.closed, hu.callers⟩

theorem step_handleWrite (h : Inv s) {w : WriteResult} (he : machine.enabled s (.handleWrite w))
    (hs : machine.step s (.handleWrite w) = .ok t) : Good s (.handleWrite w) t := by
  obtain ⟨c', hok, hm⟩ := h.flowing.handleWrite he.2.2
  simp only [machine, hok, ok_bind] at hs
  cases hs
  have hcloses : HalfCloses s (.handleWrite w) → s.called = true := by
    intro hc
    by_contra hno
    have hst := (h.announced (Bool.eq_false_iff.mpr hno)).state
    rw [hc.2.1] at hst
    cases hst
  have ht : Inv (s.store c') := by
    refine h.move (t := s.store c') hm hcloses (List.forall_mem_nil _) rfl
      (List.append_nil _).symm ?_ ?_ rfl ?_ fun _ => id
    · rw [queue_store]
      exact h.ordered.push_callbacks hm.queued
    · rw [queue_store, waiting_callbacks]
      exact h.sent
    · rw [queue_store]
      exact mem_of_callbacks hm.queued
  refine ⟨ht, fun hc => ?_⟩
  rw [complete_move hc ht.flowing hm rfl ⟨[], (List.append_nil _).symm⟩ rfl, h.not_overtakes_iff]
  rfl

/-- The next functor of the batch, in order. -/
theorem step_runFunctor (h : Inv s) {w : WriteResult} (he : machine.enabled s (.runFunctor w))
    (hs : machine.step s (.runFunctor w) = .ok t) : Good s (.runFunctor w) t := by
  obtain ⟨_, hne, hw⟩ := he
  replace hs : s.runFunctor w = .ok t := hs
  unfold runFunctor at hs
  split at hs
  · next hf => exact absurd hf hne
  · next k msg ts hf =>
    obtain ⟨c', hok, hm⟩ := h.flowing.sendInLoop msg (hw (.sendInLoop k msg) (by rw [hf]; rfl))
    simp only [Senders.sendInLoop, hok, ok_bind] at hs
    obtain rfl := Except.ok.inj hs
    have hq : s.queue = .sendInLoop k msg :: queue { s with functors := ts } := by
      rw [queue, hf]
      rfl
    have hordered := h.ordered
    rw [hq] at hordered
    have ht := h.took (r := { s with functors := ts }) hm rfl rfl rfl hordered.pop_send ?_ ?_
      fun _ => id
    · exact good_of_same ht id fun hc =>
        (complete_move hc ht.flowing hm rfl ⟨_, rfl⟩ rfl).mpr False.elim
    · intro j id hj
      have hin := h.sent j id hj
      rw [hq] at hin
      exact (Ordered.perm_pop_send _ _ k msg).mem_iff.mpr hin
    · rw [hq]
      exact List.mem_cons_of_mem _
  · next f ts hf =>
    obtain ⟨c', hok, hs⟩ := bind_ok.mp hs
    obtain rfl := Except.ok.inj hs
    have hq : s.queue = .functor f :: queue { s with functors := ts } := by
      rw [queue, hf]
      rfl
    have hordered := h.ordered
    rw [hq] at hordered
    have htasks := hordered.tasks f List.mem_cons_self
    obtain ⟨closes, hm, hcloses⟩ : ∃ closes, Moves s.conn c' [] closes ∧
        (closes → s.called = true ∧ ∀ k ∈ s.owed, k ∈ s.ids) := by
      rcases htasks with huser | rfl
      · rw [runFunctor_callback huser] at hok
        cases hok
        exact ⟨False, h.flowing.idle, False.elim⟩
      · cases hok
        refine ⟨_, h.flowing.shutdownInLoop, fun _ => ⟨h.called_of_queue ?_, ?_⟩⟩
        · rw [hq]
          exact List.mem_cons_self
        · exact hordered.taken_of_shutdown
    have ht : Inv ({ s with functors := ts }.store c') := by
      refine h.move (t := { s with functors := ts }.store c') hm (fun hc => (hcloses hc).1)
        (List.forall_mem_nil _) rfl (List.append_nil _).symm ?_ ?_ rfl ?_ fun _ => id
      · rw [queue_store]
        exact hordered.pop_functor.push_callbacks hm.queued
      · intro j id hj
        have hin := h.sent j id hj
        rw [hq] at hin
        rwa [queue_store, waiting_callbacks]
      · rw [queue_store, hq]
        exact fun hin => List.mem_cons_of_mem _ (mem_of_callbacks hm.queued hin)
    exact good_of_same ht id fun hc =>
      (complete_move hc ht.flowing hm rfl ⟨[], (List.append_nil _).symm⟩ rfl).mpr
        fun hcl => (hcloses hcl).2

theorem sends_goto {pc : Progress} (hpc : pc.Sends) (j : Option ι) (hj : (s.callers j).Sends) :
    (Function.update s.callers i pc j).Sends := by
  by_cases hji : j = i
  · subst hji
    rwa [Function.update_self]
  · rwa [Function.update_of_ne hji]

theorem sent_goto (h : Inv s) {n : Nat} {l : List Nat} (hn : n ∈ l)
    (hl : ∀ k ∈ waiting s.queue ++ s.ids, k ∈ l) (j : Option ι) (k : Nat)
    (hj : Function.update s.callers i (.sent n) j = .sent k) : k ∈ l := by
  by_cases hji : j = i
  · subst hji
    rw [Function.update_self] at hj
    cases hj
    exact hn
  · rw [Function.update_of_ne hji] at hj
    exact hl k (h.sent j k hj)

/-- The message of a `send` gets the next number, and is taken or queued. -/
theorem advance_sending (h : Inv s) {w : WriteResult} {msg : Message}
    (hi : s.callers i = .sending msg) (hw : Succeeds w msg.len)
    (hs : s.advance i w = .ok t) : Good s (.advance i w) t := by
  have hno : ¬ HalfCloses s (.advance i w) := not_halfCloses (by simp [hi])
  simp only [advance, hi] at hs
  split at hs
  · obtain ⟨c', hok, hm⟩ := h.flowing.sendInLoop msg hw
    simp only [Senders.sendInLoop, goto, hok, ok_bind] at hs
    obtain rfl := Except.ok.inj hs
    have ht := h.took (r := { s with nextId := s.nextId + 1 }.goto i (.sent s.nextId)) hm rfl rfl rfl
      h.ordered.take (sent_goto h ?_ ?_) id (sends_goto (by trivial))
    · exact good_of_same ht hno fun hc =>
        (complete_move hc ht.flowing hm rfl ⟨_, rfl⟩ rfl).mpr False.elim
    · simp
    · intro k hk
      rw [← List.append_assoc]
      exact List.mem_append_left _ hk
  · cases hs
    have hq : queue (({ s with nextId := s.nextId + 1 }.goto i (.sent s.nextId)).queueInLoop
        (.sendInLoop s.nextId msg)) = s.queue ++ [.sendInLoop s.nextId msg] := by
      simp [queue, goto, queueInLoop]
    have hw : waiting (s.queue ++ [.sendInLoop s.nextId msg]) = waiting s.queue ++ [s.nextId] := by
      simp [waiting, Pending.id?]
    refine good_of_same ⟨h.flowing, ?_, ?_, fun hnc => ?_⟩ hno id
    · rw [hq]
      exact h.ordered.push_send msg
    · rw [hq, hw]
      apply sent_goto h (by simp)
      intro k hk
      rcases List.mem_append.mp hk with hk | hk
      · exact List.mem_append_left _ (List.mem_append_left _ hk)
      · exact List.mem_append_right _ hk
    · have hu := h.announced hnc
      refine ⟨hu.state, ?_, hu.closed, fun j => sends_goto (by trivial) j (hu.callers j)⟩
      rw [hq]
      simpa using hu.queue

/-- `send` returns: its message is owed unless `shutdown` has been called. -/
theorem advance_sent (h : Inv s) {w : WriteResult} {k : Nat} (hi : s.callers i = .sent k)
    (hs : s.advance i w = .ok t) : Good s (.advance i w) t := by
  have hno : ¬ HalfCloses s (.advance i w) := not_halfCloses (by simp [hi])
  simp only [advance, hi] at hs
  obtain rfl := Except.ok.inj hs
  have hr : Inv { s with owed := if s.called then s.owed else s.owed ++ [k] } := by
    refine ⟨h.flowing, ?_, h.sent, fun hnc => ?_⟩
    · cases hc : s.called with
      | true => exact h.ordered
      | false => exact h.ordered.owe (h.announced hc).queue (h.sent i k hi)
    · have hu := h.announced hnc
      exact ⟨hu.state, hu.queue, hu.closed, hu.callers⟩
  refine good_of_same (hr.goto (fun _ => trivial) fun j hj => Progress.noConfusion hj) hno ?_
  intro hp hshut j hj
  cases hc : s.called with
  | true =>
    simp only [goto, hc, if_true] at hj
    exact hp hshut j hj
  | false => exact absurd (h.announced hc).closed hshut

/-- `shutdownInLoop` runs at once in the loop thread, and is queued by any other. -/
theorem advance_shutdownStored (h : Inv s) {w : WriteResult} (hpc : s.callers i = .shutdownStored)
    (hcalled : s.called = true) (hs : s.advance i w = .ok t) : Good s (.advance i w) t := by
  have hr : Inv (s.goto i .idle) := h.goto (fun _ => trivial) fun k hk => Progress.noConfusion hk
  simp only [advance, hpc] at hs
  split at hs
  · next hi =>
    subst hi
    obtain rfl := Except.ok.inj hs
    have hm := hr.flowing.shutdownInLoop
    have ht : Inv ((s.goto none .idle).store s.conn.shutdownInLoop) := by
      refine hr.move (t := (s.goto none .idle).store s.conn.shutdownInLoop) hm (fun _ => hcalled)
        (List.forall_mem_nil _) rfl (List.append_nil _).symm ?_ ?_ rfl ?_ fun _ => id
      · rw [queue_store]
        exact hr.ordered.push_callbacks hm.queued
      · rw [queue_store, waiting_callbacks]
        exact hr.sent
      · rw [queue_store]
        exact mem_of_callbacks hm.queued
    refine ⟨ht, fun hp => ?_⟩
    have hcomplete := complete_move (t := (s.goto none .idle).store s.conn.shutdownInLoop) hp
      ht.flowing hm rfl ⟨[], (List.append_nil _).symm⟩ rfl
    refine hcomplete.trans ?_
    rw [h.not_overtakes_iff]
    simp only [HalfCloses, hpc, true_and]
    rfl
  · next hi =>
    obtain rfl := Except.ok.inj hs
    have hno : ¬ HalfCloses s (.advance i w) := fun hc => hi hc.1
    have hq : queue ((s.goto i .idle).queueInLoop (.functor .shutdownInLoop)) =
        s.queue ++ [.functor .shutdownInLoop] := by
      simp [queue, goto, queueInLoop]
    have hw : waiting (s.queue ++ [.functor .shutdownInLoop]) = waiting s.queue :=
      waiting_callbacks s.queue [.shutdownInLoop]
    refine good_of_same ⟨hr.flowing, ?_, ?_, fun hnc => Bool.noConfusion (hcalled.symm.trans hnc)⟩ hno id
    · rw [hq]
      exact hr.ordered.push_functor (.inr rfl)
    · rw [hq, hw]
      exact hr.sent

theorem advance_shutdownCalled (h : Inv s) {w : WriteResult} (hpc : s.callers i = .shutdownCalled)
    (hcalled : s.called = true) (hs : s.advance i w = .ok t) : Good s (.advance i w) t := by
  simp only [advance, hpc] at hs
  obtain rfl := Except.ok.inj hs
  refine good_of_same (h.goto (fun hnc => Bool.noConfusion (hcalled.symm.trans hnc)) ?_)
    (not_halfCloses (by simp [hpc])) id
  intro k hk
  split at hk <;> cases hk

theorem advance_shutdownChecked (h : Inv s) {w : WriteResult}
    (hpc : s.callers i = .shutdownChecked) (hcalled : s.called = true)
    (hs : s.advance i w = .ok t) : Good s (.advance i w) t := by
  simp only [advance, hpc] at hs
  obtain rfl := Except.ok.inj hs
  have hr : Inv { s with conn := s.conn.setState .kDisconnecting } := by
    refine ⟨?_, h.ordered, h.sent, fun hnc => Bool.noConfusion (hcalled.symm.trans hnc)⟩
    have hf := h.flowing
    exact ⟨hf.buffer, StateE.noConfusion, hf.interest, hf.queued, hf.placed⟩
  exact good_of_same (hr.goto (fun hnc => Bool.noConfusion (hcalled.symm.trans hnc))
    fun k hk => Progress.noConfusion hk) (not_halfCloses (by simp [hpc])) id

/-- A step keeps the invariant, and what was complete stays so unless it overtakes. -/
theorem step_good (h : Inv s) {a : Step ι} (he : machine.enabled s a)
    (hs : machine.step s a = .ok t) : Good s a t := by
  cases a with
  | send i msg => exact step_send h msg hs
  | shutdown i => exact step_shutdown h hs
  | advance i w =>
    cases hpc : s.callers i with
    | idle => exact absurd hpc he.1
    | sending msg =>
      have hw := he.2
      rw [hpc] at hw
      exact advance_sending h hpc hw hs
    | sent k => exact advance_sent h hpc hs
    | shutdownCalled =>
      exact advance_shutdownCalled h hpc (h.called_of_caller (i := i) (by simp [hpc, Progress.Sends])) hs
    | shutdownChecked =>
      exact advance_shutdownChecked h hpc (h.called_of_caller (i := i) (by simp [hpc, Progress.Sends])) hs
    | shutdownStored =>
      exact advance_shutdownStored h hpc (h.called_of_caller (i := i) (by simp [hpc, Progress.Sends])) hs
  | doPendingFunctors => exact step_doPendingFunctors h he hs
  | runFunctor w => exact step_runFunctor h he hs
  | handleWrite w => exact step_handleWrite h he hs

/-- Every message that is owed has been handed to `write` before any `shutdownWrite`, in
every state of a run, exactly when no step of the run overtakes one that is queued. -/
theorem shutdown_waits_iff {writeComplete highWater : Bool} {mark : Nat} {c : TcpConnection}
    (hc : (TcpConnection.new writeComplete highWater mark).connectEstablished = .ok c)
    (steps : List (Step ι)) (h : machine.Run (start c) steps t) :
    machine.Throughout (start c) steps Complete ↔
      machine.EveryStep (start c) steps fun s a => ¬ Overtakes s a := by
  apply h.throughout_iff (I := Inv)
  · intro s a t hi hp he hs
    obtain ⟨ht, hk⟩ := step_good hi he hs
    exact ⟨ht, hk hp⟩
  · exact start_inv hc
  · cases hc
    exact fun hshut => absurd rfl hshut

instance succeedsDecidable (w : WriteResult) (len : Nat) : Decidable (Succeeds w len) :=
  match w with
  | .accepted n => decidable_of_iff (n ≤ len) (by simp [Succeeds])
  | .failed _ => isFalse fun ⟨_, h, _⟩ => WriteResult.noConfusion h

instance idleDecidable (c : Progress) : Decidable (c = .idle) := by
  cases c <;> first | exact isTrue rfl | exact isFalse Progress.noConfusion

instance storedDecidable (c : Progress) : Decidable (c = .shutdownStored) := by
  cases c <;> first | exact isTrue rfl | exact isFalse Progress.noConfusion

instance enabledDecidable (s : Senders ι) (a : Step ι) : Decidable (machine.enabled s a) := by
  cases a <;> unfold machine <;> infer_instance

instance halfClosesDecidable (s : Senders ι) (a : Step ι) : Decidable (HalfCloses s a) := by
  cases a <;> unfold HalfCloses <;> infer_instance

instance overtakesDecidable (s : Senders ι) (a : Step ι) : Decidable (Overtakes s a) :=
  inferInstanceAs (Decidable (HalfCloses s a ∧ ∃ k ∈ s.owed, k ∈ waiting s.queue))

/-- A message of another thread is sent, and then the loop thread shuts down. -/
def politeSteps : List (Step Unit) :=
  [.send (some ()) ⟨OutputStream.sampleMemory, 0, 2⟩, .advance (some ()) (.accepted 0),
    .advance (some ()) (.accepted 0), .doPendingFunctors, .runFunctor (.accepted 2),
    .shutdown none, .advance none (.accepted 0), .advance none (.accepted 0),
    .advance none (.accepted 0)]

theorem shutdown_waits_sample : ∃ c, (TcpConnection.new).connectEstablished = .ok c ∧
    ∃ t, machine.Run (start c) politeSteps t ∧
      t.conn.socket.shutdownWrites ≠ [] ∧ machine.Throughout (start c) politeSteps Complete := by
  have h : ∀ c, (TcpConnection.new).connectEstablished = .ok c →
      ∃ t, (machine.restrict fun s a => ¬ Overtakes s a).Run (start c) politeSteps t ∧
        t.conn.socket.shutdownWrites ≠ [] := by
    rintro _ ⟨⟩
    exact ⟨_, Machine.run_of_exec rfl, List.cons_ne_nil _ _⟩
  obtain ⟨t, h, hshut⟩ := h _ rfl
  obtain ⟨hr, hk⟩ := Machine.run_restrict.mp h
  exact ⟨_, rfl, t, hr, hshut, (shutdown_waits_iff rfl _ hr).mpr hk⟩

/-- The same calls, with the loop thread in `shutdown` before it runs its functors. -/
theorem shutdown_overtakes : ∃ c, (TcpConnection.new).connectEstablished = .ok c ∧
    ∃ t, machine.Run (start c) [.send (some ()) ⟨OutputStream.sampleMemory, 0, 2⟩,
      .advance (some ()) (.accepted 0), .advance (some ()) (.accepted 0), .shutdown none,
      .advance none (.accepted 0), .advance none (.accepted 0), .advance none (.accepted 0)] t ∧
      ¬ Complete t := by
  refine ⟨_, rfl, _, Machine.run_of_exec rfl, fun h => ?_⟩
  obtain ⟨x, hx, _⟩ := h (List.cons_ne_nil _ _) 0 (List.mem_singleton.mpr rfl)
  cases hx

end Muduo.Net.Senders
