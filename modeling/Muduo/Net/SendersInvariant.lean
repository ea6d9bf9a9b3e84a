import Muduo.Net.Senders

/-! Where the messages of the senders are: in the functor queue, or taken by `sendInLoop` and
then in what the connection has written or holds. -/
namespace Muduo.Net.Senders
open Muduo.Support

/-- The message is the part of `b` behind its offset. -/
def Taken.At (t : Taken) (b : Bytes) : Prop :=
  ∃ pre post, b = pre ++ t.msg.bytes ++ post ∧ pre.length = t.offset

theorem Taken.At.append {t : Taken} {b : Bytes} (h : t.At b) (rest : Bytes) : t.At (b ++ rest) := by
  obtain ⟨pre, post, rfl, hpre⟩ := h
  exact ⟨pre, post ++ rest, by rw [List.append_assoc], hpre⟩

/-- All bytes that the connection has written or still holds. -/
def output (c : TcpConnection) : Bytes := c.socket.accepted ++ c.outputBuffer.readable

/-- The output side of a connection that is up, and the messages it has taken. -/
structure Flowing (c : TcpConnection) (taken : List Taken) : Prop where
  buffer : c.outputBuffer.Inv
  live : c.state ≠ .kDisconnected
  interest : c.channel.writing = true ↔ c.outputBuffer.readable ≠ []
  queued : c.queued = []
  placed : ∀ t ∈ taken, t.At (output c)

/-- What a call in the loop thread does to the output: `b` is added behind it, and the
connection half-closes if `closes`. -/
structure Moves (c c' : TcpConnection) (b : Bytes) (closes : Prop) : Prop where
  buffer : c'.outputBuffer.Inv
  state : c'.state = c.state
  interest : c'.channel.writing = true ↔ c'.outputBuffer.readable ≠ []
  queued : ∀ f ∈ c'.queued, f.callsUser
  output : output c' = output c ++ b
  accepted : ∃ x, c'.socket.accepted = c.socket.accepted ++ x
  closing : closes ∧ c'.outputBuffer.readable = [] ∧ c'.socket.shutdownWrites ≠ [] ∨
    ¬ closes ∧ c'.socket.shutdownWrites = c.socket.shutdownWrites

variable {c c' : TcpConnection} {taken : List Taken}

theorem Flowing.idle (h : Flowing c taken) : Moves c c [] False where
  buffer := h.buffer
  state := rfl
  interest := h.interest
  queued f hf := by
    rw [h.queued] at hf
    cases hf
  output := (List.append_nil _).symm
  accepted := ⟨[], (List.append_nil _).symm⟩
  closing := .inr ⟨id, rfl⟩

theorem Flowing.sendInLoop (h : Flowing c taken) (msg : Message) {w : WriteResult}
    (hw : Succeeds w msg.len) :
    ∃ c', c.sendInLoop msg.m msg.data msg.len w = .ok c' ∧ Moves c c' msg.bytes False := by
  obtain ⟨n, rfl, hn⟩ := hw
  have hwithin : (WriteResult.accepted n).Within 0 msg.len := by
    intro k hk
    cases hk
    exact ⟨Nat.zero_le n, hn⟩
  obtain ⟨c', hok, hs⟩ := TcpConnection.sendInLoop_spec h.buffer msg.m msg.data msg.len hwithin
  refine ⟨c', hok, hs.inv, hs.state, ?_, ?_, ?_, ⟨_, hs.accepted⟩, .inr ⟨id, hs.shutdownWrites⟩⟩
  · rw [hs.writing, hs.readable, Bool.or_eq_true, h.interest]
    cases (c.transfer msg.m msg.data msg.len (.accepted n)).2 <;> simp
  · intro f hf
    obtain ⟨fs, hq, hfs⟩ := hs.queued
    rw [hq, h.queued, List.nil_append] at hf
    exact hfs f hf
  · have he : OutputStream.enabled ⟨c, []⟩ (.sendInLoop msg.m msg.data msg.len (.accepted n)) :=
      ⟨hwithin, fun e hf => WriteResult.noConfusion hf⟩
    have hall : (c.transfer msg.m msg.data msg.len (.accepted n)).1 ++
        (c.transfer msg.m msg.data msg.len (.accepted n)).2 = msg.bytes := by
      refine (OutputStream.transfer_eq_iff (s := ⟨c, []⟩) h.live he).mpr ?_
      rintro ⟨_, ⟨e, hf⟩, _⟩
      cases hf
    rw [← hall]
    exact OutputStream.send_output (s := ⟨c, []⟩) h.buffer msg.m msg.data msg.len _ hs

theorem Flowing.shutdownInLoop (h : Flowing c taken) :
    Moves c c.shutdownInLoop [] (c.channel.isWriting = false) := by
  have hm := h.idle
  cases hw : c.channel.isWriting with
  | true =>
    have he : c.shutdownInLoop = { c with shutdownInLoopRuns := c.shutdownInLoopRuns + 1 } := by
      simp [TcpConnection.shutdownInLoop, hw]
    rw [he]
    exact ⟨hm.buffer, rfl, hm.interest, hm.queued, hm.output, hm.accepted, .inr ⟨by simp, rfl⟩⟩
  | false =>
    have he : c.shutdownInLoop =
        { c with shutdownInLoopRuns := c.shutdownInLoopRuns + 1 }.shutdownWrite := by
      simp [TcpConnection.shutdownInLoop, hw]
    have hempty : c.outputBuffer.readable = [] := by
      by_contra hne
      have hwriting : c.channel.isWriting = true := h.interest.mpr hne
      rw [hw] at hwriting
      cases hwriting
    rw [he]
    exact ⟨hm.buffer, rfl, hm.interest, hm.queued, hm.output, hm.accepted,
      .inl ⟨rfl, hempty, by simp [TcpConnection.shutdownWrite]⟩⟩

/-- A writable event: the connection closes when the write empties the buffer after
`shutdown` has stored its state. -/
theorem Flowing.handleWrite (h : Flowing c taken) {w : WriteResult}
    (hw : Succeeds w c.outputBuffer.readableBytes) :
    ∃ c', c.handleWrite w = .ok c' ∧ Moves c c' []
      (c.channel.isWriting = true ∧ c.state = .kDisconnecting ∧
        w = .accepted c.outputBuffer.readableBytes) := by
  obtain ⟨n, rfl, hn⟩ := hw
  have hm := h.idle
  cases hwr : c.channel.isWriting with
  | false =>
    exact ⟨c, TcpConnection.handleWrite_idle hwr _, hm.buffer, rfl, hm.interest, hm.queued,
      hm.output, hm.accepted, .inr ⟨by simp, rfl⟩⟩
  | true =>
    have hne : c.outputBuffer.readableBytes ≠ 0 := by
      rw [ne_eq, ← Buffer.readable_eq_nil h.buffer]
      exact h.interest.mp hwr
    by_cases hz : n = 0
    · subst hz
      have hok : c.handleWrite (.accepted 0) = .ok (c.written []) := by
        simp [TcpConnection.handleWrite, hwr, TcpConnection.handleWritten, pure, Except.pure]
      refine ⟨_, hok, hm.buffer, rfl, hm.interest, hm.queued, ?_, ⟨[], rfl⟩, .inr ⟨?_, rfl⟩⟩
      · simp [output, TcpConnection.written]
      · rintro ⟨_, _, he⟩
        exact hne (WriteResult.accepted.inj he).symm
    · obtain ⟨c', hok, hd⟩ := TcpConnection.handleWrite_spec h.buffer hwr (Nat.pos_of_ne_zero hz) hn
      have hdone : c'.outputBuffer.readable = [] ↔ n = c.outputBuffer.readableBytes := by
        rw [hd.readable, List.drop_eq_nil_iff, Buffer.readable_length h.buffer]
        omega
      refine ⟨c', hok, hd.inv, hd.state, hd.writing, ?_, ?_, ⟨_, hd.accepted⟩, ?_⟩
      · intro f hf
        obtain ⟨fs, hq, hfs⟩ := hd.queued
        rw [hq, h.queued, List.nil_append] at hf
        exact hfs f hf
      · rw [output, hd.accepted, hd.readable, List.append_assoc, List.take_append_drop, output,
          List.append_nil]
      · rcases hd.closes with ⟨hempty, hs, hsw, _⟩ | ⟨hopen, hsw, _⟩
        · exact .inl ⟨⟨rfl, hs, by rw [hdone.mp hempty]⟩, hempty, by simp [hsw]⟩
        · refine .inr ⟨?_, hsw⟩
          rintro ⟨_, hs, he⟩
          have hempty := hdone.mpr (WriteResult.accepted.inj he)
          exact hopen.elim (fun hx => hx hempty) (fun hx => hx hs)

theorem Flowing.move {b : Bytes} {closes : Prop} {new : List Taken} (h : Flowing c taken)
    (hm : Moves c c' b closes) (hnew : ∀ t ∈ new, t.At (output c ++ b)) :
    Flowing { c' with queued := [] } (taken ++ new) where
  buffer := hm.buffer
  live := by rw [hm.state]; exact h.live
  interest := hm.interest
  queued := rfl
  placed t ht := by
    have hout : output { c' with queued := [] } = output c ++ b := hm.output
    rw [hout]
    rcases List.mem_append.mp ht with ht | ht
    · exact (h.placed t ht).append b
    · exact hnew t ht

def waiting (q : List Pending) : List Nat := q.filterMap Pending.id?

/-- The queue in order: behind a `shutdownInLoop` there is no message that is owed, and each
message that came in is in one place. -/
structure Ordered (q : List Pending) (taken owed : List Nat) (nextId : Nat) : Prop where
  tasks : ∀ f, .functor f ∈ q → f.callsUser ∨ f = .shutdownInLoop
  fifo : q.Pairwise fun a b => a = .functor .shutdownInLoop → ∀ k ∈ b.id?, k ∉ owed
  once : (waiting q ++ taken).Nodup
  known : ∀ k ∈ owed, k ∈ waiting q ++ taken
  fresh : ∀ k ∈ waiting q ++ taken, k < nextId

namespace Ordered
variable {q q' : List Pending} {ids ids' owed : List Nat} {n id : Nat} {msg : Message} {f : Functor}

theorem not_owed (h : Ordered q ids owed n) : n ∉ owed :=
  fun hn => Nat.lt_irrefl _ (h.fresh n (h.known n hn))

/-- The same messages, in other places. -/
theorem rearrange (h : Ordered q ids owed n)
    (tasks : ∀ f, .functor f ∈ q' → f.callsUser ∨ f = .shutdownInLoop)
    (fifo : q'.Pairwise fun a b => a = .functor .shutdownInLoop → ∀ k ∈ b.id?, k ∉ owed)
    (hp : (waiting q' ++ ids').Perm (waiting q ++ ids)) : Ordered q' ids' owed n where
  tasks := tasks
  fifo := fifo
  once := hp.nodup_iff.mpr h.once
  known k hk := hp.mem_iff.mpr (h.known k hk)
  fresh k hk := h.fresh k (hp.mem_iff.mp hk)

/-- One more message, which has the next number. -/
theorem arrive (h : Ordered q ids owed n)
    (tasks : ∀ f, .functor f ∈ q' → f.callsUser ∨ f = .shutdownInLoop)
    (fifo : q'.Pairwise fun a b => a = .functor .shutdownInLoop → ∀ k ∈ b.id?, k ∉ owed)
    (hp : (waiting q' ++ ids').Perm (n :: (waiting q ++ ids))) : Ordered q' ids' owed (n + 1) where
  tasks := tasks
  fifo := fifo
  once := hp.nodup_iff.mpr
    (List.nodup_cons.mpr ⟨fun hn => Nat.lt_irrefl _ (h.fresh n hn), h.once⟩)
  known k hk := hp.mem_iff.mpr (List.mem_cons_of_mem _ (h.known k hk))
  fresh k hk := by
    rcases List.mem_cons.mp (hp.mem_iff.mp hk) with rfl | hk
    · exact Nat.lt_succ_self _
    · exact Nat.lt_succ_of_lt (h.fresh k hk)

theorem push_fifo (h : Ordered q ids owed n) {t : Pending} (ht : ∀ k ∈ t.id?, k ∉ owed) :
    (q ++ [t]).Pairwise fun a b => a = .functor .shutdownInLoop → ∀ k ∈ b.id?, k ∉ owed := by
  refine List.pairwise_append.mpr ⟨h.fifo, List.pairwise_singleton _ _, ?_⟩
  intro a _ b hb _
  rwa [List.mem_singleton.mp hb]

theorem push_functor (h : Ordered q ids owed n) (hf : f.callsUser ∨ f = .shutdownInLoop) :
    Ordered (q ++ [.functor f]) ids owed n := by
  have hw : waiting (q ++ [.functor f]) = waiting q := by simp [waiting, Pending.id?]
  apply h.rearrange _ (h.push_fifo (by simp [Pending.id?])) (by rw [hw])
  intro g hg
  rcases List.mem_append.mp hg with hg | hg
  · exact h.tasks g hg
  · cases List.mem_singleton.mp hg
    exact hf

theorem push_callbacks {fs : List Functor} (h : Ordered q ids owed n)
    (hfs : ∀ f ∈ fs, f.callsUser) : Ordered (q ++ fs.map .functor) ids owed n := by
  induction fs generalizing q with
  | nil => rwa [List.map_nil, List.append_nil]
  | cons f fs ih =>
    obtain ⟨hf, hfs⟩ := List.forall_mem_cons.mp hfs
    have hrest := ih (h.push_functor (.inl hf)) hfs
    rwa [List.append_assoc] at hrest

/-- A message from another thread goes behind everything else. -/
theorem push_send (h : Ordered q ids owed n) (msg : Message) :
    Ordered (q ++ [.sendInLoop n msg]) ids owed (n + 1) := by
  apply h.arrive
  · intro g hg
    rcases List.mem_append.mp hg with hg | hg
    · exact h.tasks g hg
    · cases List.mem_singleton.mp hg
  · apply h.push_fifo
    rintro k ⟨⟩
    exact h.not_owed
  · have hw : waiting (q ++ [.sendInLoop n msg]) = waiting q ++ [n] := by simp [waiting, Pending.id?]
    rw [hw, List.append_assoc]
    exact List.perm_middle

/-- A message of the loop thread is taken at once. -/
theorem take (h : Ordered q ids owed n) : Ordered q (ids ++ [n]) owed (n + 1) := by
  apply h.arrive h.tasks h.fifo
  rw [← List.append_assoc]
  exact List.perm_append_singleton n _

theorem perm_pop_send (q : List Pending) (ids : List Nat) (id : Nat) (msg : Message) :
    (waiting q ++ (ids ++ [id])).Perm (waiting (.sendInLoop id msg :: q) ++ ids) := by
  rw [← List.append_assoc]
  exact List.perm_append_singleton id _

theorem pop_send (h : Ordered (.sendInLoop id msg :: q) ids owed n) :
    Ordered q (ids ++ [id]) owed n :=
  h.rearrange (fun f hf => h.tasks f (List.mem_cons_of_mem _ hf)) h.fifo.of_cons
    (perm_pop_send q ids id msg)

theorem pop_functor (h : Ordered (.functor f :: q) ids owed n) : Ordered q ids owed n :=
  h.rearrange (fun f hf => h.tasks f (List.mem_cons_of_mem _ hf)) h.fifo.of_cons (.refl _)

/-- Once `shutdownInLoop` is in front, all owed messages have been taken. -/
theorem taken_of_shutdown (h : Ordered (.functor .shutdownInLoop :: q) ids owed n) :
    ∀ k ∈ owed, k ∈ ids := by
  intro k hk
  rcases List.mem_append.mp (h.known k hk) with hw | ht
  · obtain ⟨t, ht, htk⟩ := List.mem_filterMap.mp hw
    rcases List.mem_cons.mp ht with rfl | ht
    · cases htk
    · exact absurd hk ((List.pairwise_cons.mp h.fifo).1 t ht rfl k htk)
  · exact ht

theorem owe (h : Ordered q ids owed n) (hcalled : .functor .shutdownInLoop ∉ q)
    (hid : id ∈ waiting q ++ ids) : Ordered q ids (owed ++ [id]) n where
  tasks := h.tasks
  fifo := h.fifo.imp_of_mem fun ha _ _ he => absurd (he ▸ ha) hcalled
  once := h.once
  known k hk := by
    rcases List.mem_append.mp hk with hk | hk
    · exact h.known k hk
    · rwa [List.mem_singleton.mp hk]
  fresh := h.fresh

end Ordered

variable {ι : Type} {s t : Senders ι}

def queue (s : Senders ι) : List Pending := s.functors ++ s.pendingFunctors
def ids (s : Senders ι) : List Nat := s.taken.map Taken.id

/-- Calls that leave `shutdown` alone. -/
def Progress.Sends : Progress → Prop
  | .idle | .sending _ | .sent _ => True
  | .shutdownCalled | .shutdownChecked | .shutdownStored => False

/-- Nothing of a shutdown is to be seen before the first call. -/
structure Unannounced (s : Senders ι) : Prop where
  state : s.conn.state = .kConnected
  queue : .functor .shutdownInLoop ∉ s.queue
  closed : s.conn.socket.shutdownWrites = []
  callers : ∀ i, (s.callers i).Sends

structure Inv (s : Senders ι) : Prop where
  flowing : Flowing s.conn s.taken
  ordered : Ordered s.queue s.ids s.owed s.nextId
  sent : ∀ i k, s.callers i = .sent k → k ∈ waiting s.queue ++ s.ids
  announced : s.called = false → Unannounced s

theorem start_inv {writeComplete highWater : Bool} {mark : Nat} {c : TcpConnection}
    (h : (TcpConnection.new writeComplete highWater mark).connectEstablished = .ok c) :
    Inv (start c : Senders ι) := by
  cases h
  have hempty : (TcpConnection.new writeComplete highWater mark).outputBuffer.readable = [] :=
    Buffer.new_readable _
  refine ⟨⟨Buffer.new_inv _, StateE.noConfusion, ?_, rfl, by simp [start]⟩,
    ⟨?_, .nil, .nil, ?_, ?_⟩, ?_, fun _ => ⟨rfl, ?_, rfl, fun _ => trivial⟩⟩
  · exact iff_of_false Bool.noConfusion fun hne => hne hempty
  all_goals simp [start, queue, waiting, ids]

/-- After a call in the loop thread. -/
theorem Inv.move (h : Inv s) {c' : TcpConnection} {b : Bytes} {closes : Prop}
    {new : List Taken} (hm : Moves s.conn c' b closes) (hcloses : closes → s.called = true)
    (hnew : ∀ x ∈ new, x.At (output s.conn ++ b))
    (hconn : t.conn = { c' with queued := [] }) (htaken : t.taken = s.taken ++ new)
    (hordered : Ordered t.queue t.ids t.owed t.nextId)
    (hsent : ∀ i k, t.callers i = .sent k → k ∈ waiting t.queue ++ t.ids)
    (hcalled : t.called = s.called)
    (hqueue : .functor .shutdownInLoop ∈ t.queue → .functor .shutdownInLoop ∈ s.queue)
    (hcallers : ∀ i, (s.callers i).Sends → (t.callers i).Sends) : Inv t where
  flowing := by
    rw [hconn, htaken]
    exact h.flowing.move hm hnew
  ordered := hordered
  sent := hsent
  announced hno := by
    have hu := h.announced (hcalled ▸ hno)
    have hopen : ¬ closes := by
      intro hc
      rw [hcalled, hcloses hc] at hno
      cases hno
    constructor
    · rw [hconn]
      exact hm.state.trans hu.state
    · exact fun hq => hu.queue (hqueue hq)
    · rw [hconn]
      rcases hm.closing with ⟨hc, _⟩ | ⟨_, hsame⟩
      · exact absurd hc hopen
      · exact hsame.trans hu.closed
    · exact fun i => hcallers i (hu.callers i)

/-- All bytes of the message are among those that `write` has taken. -/
def Handed (s : Senders ι) (id : Nat) : Prop :=
  ∃ x ∈ s.taken, x.id = id ∧ x.At s.conn.socket.accepted

/-- Once `shutdownWrite` has been issued, every message that is owed has been handed over. -/
def Complete (s : Senders ι) : Prop :=
  s.conn.socket.shutdownWrites ≠ [] → ∀ k ∈ s.owed, s.Handed k

theorem Handed.mono {k : Nat} (h : s.Handed k) (htaken : ∃ new, t.taken = s.taken ++ new)
    (haccepted : ∃ x, t.conn.socket.accepted = s.conn.socket.accepted ++ x) : t.Handed k := by
  obtain ⟨x, hx, hid, hat⟩ := h
  obtain ⟨new, htaken⟩ := htaken
  obtain ⟨rest, haccepted⟩ := haccepted
  exact ⟨x, htaken ▸ List.mem_append_left _ hx, hid, haccepted ▸ hat.append rest⟩

/-- When nothing is buffered, the messages handed over are those that were taken. -/
theorem handed_iff_of_drained (h : Flowing s.conn s.taken)
    (hempty : s.conn.outputBuffer.readable = []) {k : Nat} : s.Handed k ↔ k ∈ s.ids := by
  constructor
  · rintro ⟨x, hx, rfl, _⟩
    exact List.mem_map_of_mem hx
  · intro hk
    obtain ⟨x, hx, rfl⟩ := List.mem_map.mp hk
    have hat := h.placed x hx
    rw [output, hempty, List.append_nil] at hat
    exact ⟨x, hx, rfl, hat⟩

/-- A call in the loop thread keeps the promise exactly when it does not close over a
message that is still queued. -/
theorem complete_move (h : Complete s) (ht : Flowing t.conn t.taken) {c' : TcpConnection}
    {b : Bytes} {closes : Prop} (hm : Moves s.conn c' b closes)
    (hconn : t.conn = { c' with queued := [] }) (htaken : ∃ new, t.taken = s.taken ++ new)
    (howed : t.owed = s.owed) : Complete t ↔ (closes → ∀ k ∈ s.owed, k ∈ t.ids) := by
  have hacc : ∃ x, t.conn.socket.accepted = s.conn.socket.accepted ++ x := by
    rw [hconn]
    exact hm.accepted
  rw [Complete, howed]
  rcases hm.closing with ⟨hc, hempty, hclosed⟩ | ⟨hopen, hsame⟩
  · have hdrained : t.conn.outputBuffer.readable = [] := by rw [hconn]; exact hempty
    have hshut : t.conn.socket.shutdownWrites ≠ [] := by rw [hconn]; exact hclosed
    simp only [handed_iff_of_drained ht hdrained, hshut, hc, ne_eq, not_false_eq_true, true_imp_iff]
  · refine iff_of_true (fun hshut k hk => ?_) fun hc => absurd hc hopen
    rw [hconn] at hshut
    exact (h (hsame ▸ hshut) k hk).mono htaken hacc

end Muduo.Net.Senders
