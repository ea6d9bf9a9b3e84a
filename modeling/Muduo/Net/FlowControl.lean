import Muduo.Net.WriteInterest

/-! Which flow-control callbacks a connection queues: the high-water callback when its output
grows past the mark, the write-complete callback when nothing is left to write. -/
namespace Muduo.Net.FlowControl
open Muduo.Support

/-- A `sendInLoop` of which the socket takes `n` bytes if it is written directly, or a
`handleWrite` in which it takes `n`. -/
inductive FlowStep where
  | sendInLoop (m : Memory) (data : Int) (len n : Nat)
  | handleWrite (n : Nat)

def enabled (c : TcpConnection) : FlowStep → Prop
  | .sendInLoop _ _ len n => n ≤ len
  | .handleWrite n => c.channel.isWriting = true → 1 ≤ n ∧ n ≤ c.outputBuffer.readableBytes

def step (c : TcpConnection) : FlowStep → Except Fault TcpConnection
  | .sendInLoop m data len n => c.sendInLoop m data len (.accepted n)
  | .handleWrite n => c.handleWrite (.accepted n)

def machine : Machine TcpConnection FlowStep := ⟨enabled, step⟩

instance (c : TcpConnection) : (a : FlowStep) → Decidable (machine.enabled c a)
  | .sendInLoop _ _ len n => inferInstanceAs (Decidable (n ≤ len))
  | .handleWrite n => inferInstanceAs (Decidable (c.channel.isWriting = true →
      1 ≤ n ∧ n ≤ c.outputBuffer.readableBytes))

/-- The bytes that wait in `outputBuffer_`. -/
def pending (c : TcpConnection) : Nat := c.outputBuffer.readable.length

/-- The step from `c` to `c'` wrote a whole message directly, or emptied the buffer. -/
def FlowStep.Completes (c c' : TcpConnection) : FlowStep → Prop
  | .sendInLoop _ _ len n => pending c = 0 ∧ n = len
  | .handleWrite _ => 0 < pending c ∧ pending c' = 0

instance (c c' : TcpConnection) : (a : FlowStep) → Decidable (a.Completes c c')
  | .sendInLoop _ _ len n => inferInstanceAs (Decidable (pending c = 0 ∧ n = len))
  | .handleWrite _ => inferInstanceAs (Decidable (0 < pending c ∧ pending c' = 0))

/-- The length of the output went from below the mark to at or above it. -/
def Crosses (mark : Nat) (c c' : TcpConnection) : Prop := pending c < mark ∧ mark ≤ pending c'

instance (mark : Nat) (c c' : TcpConnection) : Decidable (Crosses mark c c') :=
  inferInstanceAs (Decidable (pending c < mark ∧ mark ≤ pending c'))

/-- The callbacks that are due for a step. -/
def due (mark : Nat) (c : TcpConnection) (a : FlowStep) (c' : TcpConnection) : List Functor :=
  (if a.Completes c c' then [.writeCompleteCallback] else []) ++
    if Crosses mark c c' then [.highWaterMarkCallback (pending c')] else []

/-- The callbacks that are due for a run. -/
def dues (mark : Nat) (c : TcpConnection) : List FlowStep → List Functor
  | [] => []
  | a :: as =>
    match step c a with
    | .ok c' => due mark c a c' ++ dues mark c' as
    | .error _ => []

/-- The mark and the two callbacks are what their owner set. -/
structure Configured (mark : Nat) (c : TcpConnection) : Prop where
  mark : c.highWaterMark = mark
  highWater : c.highWaterMarkCallback = true
  writeComplete : c.writeCompleteCallback = true

/-- `c'` has the mark and the callbacks of `c`. -/
structure SameConfig (c c' : TcpConnection) : Prop where
  mark : c'.highWaterMark = c.highWaterMark
  highWater : c'.highWaterMarkCallback = c.highWaterMarkCallback
  writeComplete : c'.writeCompleteCallback = c.writeCompleteCallback

variable {c c' d : TcpConnection} {mark : Nat}

theorem SameConfig.refl (c : TcpConnection) : SameConfig c c := ⟨rfl, rfl, rfl⟩

theorem SameConfig.trans (h : SameConfig c c') (h' : SameConfig c' d) : SameConfig c d :=
  ⟨h'.mark.trans h.mark, h'.highWater.trans h.highWater, h'.writeComplete.trans h.writeComplete⟩

theorem Configured.same (h : Configured mark c) (hs : SameConfig c c') : Configured mark c' :=
  ⟨hs.mark.trans h.mark, hs.highWater.trans h.highWater, hs.writeComplete.trans h.writeComplete⟩

theorem queueIf_same (p : Prop) [Decidable p] (f : Functor) :
    SameConfig c (if p then c.queueInLoop f else c) := by
  split
  · exact ⟨rfl, rfl, rfl⟩
  · exact .refl c

/-- What the buffered rest of a message queues. -/
theorem bufferRest_queued {m : Memory} {data nwrote : Int} {remaining : Nat}
    (hok : c.bufferRest m data nwrote remaining = .ok c') :
    c'.queued = (c.noteHighWaterMark remaining).queued ∧ SameConfig c c' := by
  have hnote : SameConfig c (c.noteHighWaterMark remaining) := queueIf_same _ _
  obtain ⟨b, _, hok⟩ := bind_ok.mp hok
  dsimp only at hok
  split at hok
  · cases hok
    exact ⟨rfl, hnote.trans ⟨rfl, rfl, rfl⟩⟩
  · cases hok
    exact ⟨rfl, hnote.trans ⟨rfl, rfl, rfl⟩⟩

/-- What the end of `sendInLoop` queues, when `remaining` bytes are left for the buffer. -/
theorem rest_queued (hcfg : Configured mark c) {m : Memory} {data nwrote : Int}
    {remaining len : Nat}
    (hok : (do
      assert (remaining ≤ len)
      if !false && remaining > 0 then c.bufferRest m data nwrote remaining else return c) =
        Except.ok c') :
    SameConfig c c' ∧ c'.queued = c.queued ++
      if c.outputBuffer.readableBytes < mark ∧ mark ≤ c.outputBuffer.readableBytes + remaining
        then [.highWaterMarkCallback (c.outputBuffer.readableBytes + remaining)] else [] := by
  obtain ⟨_, hok⟩ := assert_bind_ok.mp hok
  by_cases hr : remaining > 0
  · rw [Bool.not_false, Bool.true_and, if_pos (decide_eq_true hr)] at hok
    obtain ⟨hq, hsame⟩ := bufferRest_queued hok
    refine ⟨hsame, ?_⟩
    rw [hq, TcpConnection.noteHighWaterMark, hcfg.mark, hcfg.highWater]
    by_cases hcross : c.outputBuffer.readableBytes < mark ∧
        mark ≤ c.outputBuffer.readableBytes + remaining
    · rw [if_pos hcross, if_pos ⟨hcross.2, hcross.1, rfl⟩]
      rfl
    · rw [if_neg hcross, if_neg fun h => hcross ⟨h.2.1, h.1⟩, List.append_nil]
  · have hz : remaining = 0 := by omega
    subst hz
    cases hok
    refine ⟨.refl c, ?_⟩
    rw [if_neg (by omega), List.append_nil]

theorem pending_eq (h : c.outputBuffer.Inv) : pending c = c.outputBuffer.readableBytes :=
  Buffer.readable_length h

/-- The write-complete callback that is queued after a direct write. -/
theorem writeDirectly_queued (hcfg : Configured mark c) (m : Memory) (data : Int) (len n : Nat) :
    ∃ d, c.writeDirectly m data len (.accepted n) = (d, (n : Int), len - n, false) ∧
      d.outputBuffer = c.outputBuffer ∧ SameConfig c d ∧
      d.queued = c.queued ++ if len - n = 0 then [.writeCompleteCallback] else [] := by
  have hwritten : SameConfig c (c.written (m.bytes data n)) := ⟨rfl, rfl, rfl⟩
  refine ⟨_, rfl, ?_, hwritten.trans (queueIf_same _ _), ?_⟩
  · split <;> rfl
  · have hcallback : (c.written (m.bytes data n)).writeCompleteCallback = true := hcfg.writeComplete
    by_cases hz : len - n = 0
    · rw [if_pos ⟨hz, hcallback⟩, if_pos hz]
      rfl
    · rw [if_neg fun h => hz h.1, if_neg hz, List.append_nil]
      rfl

theorem due_eq {a : FlowStep} {p q : Prop} [Decidable p] [Decidable q]
    (hp : a.Completes c c' ↔ p) (hq : Crosses mark c c' ↔ q) :
    due mark c a c' = (if p then [.writeCompleteCallback] else []) ++
      if q then [.highWaterMarkCallback (pending c')] else [] := by
  rw [due, if_congr hp rfl rfl, if_congr hq rfl rfl]

/-- What holds of an open connection with both callbacks set. -/
structure Open (mark : Nat) (c : TcpConnection) : Prop where
  interested : WriteInterest.Interested c
  up : c.state ≠ .kDisconnected
  configured : Configured mark c

/-- An open connection waits for the socket exactly when bytes are pending, and else writes
directly. -/
theorem Open.writing_iff (h : Open mark c) : c.channel.isWriting = true ↔ 0 < pending c := by
  rw [pending, List.length_pos_iff]
  exact h.interested.interest h.up

theorem Open.writesDirectly_iff (h : Open mark c) : c.writesDirectly = true ↔ pending c = 0 := by
  have hpending := pending_eq h.interested.buffer
  rw [TcpConnection.writesDirectly, Bool.and_eq_true, decide_eq_true_eq, ← hpending,
    Bool.not_eq_true', ← Bool.not_eq_true, h.writing_iff]
  omega

/-- A step from an open connection to an open one that queues what is due; where output
completes nothing is pending. -/
structure Accounts (mark : Nat) (c : TcpConnection) (a : FlowStep) (c' : TcpConnection) : Prop where
  stays : Open mark c'
  queued : c'.queued = c.queued ++ due mark c a c'
  complete : a.Completes c c' → pending c' = 0

theorem sendInLoop_accounts (h : Open mark c) (m : Memory) (data : Int) {len n : Nat}
    (hn : n ≤ len) :
    ∃ c', step c (.sendInLoop m data len n) = .ok c' ∧
      Accounts mark c (.sendInLoop m data len n) c' := by
  have hdirectly := h.writesDirectly_iff
  obtain ⟨hinterested, hup, hcfg⟩ := h
  have hwithin : WriteResult.Within (.accepted n) 0 len := by
    intro k hk
    cases hk
    exact ⟨Nat.zero_le _, hn⟩
  obtain ⟨c', hok, hsent⟩ := TcpConnection.sendInLoop_spec hinterested.buffer m data len hwithin
  have hkeep : WriteInterest.Interested c' := hinterested.sent (fun hx => absurd hx hup) hsent
  have hpending := pending_eq hinterested.buffer
  have hgrow : pending c' = pending c + (c.transfer m data len (.accepted n)).2.length := by
    rw [pending, hsent.readable, List.length_append, pending]
  refine ⟨c', hok, ?_⟩
  rw [TcpConnection.transfer, if_neg hup] at hgrow
  rw [TcpConnection.sendInLoop, if_neg hup] at hok
  by_cases hdirect : c.writesDirectly = true
  · obtain ⟨d, hd, hbuffer, hsame, hqueued⟩ := writeDirectly_queued hcfg m data len n
    rw [if_pos hdirect, hd] at hok
    obtain ⟨hsame', hqueued'⟩ := rest_queued (hcfg.same hsame) hok
    rw [if_pos hdirect, Memory.bytes_length] at hgrow
    have hempty : pending c = 0 := hdirectly.mp hdirect
    have hwhole : pending c = 0 ∧ n = len ↔ len - n = 0 := by omega
    refine ⟨⟨hkeep, hsent.state ▸ hup, hcfg.same (hsame.trans hsame')⟩, ?_,
      fun hc => by have := hwhole.mp hc; omega⟩
    rw [hqueued', hqueued, hbuffer, ← hpending, ← hgrow, List.append_assoc,
      due_eq (a := .sendInLoop m data len n) (q := pending c < mark ∧ mark ≤ pending c') hwhole
        Iff.rfl]
  · rw [if_neg hdirect] at hok hgrow
    rw [Memory.bytes_length] at hgrow
    obtain ⟨hsame, hqueued⟩ := rest_queued hcfg hok
    have hwaits : pending c ≠ 0 := fun hz => hdirect (hdirectly.mpr hz)
    have hnot : pending c = 0 ∧ n = len ↔ False := iff_of_false (fun hc => hwaits hc.1) id
    refine ⟨⟨hkeep, hsent.state ▸ hup, hcfg.same hsame⟩, ?_, fun hc => absurd hc.1 hwaits⟩
    rw [hqueued, ← hpending, ← hgrow, due_eq (a := .sendInLoop m data len n)
      (q := pending c < mark ∧ mark ≤ pending c') hnot Iff.rfl, if_neg id, List.nil_append]

/-- The half-close at the end of `handleWrite`. -/
theorem halfClose_queued (c : TcpConnection) :
    SameConfig c (if c.state = .kDisconnecting then c.shutdownInLoop else c) ∧
      (if c.state = .kDisconnecting then c.shutdownInLoop else c).queued = c.queued ∧
      (if c.state = .kDisconnecting then c.shutdownInLoop else c).outputBuffer = c.outputBuffer := by
  split
  · rw [TcpConnection.shutdownInLoop]
    dsimp only
    split <;> exact ⟨⟨rfl, rfl, rfl⟩, rfl, rfl⟩
  · exact ⟨.refl c, rfl, rfl⟩

/-- What the end of a drained buffer queues. -/
theorem outputDrained_queued (hcfg : Configured mark c) :
    SameConfig c c.outputDrained ∧
      c.outputDrained.queued = c.queued ++ [.writeCompleteCallback] ∧
      c.outputDrained.outputBuffer = c.outputBuffer := by
  rw [TcpConnection.outputDrained]
  dsimp only
  rw [if_pos hcfg.writeComplete]
  obtain ⟨hsame, hqueued, hbuffer⟩ := halfClose_queued
    ({ c with channel := c.channel.disableWriting }.queueInLoop .writeCompleteCallback)
  have hfirst : SameConfig c
      ({ c with channel := c.channel.disableWriting }.queueInLoop .writeCompleteCallback) :=
    ⟨rfl, rfl, rfl⟩
  exact ⟨hfirst.trans hsame, hqueued, hbuffer⟩

/-- What `handleWrite` queues once the socket took some bytes. -/
theorem handleWritten_queued (hcfg : Configured mark c) {n : Nat} (hn : 0 < n)
    (hok : c.handleWritten n = .ok c') :
    SameConfig c c' ∧ c'.queued = c.queued ++
      if c'.outputBuffer.readableBytes = 0 then [.writeCompleteCallback] else [] := by
  rw [TcpConnection.handleWritten, if_pos (show n > 0 from hn)] at hok
  obtain ⟨b, _, hok⟩ := bind_ok.mp hok
  have hbuffer : Configured mark { c with outputBuffer := b } := hcfg.same ⟨rfl, rfl, rfl⟩
  have hsame : SameConfig c { c with outputBuffer := b } := ⟨rfl, rfl, rfl⟩
  dsimp only at hok
  by_cases hempty : b.readableBytes = 0
  · rw [if_pos hempty] at hok
    obtain ⟨hsame', hqueued, hkept⟩ := outputDrained_queued hbuffer
    cases hok
    refine ⟨hsame.trans hsame', ?_⟩
    rw [hkept, if_pos hempty, hqueued]
  · rw [if_neg hempty] at hok
    cases hok
    refine ⟨hsame, ?_⟩
    rw [if_neg hempty, List.append_nil]

theorem handleWrite_accounts (h : Open mark c) {n : Nat}
    (hn : c.channel.isWriting = true → 1 ≤ n ∧ n ≤ c.outputBuffer.readableBytes) :
    ∃ c', step c (.handleWrite n) = .ok c' ∧ Accounts mark c (.handleWrite n) c' := by
  have hinterest : c.channel.writing = true ↔ 0 < pending c := h.writing_iff
  obtain ⟨hinterested, hup, hcfg⟩ := h
  cases hw : c.channel.writing with
  | false =>
    have hnil : ¬ 0 < pending c := by
      rw [← hinterest, hw]
      decide
    have hcomplete : (FlowStep.handleWrite n).Completes c c ↔ False :=
      iff_of_false (fun hc => hnil hc.1) id
    have hcross : Crosses mark c c ↔ False :=
      iff_of_false (fun hc => Nat.lt_irrefl _ (hc.1.trans_le hc.2)) id
    refine ⟨c, TcpConnection.handleWrite_idle hw (.accepted n), ⟨hinterested, hup, hcfg⟩, ?_,
      fun hc => hc.2⟩
    rw [due_eq hcomplete hcross, if_neg id, if_neg id, List.append_nil, List.append_nil]
  | true =>
    obtain ⟨h₁, hle⟩ := hn hw
    obtain ⟨c', hok, hdrained⟩ := TcpConnection.handleWrite_spec hinterested.buffer hw h₁ hle
    have hpending' := pending_eq hdrained.inv
    have hshrink : pending c' = pending c - n := by
      rw [pending, hdrained.readable, List.length_drop, pending]
    have hcomplete : (FlowStep.handleWrite n).Completes c c' ↔
        c'.outputBuffer.readableBytes = 0 := by
      rw [← hpending']
      exact and_iff_right (hinterest.mp hw)
    have hcross : Crosses mark c c' ↔ False := by
      refine iff_of_false (fun hc => ?_) id
      obtain ⟨hbelow, habove⟩ := hc
      omega
    have hkeep := hinterested.drained hw hdrained
    have hup' : c'.state ≠ .kDisconnected := hdrained.state ▸ hup
    refine ⟨c', hok, ?_⟩
    have hwritten : SameConfig c (c.written (c.outputBuffer.readable.take n)) := ⟨rfl, rfl, rfl⟩
    rw [TcpConnection.handleWrite, if_pos (show c.channel.isWriting = true from hw)] at hok
    obtain ⟨hsame, hqueued⟩ := handleWritten_queued (hcfg.same hwritten) h₁ hok
    refine ⟨⟨hkeep, hup', hcfg.same (hwritten.trans hsame)⟩, ?_, fun hc => hc.2⟩
    rw [due_eq hcomplete hcross, if_neg id, List.append_nil, hqueued]
    rfl

theorem step_accounts (h : Open mark c) {a : FlowStep} (he : machine.enabled c a) :
    ∃ c', step c a = .ok c' ∧ Accounts mark c a c' := by
  cases a with
  | sendInLoop m data len n => exact sendInLoop_accounts h m data he
  | handleWrite n => exact handleWrite_accounts h he

theorem run_accounts {as : List FlowStep} (h : Open mark c) (hr : machine.Run c as c') :
    machine.EveryStep c as (fun d a => ∃ d', step d a = .ok d' ∧ Accounts mark d a d') ∧
      c'.queued = c.queued ++ dues mark c as := by
  induction hr with
  | nil c =>
    refine ⟨fun pre a suf _ he _ => ?_, (List.append_nil c.queued).symm⟩
    cases pre <;> cases he
  | @cons c d c' a as he hs hr ih =>
    obtain ⟨d', hok, haccounts⟩ := step_accounts h he
    cases hok.symm.trans hs
    obtain ⟨hevery, hrest⟩ := ih haccounts.stays
    refine ⟨.cons he hs ⟨d, hok, haccounts⟩ hevery, ?_⟩
    have hdues : dues mark c (a :: as) = due mark c a d ++ dues mark d as := by
      rw [dues, hok]
    rw [hrest, haccounts.queued, hdues, List.append_assoc]

/-- From any open connection that has both callbacks, a run of `sendInLoop` and `handleWrite`
queues exactly the callbacks that are due for its steps, in their order: the high-water
callback with the new length where the length crosses the mark upward, the write-complete
callback where a message was written whole or the buffer emptied, which leaves nothing
pending. -/
theorem callbacks_accounted {writeComplete highWater : Bool} {mark : Nat}
    {before : List WriteInterest.LoopStep} {steps : List FlowStep}
    (hreach : WriteInterest.machine.Run (.new writeComplete highWater mark) before c)
    (hopen : c.state = .kConnected ∨ c.state = .kDisconnecting)
    (hwriteComplete : c.writeCompleteCallback = true) (hhighWater : c.highWaterMarkCallback = true)
    (hr : machine.Run c steps c') :
    machine.EveryStep c steps (fun d a => ∃ d', step d a = .ok d' ∧
      d'.queued = d.queued ++ due c.highWaterMark d a d' ∧
      (a.Completes d d' → pending d' = 0)) ∧
    c'.queued = c.queued ++ dues c.highWaterMark c steps := by
  have hinterested := hreach.invariant WriteInterest.step_keep
    (WriteInterest.new_interested writeComplete highWater mark)
  have hup : c.state ≠ .kDisconnected := by
    rcases hopen with h | h <;> rw [h] <;> decide
  obtain ⟨hevery, hqueued⟩ := run_accounts ⟨hinterested, hup, rfl, hhighWater, hwriteComplete⟩ hr
  refine ⟨fun pre a suf d he hd => ?_, hqueued⟩
  obtain ⟨d', hok, haccounts⟩ := hevery pre a suf d he hd
  exact ⟨d', hok, haccounts.queued, haccounts.complete⟩

/-- The connection that `connectEstablished` makes of a new one. -/
def established (mark : Nat) : TcpConnection :=
  let c := (TcpConnection.new true true mark).setState .kConnected
  { c with channel := c.channel.enableReading }.connectionCallback

set_option maxRecDepth 8000 in
/-- Of six bytes one is written directly, which leaves more than the mark of four; then the
rest is written. -/
theorem callbacks_accounted_sample :
    ∃ c, machine.Run (established 4) [.sendInLoop (fun _ => 0) 0 6 1, .handleWrite 5] c ∧
      c.queued = [.highWaterMarkCallback 5, .writeCompleteCallback] := by
  have hreach : WriteInterest.machine.Run (.new true true 4) [.connectEstablished]
      (established 4) := .cons trivial rfl (.nil _)
  obtain ⟨c, hr, _⟩ := machine.exists_run (established 4)
    [.sendInLoop (fun _ => 0) 0 6 1, .handleWrite 5] (fun c => c.state) .kConnected
    (by decide +kernel)
  have hqueued := (callbacks_accounted hreach (.inl rfl) rfl rfl hr).2
  exact ⟨c, hr, hqueued.trans (by rfl)⟩

end Muduo.Net.FlowControl
