import Muduo.Net.BufferRefinement
import Muduo.Net.SizedBuffer

/-! Any number of buffers under any sequence of calls, with the arithmetic of `size_t`. They
behave as byte strings exactly as long as no sum wraps and no vector has to be longer than
vectors can be. -/
namespace Muduo.Net.SizedRefinement
open Muduo.Support BufferRefinement

/-- The sizes and lengths that are passed are values of `size_t`. -/
def Typed : Call → Prop
  | .construct _ n | .ensureWritableBytes _ n => n < 18446744073709551616
  | .append _ data => data.length < 18446744073709551616
  | _ => True

/-- What each operation itself asserts of its arguments. -/
def pre (p : Pool) : Call → Prop
  | .prepend i data => data.length ≤ (p.buffers i).prependableBytes
  | .retrieve i len | .retrieveAsString i len | .unwrite i len =>
    len ≤ SizedBuffer.readableBytes (p.buffers i)
  | .retrieveUntil i k => (p.buffers i).peek + k ≤ (p.buffers i).beginWrite
  | .write i data => data.length ≤ SizedBuffer.writableBytes (p.buffers i)
  | .construct _ _ | .append _ _ | .retrieveAll _ | .ensureWritableBytes _ _ | .swap _ _ => True

def step (p : Pool) : Call → Except Fault Pool
  | .construct i initialSize => do return p.set i (← SizedBuffer.new initialSize)
  | .append i data => do return p.set i (← SizedBuffer.append (p.buffers i) data 0 data.length)
  | .prepend i data => do return p.set i (← SizedBuffer.prepend (p.buffers i) data)
  | .retrieve i len => do return p.set i (← SizedBuffer.retrieve (p.buffers i) len)
  | .retrieveAll i => return p.set i (p.buffers i).retrieveAll
  | .retrieveUntil i k => do
      return p.set i (← SizedBuffer.retrieveUntil (p.buffers i) ((p.buffers i).peek + k))
  | .retrieveAsString i len => do
      let (result, b) ← SizedBuffer.retrieveAsString (p.buffers i) len
      return { p.set i b with returned := p.returned ++ [result] }
  | .ensureWritableBytes i len => do
      return p.set i (← SizedBuffer.ensureWritableBytes (p.buffers i) len)
  | .write i data => do
      let b ← (p.buffers i).writeAtBeginWrite data
      return p.set i (← SizedBuffer.hasWritten b data.length)
  | .unwrite i len => do return p.set i (← SizedBuffer.unwrite (p.buffers i) len)
  | .swap i j =>
      let (bi, bj) := (p.buffers i).swap (p.buffers j)
      return (p.set i bi).set j bj

def machine : Machine Pool Call := ⟨pre, step⟩

/-- The vectors can hold what the call asks for. -/
def Fits (p : Pool) : Call → Prop
  | .construct _ initialSize => Buffer.kCheapPrepend + initialSize ≤ SizedBuffer.maxSize
  | .append i data => SizedBuffer.Fits (p.buffers i) data.length
  | .ensureWritableBytes i len => SizedBuffer.Fits (p.buffers i) len
  | _ => True

/-- The sums that the call forms stay below 2^64. -/
def NoWrap (p : Pool) : Call → Prop
  | .construct _ initialSize => Buffer.kCheapPrepend + initialSize < 18446744073709551616
  | .append i data => SizedBuffer.NoWrap (p.buffers i) data.length
  | .ensureWritableBytes i len => SizedBuffer.NoWrap (p.buffers i) len
  | _ => True

/-- `makeSpace` keeps the readable bytes and makes the room that is asked for. -/
def MakesRoom (p : Pool) : Call → Prop
  | .append i data => ∀ b, SizedBuffer.ensureWritableBytes (p.buffers i) data.length = .ok b →
      b.readable = (p.buffers i).readable ∧ data.length ≤ SizedBuffer.writableBytes b
  | .ensureWritableBytes i len => ∀ b, SizedBuffer.ensureWritableBytes (p.buffers i) len = .ok b →
      b.readable = (p.buffers i).readable ∧ len ≤ SizedBuffer.writableBytes b
  | _ => True

/-- A call within its asserted precondition returns, unless it ends in a way that is allowed. -/
def Returns (allowed : Fault → Prop) (p : Pool) (c : Call) : Prop :=
  pre p c → (∃ p', step p c = .ok p') ∨ ∃ e, allowed e ∧ step p c = .error e

/-- The buffers behave as byte strings with a cheap front, in every state that the calls lead
through while each meets its precondition. -/
structure Behaves (allowed : Fault → Prop) (calls : List Call) : Prop where
  ordered : machine.Throughout .start calls fun p => ∀ i, (p.buffers i).Inv
  contents : ∀ done rest p, calls = done ++ rest → machine.Run .start done p →
    (∀ i, (p.buffers i).readable = (done.foldl spec .empty).contents i) ∧
      p.returned = (done.foldl spec .empty).returned
  returns : machine.EveryStep .start calls (Returns allowed)
  room : machine.EveryStep .start calls MakesRoom
  front : ∀ done rest p, calls = done ++ rest → machine.Run .start done p →
    (∀ c ∈ done, c.isPrepend = false) →
      ∀ i, Buffer.kCheapPrepend ≤ (p.buffers i).prependableBytes

instance (p : Pool) : (c : Call) → Decidable (pre p c)
  | .prepend _ _ | .retrieve _ _ | .retrieveAsString _ _ | .unwrite _ _ | .retrieveUntil _ _
  | .write _ _ => inferInstanceAs (Decidable (_ ≤ _))
  | .construct _ _ | .append _ _ | .retrieveAll _ | .ensureWritableBytes _ _ | .swap _ _ =>
    inferInstanceAs (Decidable True)

instance (p : Pool) (c : Call) : Decidable (machine.enabled p c) :=
  inferInstanceAs (Decidable (pre p c))

instance : (c : Call) → Decidable (Typed c)
  | .construct _ _ | .append _ _ | .ensureWritableBytes _ _ => inferInstanceAs (Decidable (_ < _))
  | .prepend _ _ | .retrieve _ _ | .retrieveAsString _ _ | .unwrite _ _ | .retrieveUntil _ _
  | .write _ _ | .retrieveAll _ | .swap _ _ => inferInstanceAs (Decidable True)

instance (p : Pool) : (c : Call) → Decidable (Fits p c)
  | .construct _ _ => inferInstanceAs (Decidable (_ ≤ _))
  | .append i data => inferInstanceAs (Decidable (SizedBuffer.Fits (p.buffers i) data.length))
  | .ensureWritableBytes i len => inferInstanceAs (Decidable (SizedBuffer.Fits (p.buffers i) len))
  | .prepend _ _ | .retrieve _ _ | .retrieveAsString _ _ | .unwrite _ _ | .retrieveUntil _ _
  | .write _ _ | .retrieveAll _ | .swap _ _ => inferInstanceAs (Decidable True)

variable {p p' : Pool} {c : Call}

/-- Every buffer is as it should be. -/
def Valid (p : Pool) : Prop := ∀ i, SizedBuffer.Valid (p.buffers i)

theorem start_valid : Valid .start := fun _ => SizedBuffer.new_valid (by decide)

theorem Valid.set (h : Valid p) (i : Nat) {b : Buffer} (hb : SizedBuffer.Valid b) :
    Valid (p.set i b) := by
  intro k
  by_cases hk : k = i
  · simpa [Pool.set, put, hk] using hb
  · simpa [Pool.set, put, hk] using h k

theorem Valid.pre_iff (h : Valid p) : pre p c ↔ BufferRefinement.pre p c := by
  cases c with
  | retrieve i len => rw [pre, BufferRefinement.pre, (h i).readableBytes_eq]
  | retrieveAsString i len => rw [pre, BufferRefinement.pre, (h i).readableBytes_eq]
  | unwrite i len => rw [pre, BufferRefinement.pre, (h i).readableBytes_eq]
  | write i data => rw [pre, BufferRefinement.pre, (h i).writableBytes_eq]
  | _ => exact Iff.rfl

/-- A call on one buffer that leaves its vector as long as it is. -/
theorem Valid.kept (h : Valid p) {i : Nat} {x : Except Fault Buffer} {b : Buffer} (hx : x = .ok b)
    (hi : b.Inv) (hl : b.buffer.length = (p.buffers i).buffer.length) :
    (do return p.set i (← x)) = Except.ok (ε := Fault) p' → Valid p' := by
  rw [hx]
  intro hok
  cases hok
  exact h.set i ⟨hi, hl ▸ (h i).fits⟩

/-- In a step that fits the vectors, counting in `size_t` is counting. -/
theorem Valid.step_eq (h : Valid p) (hp : pre p c) (hf : Fits p c) :
    step p c = BufferRefinement.step p c ∧ ∀ p', step p c = .ok p' → Valid p' := by
  cases c with
  | construct i initialSize =>
    rw [step, SizedBuffer.new_eq hf]
    refine ⟨rfl, fun p' hok => ?_⟩
    cases hok
    exact h.set i (SizedBuffer.new_valid hf)
  | append i data =>
    have hs : 0 + data.length ≤ data.length := (Nat.zero_add _).le
    obtain ⟨b, hok, hlist, hv, _⟩ := (h i).append_spec hf hs
    rw [Nat.zero_add, StdVector.range_all] at hlist
    rw [step, BufferRefinement.step, hok, hlist]
    refine ⟨rfl, fun p' hok => ?_⟩
    cases hok
    exact h.set i hv
  | ensureWritableBytes i len =>
    obtain ⟨b, hok, hv, _⟩ := (h i).ensureWritableBytes_spec hf
    rw [step, BufferRefinement.step, ← (h i).ensureWritableBytes_eq hf, hok]
    refine ⟨rfl, fun p' hok => ?_⟩
    cases hok
    exact h.set i hv
  | prepend i data =>
    obtain ⟨b, hok, hi, _⟩ := Buffer.prepend_spec (h i).toInv (h.pre_iff.mp hp)
    rw [step, BufferRefinement.step, (h i).prepend_eq]
    exact ⟨rfl, fun p' => h.kept hok hi (Buffer.prepend_length hok)⟩
  | retrieve i len =>
    obtain ⟨b, hok, hi, _, hb, _⟩ := Buffer.retrieve_spec (h i).toInv (h.pre_iff.mp hp)
    rw [step, BufferRefinement.step, (h i).retrieve_eq]
    exact ⟨rfl, fun p' => h.kept hok hi (congrArg List.length hb)⟩
  | retrieveAll i =>
    exact ⟨rfl, fun p' => h.kept rfl (Buffer.retrieveAll_inv (h i).toInv) rfl⟩
  | retrieveUntil i k =>
    have hk : k ≤ (p.buffers i).readableBytes := by
      have hle : (p.buffers i).readerIndex + k ≤ (p.buffers i).writerIndex := hp
      unfold Buffer.readableBytes
      omega
    obtain ⟨b, hok, hi, _, hb, _⟩ := Buffer.retrieveUntil_spec (h i).toInv hk
    rw [step, BufferRefinement.step, (h i).retrieveUntil_eq]
    exact ⟨rfl, fun p' => h.kept hok hi (congrArg List.length hb)⟩
  | retrieveAsString i len =>
    obtain ⟨b, hok, hi, _, hb, _⟩ := Buffer.retrieveAsString_spec (h i).toInv (h.pre_iff.mp hp)
    rw [step, BufferRefinement.step, (h i).retrieveAsString_eq, hok]
    refine ⟨rfl, fun p' hstep => ?_⟩
    cases hstep
    exact h.set i ⟨hi, hb ▸ (h i).fits⟩
  | write i data =>
    obtain ⟨b, b', hw, hok, hi, _, _, hl, _, hb, hb'⟩ :=
      Buffer.write_hasWritten_spec (h i).toInv (h.pre_iff.mp hp)
    have hv : SizedBuffer.Valid b := by
      have hsize : b.buffer.length = (p.buffers i).buffer.length := hb' ▸ hl
      rw [hb]
      exact ⟨⟨(h i).reader_le, hsize ▸ (h i).writer_le, hsize ▸ (h i).cheap_le⟩,
        hsize ▸ (h i).fits⟩
    rw [step, BufferRefinement.step, hw, ok_bind, ok_bind, hv.hasWritten_eq]
    exact ⟨rfl, fun p' => h.kept hok hi hl⟩
  | unwrite i len =>
    obtain ⟨b, hok, hi, _⟩ := Buffer.unwrite_spec (h i).toInv (h.pre_iff.mp hp)
    rw [step, BufferRefinement.step, (h i).unwrite_eq]
    exact ⟨rfl, fun p' => h.kept hok hi (congrArg List.length (Buffer.unwrite_buffer hok))⟩
  | swap i j =>
    refine ⟨rfl, fun p' hok => ?_⟩
    cases hok
    exact (h.set i (h j)).set j (h i)

theorem Valid.noWrap (h : Valid p) (hf : Fits p c) : NoWrap p c := by
  cases c with
  | construct i initialSize =>
    have hmax : SizedBuffer.maxSize = 9223372036854775807 := rfl
    unfold Fits at hf
    unfold NoWrap
    omega
  | append i data => exact (h i).noWrap hf
  | ensureWritableBytes i len => exact (h i).noWrap hf
  | _ => exact trivial

/-- A call that fits the vectors returns, and is the call that counts in `Nat`. -/
theorem Valid.step_fits (h : Valid p) (hp : pre p c) (hf : Fits p c) : ∃ p',
    step p c = .ok p' ∧ BufferRefinement.step p c = .ok p' ∧ Valid p' := by
  have hstrings : Refines False p ⟨fun i => (p.buffers i).readable, p.returned⟩ :=
    ⟨fun i => (h i).toInv, fun _ => rfl, rfl, False.elim⟩
  obtain ⟨p', hok, _⟩ := simulates.step p c _ hstrings ⟨h.pre_iff.mp hp, False.elim⟩
  obtain ⟨heq, hvalid⟩ := h.step_eq hp hf
  exact ⟨p', heq.trans hok, hok, hvalid p' (heq.trans hok)⟩

private theorem failed {i : Nat} {x : Except Fault Buffer} {e : Fault} (h : x = .error e) :
    (do return p.set i (← x)) = (.error e : Except Fault Pool) := by rw [h, error_bind]

private theorem set_same (p : Pool) (i : Nat) (b : Buffer) : (p.set i b).buffers i = b := by
  simp [Pool.set, put]

/-- Where only the length is too much, the vector throws. -/
theorem Valid.step_throws (h : Valid p) (hn : NoWrap p c) (hf : ¬ Fits p c) :
    step p c = .error .lengthError := by
  cases c with
  | construct i initialSize => exact failed (SizedBuffer.new_throws hn hf)
  | append i data =>
    refine failed ?_
    rw [SizedBuffer.append, (h i).ensureWritableBytes_throws hn hf, error_bind]
  | ensureWritableBytes i len => exact failed ((h i).ensureWritableBytes_throws hn hf)
  | _ => exact absurd trivial hf

/-- Where a sum wraps, an assertion or the copy fails, or a vector is left shorter than
`writerIndex_`. -/
theorem Valid.step_wraps (h : Valid p) (ht : Typed c) (hn : ¬ NoWrap p c) :
    (∃ e, e ≠ .lengthError ∧ step p c = .error e) ∨ ∃ p' i, step p c = .ok p' ∧
      (p'.buffers i).buffer.length < (p'.buffers i).writerIndex := by
  cases c with
  | construct i initialSize =>
    obtain ⟨b, hok, hcut⟩ := SizedBuffer.new_wraps ht hn
    refine .inr ⟨p.set i b, i, ?_, (set_same p i b).symm ▸ hcut⟩
    rw [step, hok]
    rfl
  | append i data =>
    rcases (h i).append_wraps ht hn with hfail | hfail
    · exact .inl ⟨.assertion, by decide, failed hfail⟩
    · exact .inl ⟨.memory, by decide, failed hfail⟩
  | ensureWritableBytes i len =>
    rcases (h i).ensureWritableBytes_wraps ht hn with hfail | ⟨_, b, hok, hcut⟩
    · exact .inl ⟨.assertion, by decide, failed hfail⟩
    · refine .inr ⟨p.set i b, i, ?_, (set_same p i b).symm ▸ hcut⟩
      rw [step, hok]
      rfl
  | _ => exact absurd trivial hn

/-- A call that returns to buffers in order did fit. -/
theorem Valid.fits_of_ordered (h : Valid p) (ht : Typed c) (hok : step p c = .ok p')
    (ho : ∀ i, (p'.buffers i).writerIndex ≤ (p'.buffers i).buffer.length) : Fits p c := by
  by_contra hf
  by_cases hn : NoWrap p c
  · cases hok.symm.trans (h.step_throws hn hf)
  · rcases h.step_wraps ht hn with ⟨e, _, hfail⟩ | ⟨p'', i, hok', hcut⟩
    · cases hok.symm.trans hfail
    · cases hok.symm.trans hok'
      exact absurd (ho i) (Nat.not_le.mpr hcut)

/-- Runs whose returning steps all fit are runs that count in `Nat`. -/
theorem run_agrees {K : Pool → Call → Prop}
    (hK : ∀ p c p', Valid p → Typed c → pre p c → K p c → step p c = .ok p' → Fits p c)
    {calls : List Call} (h : machine.Run p calls p') (hv : Valid p) (ht : ∀ c ∈ calls, Typed c)
    (hk : machine.EveryStep p calls K) : Valid p' ∧ BufferRefinement.machine.Run p calls p' := by
  induction h with
  | nil p => exact ⟨hv, .nil p⟩
  | @cons p q r c calls he hs _ ih =>
    obtain ⟨hc, hcalls⟩ := (Machine.everyStep_cons he hs).mp hk
    obtain ⟨htc, htcalls⟩ := List.forall_mem_cons.mp ht
    obtain ⟨q', hok, hnat, hv'⟩ := hv.step_fits he (hK p c q hv htc he hc hs)
    cases hs.symm.trans hok
    obtain ⟨hr, hrun⟩ := ih hv' htcalls hcalls
    exact ⟨hr, .cons (hv.pre_iff.mp he) hnat hrun⟩

/-- What a run that counts in `Nat` has made of the buffers. -/
theorem run_refines {calls : List Call} (h : BufferRefinement.machine.Run .start calls p) :
    Refines (∀ c ∈ calls, c.isPrepend = false) p (calls.foldl spec .empty) :=
  simulates.run (Machine.run_restrict.mpr
    ⟨h, Machine.everyStep_of_forall fun c hc _ q => q c hc⟩) start_refines

theorem fits_of_not_pre (hp : ¬ pre p c) : Fits p c := by
  cases c with
  | construct i initialSize => exact absurd trivial hp
  | append i data => exact absurd trivial hp
  | ensureWritableBytes i len => exact absurd trivial hp
  | _ => exact trivial

theorem Valid.makesRoom (h : Valid p) (hn : ¬ Fits p c → NoWrap p c) : MakesRoom p c := by
  have room : ∀ i len, (¬ SizedBuffer.Fits (p.buffers i) len →
      SizedBuffer.NoWrap (p.buffers i) len) →
      ∀ b, SizedBuffer.ensureWritableBytes (p.buffers i) len = .ok b →
        b.readable = (p.buffers i).readable ∧ len ≤ SizedBuffer.writableBytes b := by
    intro i len hn b hok
    by_cases hf : SizedBuffer.Fits (p.buffers i) len
    · obtain ⟨b', hok', hv, hr, hl, _⟩ := (h i).ensureWritableBytes_spec hf
      cases hok.symm.trans hok'
      exact ⟨hr, hv.writableBytes_eq.symm ▸ hl⟩
    · cases hok.symm.trans ((h i).ensureWritableBytes_throws (hn hf) hf)
  cases c with
  | append i data => exact room i data.length hn
  | ensureWritableBytes i len => exact room i len hn
  | _ => exact trivial

/-- A call that returns to buffers in order, or ends as it may, did fit, or did throw. -/
theorem Valid.fits_or_throws (h : Valid p) (ht : Typed c) {allowed : Fault → Prop}
    (hallowed : ∀ e, allowed e → e = .lengthError) (hr : Returns allowed p c)
    (ho : ∀ p', pre p c → step p c = .ok p' →
      ∀ i, (p'.buffers i).writerIndex ≤ (p'.buffers i).buffer.length) :
    Fits p c ∨ (NoWrap p c ∧ allowed .lengthError) := by
  by_cases hp : pre p c
  · rcases hr hp with ⟨p', hok⟩ | ⟨e, hal, hfail⟩
    · exact .inl (h.fits_of_ordered ht hok (ho p' hp hok))
    · obtain rfl := hallowed e hal
      by_cases hn : NoWrap p c
      · exact .inr ⟨hn, hal⟩
      · rcases h.step_wraps ht hn with ⟨e, hne, hfail'⟩ | ⟨p', _, hok, _⟩
        · cases hfail.symm.trans hfail'
          exact absurd rfl hne
        · cases hfail.symm.trans hok
  · exact .inl (fits_of_not_pre hp)

/-- A call that fits returns, and one that throws ends as it may. -/
theorem Valid.returns (h : Valid p) {allowed : Fault → Prop}
    (hk : Fits p c ∨ (NoWrap p c ∧ allowed .lengthError)) : Returns allowed p c := by
  intro hp
  by_cases hf : Fits p c
  · obtain ⟨p', hok, _⟩ := h.step_fits hp hf
    exact .inl ⟨p', hok⟩
  · obtain ⟨hn, hal⟩ := hk.resolve_left hf
    exact .inr ⟨.lengthError, hal, h.step_throws hn hf⟩

/-- With the exceptions that are allowed, the calls behave exactly if each fits, or throws
and may. -/
theorem behaves_iff {allowed : Fault → Prop} (hallowed : ∀ e, allowed e → e = .lengthError)
    {K : Pool → Call → Prop}
    (hK : ∀ p c, Valid p → (K p c ↔ Fits p c ∨ (NoWrap p c ∧ allowed .lengthError)))
    {calls : List Call} (ht : ∀ c ∈ calls, Typed c) :
    Behaves allowed calls ↔ machine.EveryStep .start calls K := by
  constructor
  · intro h done c rest p he hrun
    subst he
    obtain ⟨htdone, htrest⟩ := List.forall_mem_append.mp ht
    have htc := (List.forall_mem_cons.mp htrest).1
    have ordered : ∀ before d after q q', done ++ c :: rest = before ++ d :: after →
        machine.Run .start before q → pre q d → step q d = .ok q' →
        ∀ i, (q'.buffers i).writerIndex ≤ (q'.buffers i).buffer.length := by
      intro before d after q q' he hq hd hok i
      have hrun' := Machine.run_append.mpr ⟨q, hq, .singleton hd hok⟩
      have hsplit : done ++ c :: rest = (before ++ [d]) ++ after := by
        rw [he, List.append_assoc]
        rfl
      exact (h.ordered (before ++ [d]) after q' hsplit hrun' i).writer_le
    have hdone : machine.EveryStep .start done fun q d => ∀ q', pre q d →
        step q d = .ok q' → ∀ i, (q'.buffers i).writerIndex ≤ (q'.buffers i).buffer.length := by
      intro before d after q hbefore hq q'
      exact ordered before d (after ++ c :: rest) q q' (by rw [hbefore, List.append_assoc]; rfl) hq
    have hv : Valid p := (run_agrees (fun q d q' hv htd hd hq hok =>
      hv.fits_of_ordered htd hok (hq q' hd hok)) hrun start_valid htdone hdone).1
    exact (hK p c hv).mpr (hv.fits_or_throws htc hallowed (h.returns done c rest p rfl hrun)
      fun p' => ordered done c rest p p' rfl hrun)
  · intro hk
    have reached : ∀ done rest p, calls = done ++ rest → machine.Run .start done p →
        Valid p ∧ BufferRefinement.machine.Run .start done p := by
      rintro done rest p rfl hrun
      apply run_agrees (K := K) _ hrun start_valid (List.forall_mem_append.mp ht).1 hk.left
      intro q d q' hv _ _ hd hok
      by_contra hf
      obtain ⟨hn, _⟩ := ((hK q d hv).mp hd).resolve_left hf
      cases hok.symm.trans (hv.step_throws hn hf)
    refine ⟨?_, ?_, ?_, ?_, ?_⟩
    · intro done rest p he hrun i
      exact ((reached done rest p he hrun).1 i).toInv
    · intro done rest p he hrun
      have hr := run_refines (reached done rest p he hrun).2
      exact ⟨hr.contents, hr.returned⟩
    · intro done c rest p he hrun
      have hv := (reached done (c :: rest) p he hrun).1
      exact hv.returns ((hK p c hv).mp (hk done c rest p he hrun))
    · intro done c rest p he hrun
      have hv := (reached done (c :: rest) p he hrun).1
      have hkc := (hK p c hv).mp (hk done c rest p he hrun)
      exact hv.makesRoom fun hf => (hkc.resolve_left hf).1
    · intro done rest p he hrun hplain
      exact (run_refines (reached done rest p he hrun).2).front hplain

/-- Under any sequence of calls the buffers behave as byte strings exactly if the vectors can
hold what the calls ask for; and if the exception of a vector is no fault of theirs, exactly
if no sum wraps. -/
theorem buffer_refines_string_iff (calls : List Call) (ht : ∀ c ∈ calls, Typed c) :
    (Behaves (fun _ => False) calls ↔ machine.EveryStep .start calls Fits) ∧
      (Behaves (· = .lengthError) calls ↔ machine.EveryStep .start calls NoWrap) := by
  constructor
  · apply behaves_iff (fun _ => False.elim) _ ht
    intro p c _
    rw [and_false, or_false]
  · apply behaves_iff (fun _ => id) _ ht
    intro p c hv
    constructor
    · exact fun hn => .inr ⟨hn, rfl⟩
    · rintro (hf | ⟨hn, _⟩)
      · exact hv.noWrap hf
      · exact hn

/-- Calls that grow, compact, prepend and swap within the bounds. -/
theorem buffer_refines_string_sample : Behaves (fun _ => False) [.construct 0 2,
    .append 0 [1, 2, 3], .retrieve 0 2, .append 0 [4], .prepend 0 [9], .swap 0 1,
    .retrieveAsString 1 2, .ensureWritableBytes 1 30] := by
  refine (buffer_refines_string_iff _ (by decide)).1.mpr ?_
  obtain ⟨p, hp, _⟩ := (machine.restrict Fits).exists_run .start [.construct 0 2,
    .append 0 [1, 2, 3], .retrieve 0 2, .append 0 [4], .prepend 0 [9], .swap 0 1,
    .retrieveAsString 1 2, .ensureWritableBytes 1 30] (fun p => (p.buffers 1).buffer.length) 40
    (by decide +kernel)
  exact (Machine.run_restrict.mp hp).2

theorem not_behaves {allowed : Fault → Prop} {calls : List Call} {len last : Nat}
    (h : ∃ p, machine.Run .start calls p ∧
      ((p.buffers 0).buffer.length, (p.buffers 0).writerIndex) = (len, last))
    (hcut : len < last) : ¬ Behaves allowed calls := by
  obtain ⟨p, hrun, hsizes⟩ := h
  obtain ⟨rfl, rfl⟩ := Prod.mk.inj hsizes
  intro hb
  exact absurd (hb.ordered calls [] p (List.append_nil _).symm hrun 0).writer_le
    (Nat.not_le.mpr hcut)

/-- `ensureWritableBytes(2^64 - 60)` with 92 bytes buffered cuts the vector to 40 bytes, and
`Buffer(2^64 - 1)` makes one of 7: whether exceptions are excused or not, the indexes are out
of order. -/
theorem ensureWritableBytes_cuts :
    ¬ Behaves (fun _ => False) [.append 0 (List.replicate 92 0),
      .ensureWritableBytes 0 18446744073709551556] ∧
    ¬ Behaves (· = .lengthError) [.append 0 (List.replicate 92 0),
      .ensureWritableBytes 0 18446744073709551556] ∧
    ¬ Behaves (fun _ => False) [.construct 0 18446744073709551615] ∧
    ¬ Behaves (· = .lengthError) [.construct 0 18446744073709551615] := by
  have hensure := machine.exists_run .start [.append 0 (List.replicate 92 0),
    .ensureWritableBytes 0 18446744073709551556]
    (fun p => ((p.buffers 0).buffer.length, (p.buffers 0).writerIndex)) (40, 100)
    (by decide +kernel)
  have hconstruct := machine.exists_run .start [.construct 0 18446744073709551615]
    (fun p => ((p.buffers 0).buffer.length, (p.buffers 0).writerIndex)) (7, 8)
    (by decide +kernel)
  exact ⟨not_behaves hensure (by decide), not_behaves hensure (by decide),
    not_behaves hconstruct (by decide), not_behaves hconstruct (by decide)⟩

end Muduo.Net.SizedRefinement
