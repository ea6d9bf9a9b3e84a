import Muduo.Net.Buffer

/-! Any number of buffers under any sequence of calls behave as byte strings, as long as
`size_t` can count what is asked of them. -/
namespace Muduo.Net.BufferRefinement
open Muduo.Support

/-- A call on the buffers named `i` and `j`. The end given to `retrieveUntil` is
`peek() + k`; `write` stores at `beginWrite()` and then calls `hasWritten`; `construct`
puts a new buffer in the place of `i`. -/
inductive Call where
  | construct (i initialSize : Nat)
  | append (i : Nat) (data : Bytes)
  | prepend (i : Nat) (data : Bytes)
  | retrieve (i len : Nat)
  | retrieveAll (i : Nat)
  | retrieveUntil (i k : Nat)
  | retrieveAsString (i len : Nat)
  | ensureWritableBytes (i len : Nat)
  | write (i : Nat) (data : Bytes)
  | unwrite (i len : Nat)
  | swap (i j : Nat)
  deriving DecidableEq, Repr

def Call.isPrepend : Call → Bool
  | .prepend _ _ => true
  | _ => false

def put {β : Type} (f : Nat → β) (i : Nat) (x : β) : Nat → β := fun k => if k = i then x else f k

/-- The buffers of a run, and the strings their calls have returned. -/
structure Pool where
  buffers : Nat → Buffer
  returned : List Bytes

def Pool.start : Pool := ⟨fun _ => .new, []⟩

def Pool.set (p : Pool) (i : Nat) (b : Buffer) : Pool := { p with buffers := put p.buffers i b }

/-- What each operation itself asserts of its arguments. -/
def pre (p : Pool) : Call → Prop
  | .prepend i data => data.length ≤ (p.buffers i).prependableBytes
  | .retrieve i len | .retrieveAsString i len | .unwrite i len => len ≤ (p.buffers i).readableBytes
  | .retrieveUntil i k => (p.buffers i).peek + k ≤ (p.buffers i).beginWrite
  | .write i data => data.length ≤ (p.buffers i).writableBytes
  | .construct _ _ | .append _ _ | .retrieveAll _ | .ensureWritableBytes _ _ | .swap _ _ => True

instance (p : Pool) : (c : Call) → Decidable (pre p c)
  | .prepend _ _ | .retrieve _ _ | .retrieveAsString _ _ | .unwrite _ _ | .retrieveUntil _ _
  | .write _ _ => inferInstanceAs (Decidable (_ ≤ _))
  | .construct _ _ | .append _ _ | .retrieveAll _ | .ensureWritableBytes _ _ | .swap _ _ =>
    inferInstanceAs (Decidable True)

def step (p : Pool) : Call → Except Fault Pool
  | .construct i initialSize => return p.set i (.new initialSize)
  | .append i data => do return p.set i (← (p.buffers i).append data)
  | .prepend i data => do return p.set i (← (p.buffers i).prepend data)
  | .retrieve i len => do return p.set i (← (p.buffers i).retrieve len)
  | .retrieveAll i => return p.set i (p.buffers i).retrieveAll
  | .retrieveUntil i k => do return p.set i (← (p.buffers i).retrieveUntil ((p.buffers i).peek + k))
  | .retrieveAsString i len => do
      let (result, b) ← (p.buffers i).retrieveAsString len
      return { p.set i b with returned := p.returned ++ [result] }
  | .ensureWritableBytes i len => do return p.set i (← (p.buffers i).ensureWritableBytes len)
  | .write i data => do
      let b ← (p.buffers i).writeAtBeginWrite data
      return p.set i (← b.hasWritten data.length)
  | .unwrite i len => do return p.set i (← (p.buffers i).unwrite len)
  | .swap i j =>
      let (bi, bj) := (p.buffers i).swap (p.buffers j)
      return (p.set i bi).set j bj

def machine : Machine Pool Call := ⟨pre, step⟩

instance (p : Pool) (c : Call) : Decidable (machine.enabled p c) :=
  inferInstanceAs (Decidable (pre p c))

/-- The purpose of the buffers: one byte string each. -/
structure Strings where
  contents : Nat → Bytes
  returned : List Bytes

def Strings.empty : Strings := ⟨fun _ => [], []⟩

def Strings.set (s : Strings) (i : Nat) (x : Bytes) : Strings :=
  { s with contents := put s.contents i x }

def spec (s : Strings) : Call → Strings
  | .construct i _ | .retrieveAll i => s.set i []
  | .append i data | .write i data => s.set i (s.contents i ++ data)
  | .prepend i data => s.set i (data ++ s.contents i)
  | .retrieve i len | .retrieveUntil i len => s.set i ((s.contents i).drop len)
  | .retrieveAsString i len =>
      { s.set i ((s.contents i).drop len) with returned := s.returned ++ [(s.contents i).take len] }
  | .ensureWritableBytes _ _ => s
  | .unwrite i len => s.set i ((s.contents i).take ((s.contents i).length - len))
  | .swap i j => (s.set i (s.contents j)).set j (s.contents i)

/-- The buffers hold the strings; `cheap` says that the front of each buffer has
never been used for prepending. -/
structure Refines (cheap : Prop) (p : Pool) (s : Strings) : Prop where
  inv : ∀ i, (p.buffers i).Inv
  contents : ∀ i, (p.buffers i).readable = s.contents i
  returned : p.returned = s.returned
  front : cheap → ∀ i, Buffer.kCheapPrepend ≤ (p.buffers i).prependableBytes

variable {cheap : Prop} {p : Pool} {s : Strings}

theorem Refines.set (h : Refines cheap p s) {i : Nat} {b : Buffer} {x : Bytes} (hb : b.Inv)
    (hx : b.readable = x) (hf : cheap → Buffer.kCheapPrepend ≤ b.prependableBytes) :
    Refines cheap (p.set i b) (s.set i x) := by
  refine ⟨fun k => ?_, fun k => ?_, h.returned, fun hc k => ?_⟩
  · by_cases hk : k = i <;> simp [Pool.set, put, hk, hb, h.inv]
  · by_cases hk : k = i <;> simp [Pool.set, Strings.set, put, hk, hx, h.contents]
  · by_cases hk : k = i <;> simp [Pool.set, put, hk, hf hc, h.front hc]

theorem Strings.set_contents (s : Strings) (i : Nat) : s.set i (s.contents i) = s := by
  have hput : put s.contents i (s.contents i) = s.contents := by
    funext k
    by_cases hk : k = i <;> simp [put, hk]
  rw [Strings.set, hput]

theorem start_refines : Refines cheap .start .empty :=
  ⟨fun _ => Buffer.new_inv _, fun _ => Buffer.new_readable _, rfl, fun _ _ => Nat.le_refl _⟩

private theorem stored {i : Nat} {x : Except Fault Buffer} {b : Buffer} (h : x = .ok b) :
    (do return p.set i (← x)) = Except.ok (ε := Fault) (p.set i b) := by
  rw [h]
  rfl

private theorem advanced {b b' : Buffer} {len : Nat} (h : Buffer.kCheapPrepend ≤ b.prependableBytes)
    (hx : b'.readerIndex = b.readerIndex + len ∨ b' = b.retrieveAll) :
    Buffer.kCheapPrepend ≤ b'.prependableBytes := by
  rw [Buffer.prependableBytes] at h ⊢
  rcases hx with hx | rfl
  · omega
  · exact Nat.le_refl _

private theorem kept {b b' : Buffer} (h : Buffer.kCheapPrepend ≤ b.prependableBytes)
    (hx : min b.readerIndex Buffer.kCheapPrepend ≤ b'.readerIndex) :
    Buffer.kCheapPrepend ≤ b'.prependableBytes := by
  rw [Buffer.prependableBytes] at h ⊢
  omega

/-- One call: within its asserted precondition it returns and does to the string
what its name says. -/
theorem simulates : (machine.restrict fun _ c => cheap → c.isPrepend = false).Simulates spec
    (Refines cheap) := by
  constructor
  rintro p c s h ⟨hp, hc⟩
  cases c with
  | construct i initialSize =>
    exact ⟨_, rfl, h.set (Buffer.new_inv _) (Buffer.new_readable _) fun _ => Nat.le_refl _⟩
  | append i data =>
    obtain ⟨b, hok, hi, hr, hx⟩ := Buffer.append_spec (h.inv i) data
    exact ⟨_, stored hok, h.set hi (by rw [hr, h.contents]) fun q => kept (h.front q i) hx⟩
  | prepend i data =>
    obtain ⟨b, hok, hi, hr⟩ := Buffer.prepend_spec (h.inv i) hp
    exact ⟨_, stored hok, h.set hi (by rw [hr, h.contents]) fun q => nomatch hc q⟩
  | retrieve i len =>
    obtain ⟨b, hok, hi, hr, _, hx⟩ := Buffer.retrieve_spec (h.inv i) hp
    exact ⟨_, stored hok, h.set hi (by rw [hr, h.contents]) fun q => advanced (h.front q i) hx⟩
  | retrieveAll i =>
    exact ⟨_, rfl, h.set (Buffer.retrieveAll_inv (h.inv i)) Buffer.retrieveAll_readable
      fun _ => Nat.le_refl _⟩
  | retrieveUntil i k =>
    have hk : k ≤ (p.buffers i).readableBytes := by
      simp only [machine, pre, Buffer.peek, Buffer.beginWrite] at hp
      rw [Buffer.readableBytes]
      omega
    obtain ⟨b, hok, hi, hr, _, hx⟩ := Buffer.retrieveUntil_spec (h.inv i) hk
    exact ⟨_, stored hok, h.set hi (by rw [hr, h.contents]) fun q => advanced (h.front q i) hx⟩
  | retrieveAsString i len =>
    obtain ⟨b, hok, hi, hr, _, hx⟩ := Buffer.retrieveAsString_spec (h.inv i) hp
    have hs := h.set hi (i := i) (x := (s.contents i).drop len) (by rw [hr, h.contents])
      fun q => advanced (h.front q i) hx
    refine ⟨{ p.set i b with returned := p.returned ++ [(p.buffers i).readable.take len] }, ?_,
      hs.inv, hs.contents, ?_, hs.front⟩
    · change ((p.buffers i).retrieveAsString len >>= _) = _
      rw [hok]
      rfl
    · simp only [spec, h.returned, h.contents]
  | ensureWritableBytes i len =>
    obtain ⟨b, hok, hi, hr, _, hx⟩ := Buffer.ensureWritableBytes_spec (h.inv i) len
    have hs := h.set hi (i := i) (by rw [hr, h.contents]) fun q => kept (h.front q i) hx
    rw [Strings.set_contents] at hs
    exact ⟨_, stored hok, hs⟩
  | write i data =>
    obtain ⟨b', b, hw, hok, hi, hr, hx, _⟩ := Buffer.write_hasWritten_spec (h.inv i) hp
    refine ⟨p.set i b, ?_, h.set hi (by rw [hr, h.contents]) fun q => ?_⟩
    · change ((p.buffers i).writeAtBeginWrite data >>= _) = _
      rw [hw]
      exact stored hok
    · exact kept (h.front q i) (by rw [hx]; exact Nat.min_le_left _ _)
  | unwrite i len =>
    obtain ⟨b, hok, hi, hr, hx⟩ := Buffer.unwrite_spec (h.inv i) hp
    exact ⟨_, stored hok, h.set hi (by rw [hr, h.contents]) fun q =>
      kept (h.front q i) (by rw [hx]; exact Nat.min_le_left _ _)⟩
  | swap i j =>
    exact ⟨_, rfl, (h.set (h.inv j) (h.contents j) fun q => h.front q j).set (h.inv i)
      (h.contents i) fun q => h.front q i⟩

end Muduo.Net.BufferRefinement
