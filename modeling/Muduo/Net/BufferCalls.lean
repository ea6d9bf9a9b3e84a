import Muduo.Net.BufferShrink

/-! Sequences of calls on one buffer: the scatter read, and how far the vector grows. -/
namespace Muduo.Net
open Muduo.Support

/-- A call on a buffer. The end given to `retrieveUntil` is `peek() + k`, and `store`
writes through `beginWrite()`. -/
inductive BufferCall where
  | append (data : Bytes)
  | prepend (data : Bytes)
  | retrieve (len : Nat)
  | retrieveAll
  | retrieveUntil (k : Nat)
  | retrieveAsString (len : Nat)
  | retrieveAllAsString
  | ensureWritableBytes (len : Nat)
  | store (data : Bytes)
  | hasWritten (len : Nat)
  | unwrite (len : Nat)
  | readFd (result : ReadResult)
  deriving DecidableEq, Repr

/-- The lengths of the vectors that `readFd` gives to `readv`. -/
def iovec (b : Buffer) : List Nat :=
  if b.writableBytes < Buffer.kExtraBuf then [b.writableBytes, Buffer.kExtraBuf]
  else [b.writableBytes]

/-- `readv` fills a vector before it goes on to the next. -/
def scatter : List Nat → Bytes → List Bytes
  | [], _ => []
  | len :: iov, bytes => bytes.take len :: scatter iov (bytes.drop len)

/-- The most that `readv` returns. -/
def capacity : List Nat → Nat
  | [] => 0
  | len :: iov => len + capacity iov

/-- `readFd` with its result and `*savedErrno`. -/
def readFd (b : Buffer) (savedErrno : Option Errno) (result : ReadResult) :
    Except Fault (Int × Option Errno × Buffer) :=
  match result with
  | .failed errno => return (-1, some errno, b)
  | .data bytes => do
    let writable := b.writableBytes
    let vec := scatter (iovec b) bytes
    let n := bytes.length
    let b ← b.writeAtBeginWrite (vec.getD 0 [])
    let extrabuf := vec.getD 1 []
    if n ≤ writable then
      return (n, savedErrno, { b with writerIndex := b.writerIndex + n })
    else
      let b ← Buffer.append { b with writerIndex := b.buffer.length }
        (extrabuf.take (n - writable))
      return (n, savedErrno, b)

namespace BufferCall

/-- What a call asserts of its argument, or its caller answers for. -/
def Pre (b : Buffer) : BufferCall → Prop
  | .prepend data => data.length ≤ b.prependableBytes
  | .retrieve len | .retrieveAsString len | .unwrite len => len ≤ b.readableBytes
  | .retrieveUntil k => b.peek + k ≤ b.beginWrite
  | .store data => data.length ≤ b.writableBytes
  | .hasWritten len => len ≤ b.writableBytes
  | .readFd (.data bytes) => bytes.length ≤ capacity (iovec b)
  | .readFd (.failed _) | .append _ | .retrieveAll | .retrieveAllAsString
  | .ensureWritableBytes _ => True

instance (b : Buffer) : (c : BufferCall) → Decidable (c.Pre b)
  | .prepend _ | .retrieve _ | .retrieveAsString _ | .unwrite _ | .retrieveUntil _ | .store _
  | .hasWritten _ | .readFd (.data _) => inferInstanceAs (Decidable (_ ≤ _))
  | .readFd (.failed _) | .append _ | .retrieveAll | .retrieveAllAsString
  | .ensureWritableBytes _ => inferInstanceAs (Decidable True)

def apply (b : Buffer) : BufferCall → Except Fault Buffer
  | .append data => b.append data
  | .prepend data => b.prepend data
  | .retrieve len => b.retrieve len
  | .retrieveAll => return b.retrieveAll
  | .retrieveUntil k => b.retrieveUntil (b.peek + k)
  | .retrieveAsString len => do return (← b.retrieveAsString len).2
  | .retrieveAllAsString => do return (← b.retrieveAllAsString).2
  | .ensureWritableBytes len => b.ensureWritableBytes len
  | .store data => b.writeAtBeginWrite data
  | .hasWritten len => b.hasWritten len
  | .unwrite len => b.unwrite len
  | .readFd result => b.readFd result

end BufferCall

/-- The states of a buffer. `swap` makes no new ones: it exchanges two of them. -/
inductive Reachable : Buffer → Prop where
  | new (initialSize : Nat) : Reachable (.new initialSize)
  | call {b b' : Buffer} (c : BufferCall) (h : Reachable b) (hp : c.Pre b)
      (hs : c.apply b = .ok b') : Reachable b'
  | shrink {b b' : Buffer} (reserve : Nat) (h : Reachable b)
      (hs : BufferShrink.shrink b reserve = .ok b') : Reachable b'

/-- A buffer with the largest `readableBytes() + len` of its calls of
`ensureWritableBytes(len)`. -/
structure Metered where
  buf : Buffer
  peak : Nat
  deriving DecidableEq

namespace Metered

def new (initialSize : Nat) : Metered := ⟨.new initialSize, 0⟩

def ensureWritableBytes (m : Metered) (len : Nat) : Except Fault Metered := do
  let buf ← m.buf.ensureWritableBytes len
  return ⟨buf, max m.peak (m.buf.readableBytes + len)⟩

def append (m : Metered) (data : Bytes) : Except Fault Metered := do
  let m ← m.ensureWritableBytes data.length
  let buf ← m.buf.writeAtBeginWrite data
  let buf ← buf.hasWritten data.length
  return { m with buf }

def readFd (m : Metered) (result : ReadResult) : Except Fault Metered :=
  match result with
  | .failed _ => return m
  | .data bytes => do
    let writable := m.buf.writableBytes
    let buf ← m.buf.writeAtBeginWrite (bytes.take writable)
    if bytes.length ≤ writable then
      return { m with buf := { buf with writerIndex := buf.writerIndex + bytes.length } }
    else
      append { m with buf := { buf with writerIndex := buf.buffer.length } } (bytes.drop writable)

/-- The calls, with a meter on `ensureWritableBytes` wherever it is called from. -/
def apply (m : Metered) : BufferCall → Except Fault Metered
  | .append data => m.append data
  | .ensureWritableBytes len => m.ensureWritableBytes len
  | .readFd result => m.readFd result
  | c => do return { m with buf := ← c.apply m.buf }

def machine : Machine Metered BufferCall := ⟨fun m c => c.Pre m.buf, apply⟩

instance enabledDecidable (m : Metered) (c : BufferCall) : Decidable (machine.enabled m c) :=
  inferInstanceAs (Decidable (c.Pre m.buf))

theorem append_buf (m : Metered) (data : Bytes) :
    Metered.buf <$> m.append data = m.buf.append data := by
  simp only [append, ensureWritableBytes, Buffer.append, bind_assoc, pure_bind, map_bind,
    map_pure, bind_pure]

theorem readFd_buf (m : Metered) (result : ReadResult) :
    Metered.buf <$> m.readFd result = m.buf.readFd result := by
  cases result with
  | failed errno => rfl
  | data bytes =>
    simp only [readFd, Buffer.readFd, map_bind]
    apply bind_congr
    intro b
    split
    · rfl
    · exact append_buf _ _

/-- The meter does not change what a call does. -/
theorem apply_buf (m : Metered) (c : BufferCall) :
    Metered.buf <$> m.apply c = c.apply m.buf := by
  cases c with
  | append data => exact append_buf m data
  | readFd result => exact readFd_buf m result
  | ensureWritableBytes len =>
    simp only [apply, ensureWritableBytes, BufferCall.apply, map_bind, map_pure, bind_pure]
  | _ => simp only [apply, map_bind, map_pure, bind_pure]

end Metered

variable {b b' : Buffer} {len : Nat}

/-- The vector grows only where `makeSpace` cannot move, and then at most to twice of what
is asked for: the dead bytes in front are fewer than those wanted behind. -/
theorem Buffer.ensureWritableBytes_length (h : b.Inv)
    (hok : b.ensureWritableBytes len = .ok b') :
    b'.buffer.length = b.buffer.length ∨
      b.buffer.length < b.readableBytes + len + kCheapPrepend ∧
        b'.buffer.length ≤ 2 * (b.readableBytes + len) + kCheapPrepend := by
  have hr := h.reader_le
  have hw := h.writer_le
  rw [ensureWritableBytes] at hok
  by_cases hlt : b.writableBytes < len
  · rw [if_pos hlt] at hok
    obtain ⟨b₁, hm, hok⟩ := bind_ok.mp hok
    obtain ⟨_, hok⟩ := assert_bind_ok.mp hok
    cases hok
    unfold readableBytes
    rcases makeSpace_length h hm with ⟨hg, hlen⟩ | hlen
    · unfold writableBytes prependableBytes at hg
      omega
    · exact .inl hlen
  · rw [if_neg hlt] at hok
    obtain ⟨b₁, hm, hok⟩ := bind_ok.mp hok
    obtain ⟨_, hok⟩ := assert_bind_ok.mp hok
    cases hok
    cases hm
    exact .inl rfl

namespace Metered
variable {m : Metered} {initialSize : Nat}

/-- The vector is no longer than it began, or than twice the peak. -/
structure Bounded (initialSize : Nat) (m : Metered) : Prop where
  inv : m.buf.Inv
  size : m.buf.buffer.length ≤
    max (Buffer.kCheapPrepend + initialSize) (2 * m.peak + Buffer.kCheapPrepend)

theorem new_bounded (initialSize : Nat) : Bounded initialSize (new initialSize) := by
  refine ⟨Buffer.new_inv initialSize, ?_⟩
  have hlen : (Buffer.new initialSize).buffer.length = Buffer.kCheapPrepend + initialSize :=
    List.length_replicate
  rw [new, hlen]
  exact Nat.le_max_left _ _

/-- A call that leaves the size of the vector. -/
theorem Bounded.stay (h : Bounded initialSize m) {b : Buffer} (hi : b.Inv)
    (hl : b.buffer.length = m.buf.buffer.length) : Bounded initialSize { m with buf := b } :=
  ⟨hi, by rw [hl]; exact h.size⟩

theorem Bounded.ensure (h : Bounded initialSize m) (len : Nat) : ∃ m',
    m.ensureWritableBytes len = .ok m' ∧ Bounded initialSize m' ∧ len ≤ m'.buf.writableBytes := by
  obtain ⟨b, hok, hi, _, hroom, _⟩ := Buffer.ensureWritableBytes_spec h.inv len
  have hsize := h.size
  refine ⟨⟨b, max m.peak (m.buf.readableBytes + len)⟩, ?_, ⟨hi, ?_⟩, hroom⟩
  · rw [ensureWritableBytes, hok]
    rfl
  · dsimp only
    rcases Buffer.ensureWritableBytes_length h.inv hok with hl | ⟨_, hl⟩
    · omega
    · omega

theorem Bounded.append (h : Bounded initialSize m) (data : Bytes) : ∃ m',
    m.append data = .ok m' ∧ Bounded initialSize m' := by
  obtain ⟨m₁, hok, hb, hroom⟩ := h.ensure data.length
  obtain ⟨b₂, b₃, hw, hh, hi, _, _, hl, _⟩ := Buffer.write_hasWritten_spec hb.inv hroom
  refine ⟨{ m₁ with buf := b₃ }, ?_, hb.stay hi hl⟩
  rw [Metered.append, hok, ok_bind, hw, ok_bind, hh]
  rfl

theorem Bounded.readFd (h : Bounded initialSize m) (result : ReadResult) : ∃ m',
    m.readFd result = .ok m' ∧ Bounded initialSize m' := by
  cases result with
  | failed errno => exact ⟨m, rfl, h⟩
  | data bytes =>
    have hreader := h.inv.reader_le
    have hwriter := h.inv.writer_le
    have hcheap := h.inv.cheap_le
    have hroom : (bytes.take m.buf.writableBytes).length ≤ m.buf.writableBytes := by
      rw [List.length_take]
      exact Nat.min_le_left _ _
    obtain ⟨b₁, b₂, hw, _, _, _, _, hl, _, hb₁, hbuf⟩ := Buffer.write_hasWritten_spec h.inv hroom
    rw [hbuf] at hl
    have hrd : b₁.readerIndex = m.buf.readerIndex := by rw [hb₁]
    have hwr : b₁.writerIndex = m.buf.writerIndex := by rw [hb₁]
    simp only [Metered.readFd, hw, ok_bind]
    split
    · next hle =>
      unfold Buffer.writableBytes at hle
      refine ⟨_, rfl, h.stay ⟨?_, ?_, ?_⟩ hl⟩
      · dsimp only
        omega
      · dsimp only
        omega
      · rw [hl]
        exact hcheap
    · have hfull : Buffer.Inv { b₁ with writerIndex := b₁.buffer.length } := by
        refine ⟨?_, Nat.le_refl _, ?_⟩
        · dsimp only
          omega
        · rw [hl]
          exact hcheap
      exact (h.stay hfull hl).append _

/-- A call that does not ask for room. -/
private theorem Bounded.plain (h : Bounded initialSize m) {x : Except Fault Buffer} {b : Buffer}
    (hx : x = .ok b) (hi : b.Inv) (hl : b.buffer.length = m.buf.buffer.length) : ∃ m',
      (do return { m with buf := ← x }) = Except.ok (ε := Fault) m' ∧ Bounded initialSize m' := by
  rw [hx]
  exact ⟨_, rfl, h.stay hi hl⟩

/-- A call within its precondition returns and keeps the bound. -/
theorem Bounded.apply (h : Bounded initialSize m) {c : BufferCall} (hp : c.Pre m.buf) :
    ∃ m', m.apply c = .ok m' ∧ Bounded initialSize m' := by
  cases c with
  | append data => exact h.append data
  | ensureWritableBytes len =>
    obtain ⟨m', hok, hb, _⟩ := h.ensure len
    exact ⟨m', hok, hb⟩
  | readFd result => exact h.readFd result
  | prepend data =>
    obtain ⟨b, hok, hi, _⟩ := Buffer.prepend_spec h.inv hp
    exact h.plain hok hi (Buffer.prepend_length hok)
  | retrieve len =>
    obtain ⟨b, hok, hi, _, hl, _⟩ := Buffer.retrieve_spec h.inv hp
    exact h.plain hok hi (congrArg List.length hl)
  | retrieveAll => exact h.plain rfl (Buffer.retrieveAll_inv h.inv) rfl
  | retrieveUntil k =>
    have hk : k ≤ m.buf.readableBytes := by
      have hp' : m.buf.readerIndex + k ≤ m.buf.writerIndex := hp
      unfold Buffer.readableBytes
      omega
    obtain ⟨b, hok, hi, _, hl, _⟩ := Buffer.retrieveUntil_spec h.inv hk
    exact h.plain hok hi (congrArg List.length hl)
  | retrieveAsString len =>
    obtain ⟨b, hok, hi, _, hl, _⟩ := Buffer.retrieveAsString_spec h.inv hp
    refine h.plain (b := b) ?_ hi (congrArg List.length hl)
    rw [BufferCall.apply, hok]
    rfl
  | retrieveAllAsString =>
    obtain ⟨b, hok, hi, _, hl, _⟩ :=
      Buffer.retrieveAsString_spec h.inv (Nat.le_refl m.buf.readableBytes)
    refine h.plain (b := b) ?_ hi (congrArg List.length hl)
    rw [BufferCall.apply, Buffer.retrieveAllAsString, hok]
    rfl
  | store data =>
    obtain ⟨b, b₂, hok, _, hi, _, hrd, hl, hwr, hb, hbuf⟩ := Buffer.write_hasWritten_spec h.inv hp
    rw [hbuf] at hl
    refine h.plain hok ?_ hl
    rw [hb]
    exact ⟨h.inv.reader_le, by rw [hl]; exact h.inv.writer_le, by rw [hl]; exact h.inv.cheap_le⟩
  | hasWritten len =>
    have hreader := h.inv.reader_le
    have hroom : len ≤ m.buf.writableBytes := hp
    have hwriter := h.inv.writer_le
    have hok : m.buf.hasWritten len =
        .ok { m.buf with writerIndex := m.buf.writerIndex + len } := by
      rw [Buffer.hasWritten, assert_true hroom]
      rfl
    unfold Buffer.writableBytes at hroom
    refine h.plain hok ⟨?_, ?_, h.inv.cheap_le⟩ rfl
    · dsimp only
      omega
    · dsimp only
      omega
  | unwrite len =>
    obtain ⟨b, hok, hi, _⟩ := Buffer.unwrite_spec h.inv hp
    exact h.plain hok hi (congrArg List.length (Buffer.unwrite_buffer hok))

/-- However much has passed through, the vector is bounded by the peak of what was buffered
and asked for at once, and it does not grow while there is room for that in it. -/
theorem memory_bounded {calls : List BufferCall} (h : machine.Run (new initialSize) calls m) :
    m.buf.buffer.length ≤
        max (Buffer.kCheapPrepend + initialSize) (2 * m.peak + Buffer.kCheapPrepend) ∧
      ∀ len, m.buf.readableBytes + len + Buffer.kCheapPrepend ≤ m.buf.buffer.length →
        ∃ b, m.buf.ensureWritableBytes len = .ok b ∧
          b.buffer.length = m.buf.buffer.length := by
  have hb : Bounded initialSize m := by
    apply h.invariant (I := Bounded initialSize)
    · intro m c m' hb hp hok
      obtain ⟨m'', hok', hb'⟩ := hb.apply hp
      cases hok.symm.trans hok'
      exact hb'
    · exact new_bounded initialSize
  refine ⟨hb.size, fun len hlen => ?_⟩
  obtain ⟨b, hok, _⟩ := Buffer.ensureWritableBytes_spec hb.inv len
  refine ⟨b, hok, (Buffer.ensureWritableBytes_length hb.inv hok).resolve_right ?_⟩
  rintro ⟨hlt, _⟩
  omega

/-- A stream of small messages through a small buffer moves and does not grow. -/
theorem memory_bounded_sample : ∃ m, machine.Run (new 4) [.append [1, 2, 3], .retrieve 2,
      .append [4, 5, 6], .retrieve 3, .readFd (.data [7, 8, 9]), .ensureWritableBytes 2] m ∧
    m.buf.buffer.length ≤
        max (Buffer.kCheapPrepend + 4) (2 * m.peak + Buffer.kCheapPrepend) ∧
      ∀ len, m.buf.readableBytes + len + Buffer.kCheapPrepend ≤ m.buf.buffer.length →
        ∃ b, m.buf.ensureWritableBytes len = .ok b ∧
          b.buffer.length = m.buf.buffer.length := by
  obtain ⟨m, hr, _⟩ := machine.exists_run (new 4) [.append [1, 2, 3], .retrieve 2,
    .append [4, 5, 6], .retrieve 3, .readFd (.data [7, 8, 9]), .ensureWritableBytes 2]
    (fun m => m.peak) 6 (by decide +kernel)
  exact ⟨m, hr, memory_bounded hr⟩

end Metered

theorem Reachable.inv (h : Reachable b) : b.Inv := by
  induction h with
  | new initialSize => exact Buffer.new_inv initialSize
  | @call b b' c _ hp hs ih =>
    have hb : Metered.Bounded b.buffer.length ⟨b, 0⟩ := ⟨ih, by dsimp only; omega⟩
    obtain ⟨m, hok, hm⟩ := hb.apply hp
    have hbuf := Metered.apply_buf ⟨b, 0⟩ c
    rw [hok, hs] at hbuf
    cases hbuf
    exact hm.inv
  | shrink reserve _ hs ih => exact (BufferShrink.shrink_ok ih hs).2.2.1.toInv

/-- Within the capacity of the vectors, what `readv` put in them is the input, cut at the
writable space. -/
private theorem scatter_iovec {bytes : Bytes} (hn : bytes.length ≤ capacity (iovec b)) :
    (scatter (iovec b) bytes).getD 0 [] = bytes.take b.writableBytes ∧
      ((scatter (iovec b) bytes).getD 1 []).take (bytes.length - b.writableBytes) =
        bytes.drop b.writableBytes := by
  unfold iovec at hn ⊢
  split
  · next hlt =>
    rw [if_pos hlt] at hn
    simp only [capacity, Nat.add_zero] at hn
    refine ⟨rfl, ?_⟩
    have hfits : (bytes.drop b.writableBytes).length ≤ Buffer.kExtraBuf := by
      rw [List.length_drop]
      omega
    change ((bytes.drop b.writableBytes).take Buffer.kExtraBuf).take _ = _
    rw [List.take_of_length_le hfits, List.take_of_length_le (List.length_drop ..).le]
  · next hge =>
    rw [if_neg hge] at hn
    simp only [capacity, Nat.add_zero] at hn
    refine ⟨rfl, ?_⟩
    rw [List.drop_of_length_le hn]
    exact List.take_nil

/-- A scatter read is an append of the bytes read; a failed one leaves the buffer. -/
theorem readFd_appends (h : Reachable b) (savedErrno : Option Errno) :
    (∀ bytes : Bytes, bytes.length ≤ capacity (iovec b) → ∃ b' : Buffer,
      readFd b savedErrno (.data bytes) = .ok (bytes.length, savedErrno, b') ∧ b'.Inv ∧
        b'.readable = b.readable ++ bytes) ∧
      ∀ errno, readFd b savedErrno (.failed errno) = .ok (-1, some errno, b) := by
  refine ⟨fun bytes hn => ?_, fun errno => rfl⟩
  obtain ⟨hfirst, hrest⟩ := scatter_iovec hn
  obtain ⟨b', hok, hi, hr⟩ := Buffer.readFd_spec h.inv bytes
  refine ⟨b', ?_, hi, hr⟩
  unfold readFd
  dsimp only
  rw [hfirst, hrest]
  obtain ⟨b₁, hw, hok⟩ := bind_ok.mp hok
  rw [hw, ok_bind]
  by_cases hle : bytes.length ≤ b.writableBytes
  · rw [if_pos hle] at hok ⊢
    cases hok
    rfl
  · rw [if_neg hle] at hok ⊢
    rw [hok]
    rfl

/-- Three bytes behind one that is there already, with room for one of them in the vector. -/
theorem readFd_appends_sample : ∃ b b' : Buffer, Reachable b ∧ b.readable = [1] ∧
    b.writableBytes = 1 ∧ readFd b none (.data [7, 8, 9]) = .ok (3, none, b') ∧
    b'.readable = [1, 7, 8, 9] ∧ readFd b none (.failed .EINTR) = .ok (-1, some .EINTR, b) := by
  obtain ⟨b, hok, _⟩ := Buffer.append_spec (Buffer.new_inv 2) [1]
  have hb : b.readable = [1] ∧ b.writableBytes = 1 := by
    cases hok
    decide
  have hreach : Reachable b := .call (.append [1]) (.new 2) trivial hok
  obtain ⟨hdata, hfailed⟩ := readFd_appends hreach none
  have hroom : [7, 8, 9].length ≤ capacity (iovec b) := by
    rw [iovec, hb.2]
    decide
  obtain ⟨b', hread, _, hr⟩ := hdata [7, 8, 9] hroom
  exact ⟨b, b', hreach, hb.1, hb.2, hread, by rw [hr, hb.1]; rfl, hfailed .EINTR⟩

end Muduo.Net
