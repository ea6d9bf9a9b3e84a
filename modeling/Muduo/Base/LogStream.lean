import Muduo.Base.Convert

/-! `muduo::LogStream`: items streamed into a buffer of fixed size. An item is appended when
the buffer has room for it, or formatted in place when there is room for any number, and is
dropped otherwise. -/
namespace Muduo.Base
open Muduo.Support

def kSmallBuffer : Nat := 4000

/-- `implicit_cast<size_t>` of an `int`. -/
def implicitCast (i : Int) : Nat := (i % 18446744073709551616).toNat

/-- `data_` and the position of `cur_` in it. -/
structure FixedBuffer (SIZE : Nat) where
  data : List UInt8
  cur : Nat

namespace FixedBuffer
variable {SIZE : Nat}

def length (b : FixedBuffer SIZE) : Int := b.cur

def avail (b : FixedBuffer SIZE) : Int := SIZE - b.cur

def append (b : FixedBuffer SIZE) (buf : List UInt8) : Except Fault (FixedBuffer SIZE) :=
  if implicitCast b.avail > buf.length then do
    let data ← StdVector.copyIn b.data b.cur buf
    return ⟨data, b.cur + buf.length⟩
  else return b

def add (b : FixedBuffer SIZE) (len : Nat) : FixedBuffer SIZE := { b with cur := b.cur + len }

def reset (b : FixedBuffer SIZE) : FixedBuffer SIZE := { b with cur := 0 }

def debugString (b : FixedBuffer SIZE) : Except Fault (FixedBuffer SIZE) := do
  let data ← StdVector.store b.data b.cur 0
  return { b with data }

def toStringPiece (b : FixedBuffer SIZE) : List UInt8 := b.data.take b.cur

/-- The cursor is inside the array. -/
structure Inv (b : FixedBuffer SIZE) : Prop where
  size : b.data.length = SIZE
  inside : b.cur < SIZE

end FixedBuffer

/-- What `snprintf` left in 32 bytes, without its NUL. -/
structure Printed where
  text : List UInt8
  short : text.length < 32

/-- What is streamed. A C string is the memory at the pointer, `none` the null pointer; a
`double` is what `%.12g` made of it, and a `Fmt` what it holds. -/
inductive Item where
  | bool (v : Bool)
  | short (v : Int16)
  | unsignedShort (v : UInt16)
  | integer (v : Integer)
  | pointer (p : UInt64)
  | double (v : Printed)
  | char (v : UInt8)
  | cString (str : Option (List UInt8))
  | string (v : List UInt8)
  | stringPiece (v : List UInt8)
  | buffer (v : FixedBuffer kSmallBuffer)
  | fmt (v : Printed)

def Integer.ofShort (v : Int16) : Integer :=
  ⟨.int, v.toInt, by have := v.le_toInt; change -2 ^ 31 ≤ _; omega,
    by have := v.toInt_lt; change _ ≤ 2 ^ 31 - 1; omega⟩

def Integer.ofUnsignedShort (v : UInt16) : Integer :=
  ⟨.unsignedInt, v.toNat, Int.natCast_nonneg _,
    by have := v.toNat_lt; change _ ≤ 2 ^ 32 - 1; omega⟩

abbrev LogStream := FixedBuffer kSmallBuffer

namespace LogStream

def formatInteger (s : LogStream) (v : Integer) : Except Fault LogStream :=
  if s.avail ≥ kMaxNumericSize then do
    let (data, len) ← convert s.data s.cur v.value
    return FixedBuffer.add ⟨data, s.cur⟩ len
  else return s

def formatPointer (s : LogStream) (p : UInt64) : Except Fault LogStream :=
  if s.avail ≥ kMaxNumericSize then do
    let data ← StdVector.store s.data s.cur 48
    let data ← StdVector.store data (s.cur + 1) 120
    let (data, len) ← convertHex data (s.cur + 2) p
    return FixedBuffer.add ⟨data, s.cur⟩ (len + 2)
  else return s

def formatDouble (s : LogStream) (v : Printed) : Except Fault LogStream :=
  if s.avail ≥ kMaxNumericSize then do
    let data ← StdVector.copyIn s.data s.cur (v.text ++ [0])
    return FixedBuffer.add ⟨data, s.cur⟩ v.text.length
  else return s

/-- The characters of a C string, of which `strlen` is the number. -/
def cChars (str : List UInt8) : List UInt8 := str.takeWhile (· ≠ 0)

/-- `operator <<`. -/
def insert (s : LogStream) : Item → Except Fault LogStream
  | .bool v => s.append (if v then ascii ['1'] else ascii ['0'])
  | .short v => formatInteger s (.ofShort v)
  | .unsignedShort v => formatInteger s (.ofUnsignedShort v)
  | .integer v => formatInteger s v
  | .pointer p => formatPointer s p
  | .double v => formatDouble s v
  | .char v => s.append [v]
  | .cString (some str) => s.append (cChars str)
  | .cString none => s.append (ascii "(null)".toList)
  | .string v => s.append v
  | .stringPiece v => s.append v
  | .buffer v => s.append v.toStringPiece
  | .fmt v => s.append v.text

end LogStream

namespace Item

/-- The complete rendering of an item. -/
def render : Item → List UInt8
  | bool v => if v then ascii ['1'] else ascii ['0']
  | short v => decimalText v.toInt
  | unsignedShort v => decimalText v.toNat
  | integer v => decimalText v.value
  | pointer p => ascii ['0', 'x'] ++ numeralText 16 p.toNat
  | double v | fmt v => v.text
  | char v => [v]
  | cString (some str) => LogStream.cChars str
  | cString none => ascii "(null)".toList
  | string v | stringPiece v => v
  | buffer v => v.toStringPiece

/-- The items that are formatted in place. -/
def inPlace : Item → Bool
  | short _ | unsignedShort _ | integer _ | pointer _ | double _ => true
  | bool _ | char _ | cString _ | string _ | stringPiece _ | buffer _ | fmt _ => false

/-- The room that a stream with `n` bytes in it must have for the item. -/
def Fits (n : Nat) (i : Item) : Prop :=
  if i.inPlace then n + kMaxNumericSize ≤ kSmallBuffer else n + i.render.length < kSmallBuffer

instance (n : Nat) (i : Item) : Decidable (i.Fits n) :=
  inferInstanceAs (Decidable (if i.inPlace then _ else _))

end Item

/-- A stream as the bytes in it: an item is appended entirely or not at all. -/
def appended (content : List UInt8) (i : Item) : List UInt8 :=
  if i.Fits content.length then content ++ i.render else content

namespace LogStream
variable {s : LogStream}

/-- Bytes copied to the cursor, with or without a NUL behind them, extend the content. -/
theorem exists_copyIn (hs : s.Inv) (text pad : List UInt8)
    (h : s.cur + (text ++ pad).length ≤ kSmallBuffer) (hlt : s.cur + text.length < kSmallBuffer) :
    ∃ data, StdVector.copyIn s.data s.cur (text ++ pad) = .ok data ∧
      FixedBuffer.Inv (⟨data, s.cur + text.length⟩ : LogStream) ∧
      data.take (s.cur + text.length) = s.toStringPiece ++ text := by
  have hd : s.cur + (text ++ pad).length ≤ s.data.length := by rw [hs.size]; exact h
  have hl : (s.data.take s.cur).length = s.cur := by
    rw [List.length_take, Nat.min_eq_left (Nat.le_of_add_right_le hd)]
  refine ⟨_, StdVector.copyIn_eq s.data s.cur _ hd, ⟨?_, hlt⟩, ?_⟩
  · rw [StdVector.copyIn_length (StdVector.copyIn_eq s.data s.cur _ hd), hs.size]
  · have hassoc : s.data.take s.cur ++ (text ++ pad) ++ s.data.drop (s.cur + (text ++ pad).length) =
        (s.data.take s.cur ++ text) ++ (pad ++ s.data.drop (s.cur + (text ++ pad).length)) := by
      simp only [List.append_assoc]
    rw [hassoc, List.take_left' (by rw [List.length_append, hl])]
    rfl

theorem toStringPiece_length (hs : s.Inv) : s.toStringPiece.length = s.cur := by
  rw [FixedBuffer.toStringPiece, List.length_take, hs.size, Nat.min_eq_left hs.inside.le]

/-- What a call leaves: a stream whose content is `content`. -/
def Leaves (r : Except Fault LogStream) (content : List UInt8) : Prop :=
  ∃ t : LogStream, r = .ok t ∧ t.Inv ∧ t.toStringPiece = content

theorem append_spec (hs : s.Inv) (text : List UInt8) :
    Leaves (s.append text) (if s.cur + text.length < kSmallBuffer then s.toStringPiece ++ text
      else s.toStringPiece) := by
  have hin := hs.inside
  have havail : implicitCast s.avail = kSmallBuffer - s.cur := by
    have hk : kSmallBuffer = 4000 := rfl
    rw [implicitCast, FixedBuffer.avail]
    omega
  rw [FixedBuffer.append, havail]
  by_cases h : s.cur + text.length < kSmallBuffer
  · obtain ⟨data, hcopy, hinv, hcontent⟩ := exists_copyIn hs text [] (by simpa using h.le) h
    rw [List.append_nil] at hcopy
    rw [if_pos (by omega), if_pos h, hcopy]
    exact ⟨_, rfl, hinv, hcontent⟩
  · rw [if_neg (by omega), if_neg h]
    exact ⟨s, rfl, hs, rfl⟩

/-- A writer in place writes when there is room for any number. -/
theorem inPlace_spec (hs : s.Inv) {write : Except Fault LogStream} {text : List UInt8}
    (h : s.cur + 32 ≤ 4000 → Leaves write (s.toStringPiece ++ text)) :
    Leaves (if s.avail ≥ kMaxNumericSize then write else return s)
      (if s.cur + kMaxNumericSize ≤ kSmallBuffer then s.toStringPiece ++ text
        else s.toStringPiece) := by
  have hiff : s.avail ≥ kMaxNumericSize ↔ s.cur + kMaxNumericSize ≤ kSmallBuffer := by
    rw [FixedBuffer.avail]
    omega
  by_cases hroom : s.cur + kMaxNumericSize ≤ kSmallBuffer
  · rw [if_pos (hiff.mpr hroom), if_pos hroom]
    exact h hroom
  · rw [if_neg fun ha => hroom (hiff.mp ha), if_neg hroom]
    exact ⟨s, rfl, hs, rfl⟩

/-- A number of at most 31 characters and its NUL fit in the room. -/
theorem exists_copyIn_number (hs : s.Inv) (hroom : s.cur + 32 ≤ 4000) (text : List UInt8)
    (h : text.length ≤ 31) :
    ∃ data, StdVector.copyIn s.data s.cur (text ++ [0]) = .ok data ∧
      FixedBuffer.Inv (⟨data, s.cur + text.length⟩ : LogStream) ∧
      data.take (s.cur + text.length) = s.toStringPiece ++ text := by
  have hk : kSmallBuffer = 4000 := rfl
  apply exists_copyIn hs
  · rw [List.length_append, List.length_singleton]
    omega
  · omega

theorem formatInteger_spec (hs : s.Inv) (v : Integer) :
    Leaves (formatInteger s v) (if s.cur + kMaxNumericSize ≤ kSmallBuffer then
      s.toStringPiece ++ decimalText v.value else s.toStringPiece) := by
  refine inPlace_spec hs fun hroom => ?_
  have hlen := decimalText_length_le v
  have hk : kSmallBuffer = 4000 := rfl
  obtain ⟨data, hcopy, hinv, hcontent⟩ :=
    exists_copyIn_number hs hroom (decimalText v.value) (by omega)
  rw [convert_eq v.value (by rw [hs.size]; omega), hcopy]
  exact ⟨_, rfl, hinv, hcontent⟩

theorem formatPointer_spec (hs : s.Inv) (p : UInt64) :
    Leaves (formatPointer s p) (if s.cur + kMaxNumericSize ≤ kSmallBuffer then
      s.toStringPiece ++ (ascii ['0', 'x'] ++ numeralText 16 p.toNat) else s.toStringPiece) := by
  refine inPlace_spec hs fun hroom => ?_
  have hlen := hexText_length_le p
  have hk : kSmallBuffer = 4000 := rfl
  have htext : (ascii ['0', 'x'] ++ numeralText 16 p.toNat).length =
      (numeralText 16 p.toNat).length + 2 := by
    rw [List.length_append, Nat.add_comm]
    rfl
  obtain ⟨data, hcopy, hinv, hcontent⟩ :=
    exists_copyIn_number hs hroom (ascii ['0', 'x'] ++ numeralText 16 p.toNat) (by omega)
  -- the prefix is stored byte by byte, which is how the copy goes too
  change StdVector.copyIn s.data s.cur (48 :: 120 :: (numeralText 16 p.toNat ++ [0])) = _ at hcopy
  rw [StdVector.copyIn] at hcopy
  obtain ⟨u, hu, hcopy⟩ := bind_ok.mp hcopy
  rw [StdVector.copyIn] at hcopy
  obtain ⟨w, hw, hcopy⟩ := bind_ok.mp hcopy
  have hsize : w.length = kSmallBuffer := by
    rw [← StdVector.copyIn_singleton] at hu hw
    rw [StdVector.copyIn_length hw, StdVector.copyIn_length hu, hs.size]
  rw [hu, ok_bind, hw, ok_bind, convertHex_eq p (by omega), hcopy]
  rw [htext] at hinv hcontent
  exact ⟨_, rfl, hinv, hcontent⟩

theorem formatDouble_spec (hs : s.Inv) (v : Printed) :
    Leaves (formatDouble s v) (if s.cur + kMaxNumericSize ≤ kSmallBuffer then
      s.toStringPiece ++ v.text else s.toStringPiece) := by
  refine inPlace_spec hs fun hroom => ?_
  obtain ⟨data, hcopy, hinv, hcontent⟩ :=
    exists_copyIn_number hs hroom v.text (Nat.le_of_lt_succ v.short)
  rw [hcopy]
  exact ⟨_, rfl, hinv, hcontent⟩

/-- The stream refines its bytes. -/
theorem insert_spec (hs : s.Inv) (i : Item) :
    Leaves (s.insert i) (appended s.toStringPiece i) := by
  rw [appended, toStringPiece_length hs]
  cases i with
  | bool v => exact append_spec hs _
  | short v => exact formatInteger_spec hs _
  | unsignedShort v => exact formatInteger_spec hs _
  | integer v => exact formatInteger_spec hs v
  | pointer p => exact formatPointer_spec hs p
  | double v => exact formatDouble_spec hs v
  | char v => exact append_spec hs _
  | cString str =>
    cases str with
    | none => exact append_spec hs _
    | some str => exact append_spec hs _
  | string v => exact append_spec hs _
  | stringPiece v => exact append_spec hs _
  | buffer v => exact append_spec hs _
  | fmt v => exact append_spec hs _

theorem debugString_spec (hs : s.Inv) : Leaves s.debugString s.toStringPiece := by
  have hin := hs.inside
  obtain ⟨data, hcopy, hinv, hcontent⟩ := exists_copyIn hs [] [0] hin hin
  rw [List.nil_append, StdVector.copyIn_singleton] at hcopy
  rw [List.append_nil] at hcontent
  rw [FixedBuffer.debugString, hcopy]
  exact ⟨_, rfl, hinv, hcontent⟩

/-- A stream whose array holds anything. -/
def new (data : Vector UInt8 kSmallBuffer) : LogStream := ⟨data.toList, 0⟩

theorem new_inv (data : Vector UInt8 kSmallBuffer) : (new data).Inv :=
  ⟨data.length_toList, Nat.zero_lt_succ _⟩

inductive Call where
  | insert (i : Item)
  | resetBuffer
  | debugString

def machine : Machine LogStream Call where
  enabled := fun _ _ => True
  step
    | s, .insert i => s.insert i
    | s, .resetBuffer => return s.reset
    | s, .debugString => s.debugString

/-- The items streamed since the last reset, when `items` were before. -/
def Call.track (items : List Item) : Call → List Item
  | insert i => items ++ [i]
  | resetBuffer => []
  | debugString => items

def sinceReset (calls : List Call) : List Item := calls.foldl Call.track []

/-- A sound stream whose content is complete renderings of some of `items`, in their order. -/
structure Renders (items : List Item) (s : LogStream) : Prop where
  inv : s.Inv
  content : ∃ kept : List Item, kept.Sublist items ∧ s.toStringPiece = kept.flatMap Item.render

theorem exists_kept_appended {items kept : List Item} {content : List UInt8} (i : Item)
    (hkept : kept.Sublist items) (hcontent : content = kept.flatMap Item.render) :
    ∃ kept' : List Item, kept'.Sublist (items ++ [i]) ∧
      appended content i = kept'.flatMap Item.render := by
  rw [appended]
  split
  · refine ⟨kept ++ [i], hkept.append (List.Sublist.refl [i]), ?_⟩
    rw [hcontent, List.flatMap_append, List.flatMap_singleton]
  · exact ⟨kept, hkept.trans (List.sublist_append_left items [i]), hcontent⟩

theorem prefix_appended (content : List UInt8) (i : Item) : content <+: appended content i := by
  rw [appended]
  split
  · exact List.prefix_append _ _
  · exact List.prefix_rfl

theorem step_renders {items : List Item} (h : Renders items s) (c : Call) :
    ∃ t, machine.step s c = .ok t ∧ Renders (c.track items) t ∧
      (c = .resetBuffer ∨ s.toStringPiece <+: t.toStringPiece) := by
  obtain ⟨hinv, kept, hkept, hcontent⟩ := h
  cases c with
  | insert i =>
    obtain ⟨t, hok, ht, happended⟩ := insert_spec hinv i
    refine ⟨t, hok, ⟨ht, ?_⟩, .inr ?_⟩
    · rw [happended]
      exact exists_kept_appended i hkept hcontent
    · rw [happended]
      exact prefix_appended _ i
  | resetBuffer =>
    exact ⟨s.reset, rfl, ⟨⟨hinv.size, Nat.zero_lt_succ _⟩, [], List.Sublist.refl [], rfl⟩, .inl rfl⟩
  | debugString =>
    obtain ⟨t, hok, ht, hsame⟩ := debugString_spec hinv
    refine ⟨t, hok, ⟨ht, kept, hkept, ?_⟩, .inr ?_⟩
    · rw [hsame, hcontent]
    · rw [hsame]

theorem run_renders {items : List Item} (h : Renders items s) (calls : List Call) :
    ∃ t, machine.Run s calls t ∧ Renders (calls.foldl Call.track items) t := by
  induction calls generalizing items s with
  | nil => exact ⟨s, .nil s, h⟩
  | cons c calls ih =>
    obtain ⟨t, hok, ht, _⟩ := step_renders h c
    obtain ⟨u, hrun, hu⟩ := ih ht
    exact ⟨u, .cons trivial hok hrun, hu⟩

/-- After any calls on a stream, whatever its array held: no byte was written outside the
array, the cursor is inside it, the content is complete renderings of some of the items since
the last reset, in their order, and no further call but a reset changes it except by adding. -/
theorem stream_safe (data : Vector UInt8 kSmallBuffer) (calls : List Call) :
    ∃ s, machine.Run (new data) calls s ∧ s.data.length = kSmallBuffer ∧
      0 ≤ s.length ∧ s.length ≤ kSmallBuffer - 1 ∧
      (∃ kept : List Item, kept.Sublist (sinceReset calls) ∧ s.toStringPiece = kept.flatMap Item.render) ∧
      ∀ c, ∃ t, machine.step s c = .ok t ∧
        (c = .resetBuffer ∨ s.toStringPiece <+: t.toStringPiece) := by
  have hnew : Renders [] (new data) := ⟨new_inv data, [], List.Sublist.refl [], rfl⟩
  obtain ⟨s, hrun, hs⟩ := run_renders hnew calls
  refine ⟨s, hrun, hs.inv.size, Int.natCast_nonneg _, ?_, hs.content, ?_⟩
  · have hin := hs.inv.inside
    have hk : kSmallBuffer = 4000 := rfl
    rw [FixedBuffer.length]
    omega
  · intro c
    obtain ⟨t, hok, _, hprefix⟩ := step_renders hs c
    exact ⟨t, hok, hprefix⟩

end LogStream
end Muduo.Base
