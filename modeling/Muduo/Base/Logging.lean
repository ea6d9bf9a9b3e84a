import Muduo.Base.LogStream
import Muduo.Base.LogTime
import Mathlib.Data.List.DropRight

/-! `muduo::Logger`: the fields in front of a record, the items of the message, and the source
file and line behind it, all streamed through one `LogStream`. -/
namespace Muduo.Base
open Muduo.Support

inductive LogLevel where
  | trace | debug | info | warn | error | fatal
  deriving DecidableEq, Repr

/-- `LogLevelName`. -/
def LogLevel.name : LogLevel → List UInt8
  | trace => ascii "TRACE ".toList
  | debug => ascii "DEBUG ".toList
  | info => ascii "INFO  ".toList
  | warn => ascii "WARN  ".toList
  | error => ascii "ERROR ".toList
  | fatal => ascii "FATAL ".toList

/-- A `SourceFile`: what stands behind the last slash of a path. -/
def sourceFile (path : List UInt8) : List UInt8 := path.rtakeWhile (· ≠ 47)

def Integer.ofInt (v : Int32) : Integer :=
  ⟨.int, v.toInt, by have := v.le_toInt; change -2 ^ 31 ≤ _; omega,
    by have := v.toInt_lt; change _ ≤ 2 ^ 31 - 1; omega⟩

/-- `tidString()` of a thread. -/
def tidString (tid : Int32) : List UInt8 := spacePadded 5 tid.toInt ++ ascii [' ']

namespace LogStream

def insertAll (s : LogStream) : List Item → Except Fault LogStream
  | [] => return s
  | i :: items => do
      let s ← s.insert i
      insertAll s items

end LogStream

/-- The constructors of `Logger`; the last one is given `errno`. -/
inductive LoggerCtor where
  | plain
  | leveled (level : LogLevel)
  | inFunction (level : LogLevel) (func : List UInt8)
  | system (toAbort : Bool) (errno : Int32)

namespace LoggerCtor

def level : LoggerCtor → LogLevel
  | plain => .info
  | leveled level | inFunction level _ => level
  | system toAbort _ => if toAbort then .fatal else .error

def savedErrno : LoggerCtor → Int32
  | system _ errno => errno
  | plain | leveled _ | inFunction _ _ => 0

/-- What the constructor of `Logger` streams after that of `Impl`. -/
def items : LoggerCtor → List Item
  | inFunction _ func => [.cString (some func), .char 32]
  | plain | leveled _ | system _ _ => []

end LoggerCtor

/-- The error behind the level, unless there is none. -/
def errnoItems (strerror : Int32 → List UInt8) (savedErrno : Int32) : List Item :=
  if savedErrno ≠ 0 then
    [.cString (some (strerror savedErrno)), .cString (some (ascii " (errno=".toList)),
      .integer (.ofInt savedErrno), .cString (some (ascii ") ".toList))]
  else []

structure Logger where
  stream : LogStream
  line : Int32
  basename : List UInt8

namespace Logger

/-- What every record starts with. A `T` and a `SourceFile` are streamed as their bytes. -/
def headerItems (p : TimePrefix) (tidText levelText : List UInt8) : List Item :=
  [.stringPiece p.dateTime, .stringPiece p.us, .stringPiece tidText, .stringPiece levelText]

def new (data : Vector UInt8 kSmallBuffer) (c : TimeCache) (time : Timestamp) (tid : Int32)
    (strerror : Int32 → List UInt8) (ctor : LoggerCtor) (path : List UInt8) (line : Int32) :
    Except Fault (TimeCache × Logger) := do
  let (c, p) ← formatTime c time
  let tidText ← ofLength (printTo 32 (tidString tid)) (tidString tid).length
  let levelText ← ofLength ctor.level.name 6
  let s ← LogStream.insertAll (.new data)
    (headerItems p tidText levelText ++ (errnoItems strerror ctor.savedErrno ++ ctor.items))
  return (c, ⟨s, line, sourceFile path⟩)

/-- Items streamed into the logger. -/
def insert (l : Logger) (items : List Item) : Except Fault Logger := do
  let stream ← l.stream.insertAll items
  return { l with stream }

/-- What `finish` streams. -/
def trailerItems (l : Logger) : List Item :=
  [.cString (some (ascii " - ".toList)), .stringPiece l.basename, .cString (some (ascii [':'])),
    .integer (.ofInt l.line), .cString (some (ascii ['\n']))]

/-- The destructor, with what it hands to `g_output`. -/
def destroy (l : Logger) : Except Fault (List UInt8) := do
  let s ← l.stream.insertAll l.trailerItems
  return s.toStringPiece

/-- The end of a complete record. -/
def trailer (basename : List UInt8) (line : Int32) : List UInt8 :=
  ascii " - ".toList ++ (basename ++ (ascii [':'] ++ (decimalText line.toInt ++ ascii ['\n'])))

/-- The bytes left are enough for the trailer. -/
def Room (l : Logger) : Prop := l.stream.cur + l.basename.length + 36 ≤ kSmallBuffer

end Logger

/-- The fields that a record starts with. -/
def header (s : LogStamp) (tid : Int32) (level : LogLevel) : List UInt8 :=
  s.timePrefix.text ++ (tidString tid ++ level.name)

variable {content : List UInt8}

theorem appended_of_fits {i : Item} (h : i.Fits content.length) :
    appended content i = content ++ i.render :=
  if_pos h

theorem appended_of_not_fits {i : Item} (h : ¬ i.Fits content.length) :
    appended content i = content :=
  if_neg h

theorem appended_length_le (content : List UInt8) (i : Item) :
    (appended content i).length ≤ content.length + i.render.length := by
  rw [appended]
  split
  · rw [List.length_append]
  · exact Nat.le_add_right _ _

theorem prefix_foldl_appended (content : List UInt8) (items : List Item) :
    content <+: items.foldl appended content := by
  induction items generalizing content with
  | nil => exact List.prefix_rfl
  | cons i items ih => exact (LogStream.prefix_appended content i).trans (ih _)

theorem LogStream.insertAll_spec {s : LogStream} (hs : s.Inv) (items : List Item) :
    Leaves (s.insertAll items) (items.foldl appended s.toStringPiece) := by
  induction items generalizing s with
  | nil => exact ⟨s, rfl, hs, rfl⟩
  | cons i items ih =>
    obtain ⟨t, hok, ht, hcontent⟩ := insert_spec hs i
    rw [insertAll, hok, ok_bind, List.foldl_cons, ← hcontent]
    exact ih ht

/-- The items that are appended when the buffer has room for them. -/
theorem fits_append {n : Nat} {i : Item} (hi : i.inPlace = false) :
    i.Fits n ↔ n + i.render.length < 4000 := by
  rw [Item.Fits, if_neg (by rw [hi]; decide)]
  rfl

theorem fits_integer {n : Nat} {v : Integer} : (Item.integer v).Fits n ↔ n + 32 ≤ 4000 := by
  rw [Item.Fits, if_pos (show (Item.integer v).inPlace = true from rfl)]
  rfl

/-- Items that all fit, one behind the other, into a stream with `n` bytes in it. -/
def FitAll (n : Nat) : List Item → Prop
  | [] => True
  | i :: items => i.Fits n ∧ FitAll (n + i.render.length) items

theorem foldl_appended_of_fitAll {items : List Item} (h : FitAll content.length items) :
    items.foldl appended content = content ++ items.flatMap Item.render := by
  induction items generalizing content with
  | nil => exact (List.append_nil content).symm
  | cons i items ih =>
    obtain ⟨hi, hitems⟩ := h
    rw [List.foldl_cons, appended_of_fits hi, ih (by rw [List.length_append]; exact hitems),
      List.flatMap_cons, List.append_assoc]

theorem render_string (v : List UInt8) : (Item.string v).render = v := rfl

theorem numeralText_length_pos (b n : Nat) : 0 < (numeralText b n).length := by
  rw [numeralText, List.length_map]
  exact List.length_pos_of_ne_nil numeral_ne_nil

namespace Logger
variable {l : Logger}

theorem trailer_length (l : Logger) :
    (trailer l.basename l.line).length =
      l.basename.length + (decimalText l.line.toInt).length + 5 := by
  rw [trailer, List.length_append, List.length_append, List.length_append, List.length_append]
  change 3 + (l.basename.length + (1 + ((decimalText l.line.toInt).length + 1))) = _
  omega

theorem trailer_render (l : Logger) :
    l.trailerItems.flatMap Item.render = trailer l.basename l.line := by
  rw [trailerItems, trailer]
  simp only [List.flatMap_cons, List.flatMap_nil, List.append_nil]
  rfl

/-- With room for the line number where it is streamed, every piece of the trailer fits. -/
theorem trailer_of_room (h : content.length + l.basename.length + 36 ≤ 4000) :
    l.trailerItems.foldl appended content = content ++ trailer l.basename l.line := by
  have hline := decimalText_length_le (.ofInt l.line)
  change (decimalText l.line.toInt).length ≤ 21 at hline
  rw [← trailer_render]
  refine foldl_appended_of_fitAll ⟨(fits_append rfl).mpr ?_, (fits_append rfl).mpr ?_,
    (fits_append rfl).mpr ?_, fits_integer.mpr ?_, (fits_append rfl).mpr ?_, trivial⟩
  · change content.length + 3 < 4000
    omega
  · change content.length + 3 + l.basename.length < 4000
    omega
  · change content.length + 3 + l.basename.length + 1 < 4000
    omega
  · change content.length + 3 + l.basename.length + 1 + 32 ≤ 4000
    omega
  · change content.length + 3 + l.basename.length + 1 + (decimalText l.line.toInt).length + 1 < 4000
    omega

/-- Without it, some piece is dropped. -/
theorem trailer_of_not_room (h : ¬ content.length + l.basename.length + 36 ≤ 4000) :
    (l.trailerItems.foldl appended content).length <
      content.length + (trailer l.basename l.line).length := by
  have hpos := numeralText_length_pos 10 l.line.toInt.natAbs
  have hline : 0 < (decimalText l.line.toInt).length := by
    rw [decimalText, List.length_append]
    omega
  have h₁ := appended_length_le content (.cString (some (ascii " - ".toList)))
  have h₂ := appended_length_le (appended content (.cString (some (ascii " - ".toList))))
    (.stringPiece l.basename)
  generalize hc₁ : appended content (.cString (some (ascii " - ".toList))) = c₁ at h₁ h₂
  generalize hc₂ : appended c₁ (.stringPiece l.basename) = c₂ at h₂
  have h₃ := appended_length_le c₂ (.cString (some (ascii [':'])))
  generalize hc₃ : appended c₂ (.cString (some (ascii [':']))) = c₃ at h₃
  have h₄ := appended_length_le c₃ (.integer (.ofInt l.line))
  have h₅ := appended_length_le (appended c₃ (.integer (.ofInt l.line)))
    (.cString (some (ascii ['\n'])))
  change c₁.length ≤ content.length + 3 at h₁
  change c₂.length ≤ c₁.length + l.basename.length at h₂
  change c₃.length ≤ c₂.length + 1 at h₃
  change _ ≤ c₃.length + (decimalText l.line.toInt).length at h₄
  change _ ≤ _ + 1 at h₅
  rw [trailerItems, List.foldl_cons, List.foldl_cons, List.foldl_cons, List.foldl_cons,
    List.foldl_cons, List.foldl_nil, hc₁, hc₂, hc₃, trailer_length]
  by_cases hfits : (Item.integer (.ofInt l.line)).Fits c₃.length
  · rw [fits_integer] at hfits
    omega
  · rw [appended_of_not_fits hfits] at h₅ ⊢
    omega

/-- A slash stands nowhere in a trailer. -/
theorem slash_not_mem_trailer {path : List UInt8} (h : l.basename = sourceFile path) :
    47 ∉ trailer l.basename l.line := by
  have hbase : 47 ∉ l.basename := by
    intro hmem
    rw [h] at hmem
    exact absurd (List.mem_rtakeWhile_imp hmem) (by decide)
  have hnumber : 47 ∉ decimalText l.line.toInt := by
    intro hmem
    rw [decimalText, ← decimal_eq_numeralText] at hmem
    rcases List.mem_append.mp hmem with hs | hd
    · have hsub : sign l.line.toInt ⊆ [45] := by
        rw [sign]
        split
        · exact List.Subset.refl _
        · exact List.nil_subset _
      exact absurd (List.mem_singleton.mp (hsub hs)) (by decide)
    · exact absurd (decimal_digits 47 hd).1 (by decide)
  simp only [trailer, List.mem_append, not_or]
  exact ⟨by decide, hbase, by decide, hnumber, by decide⟩

/-- Where the trailer does not fit, a message that ends in a slash is not followed by it. -/
theorem trailer_lost {path : List UInt8} (h : l.basename = sourceFile path)
    (hroom : ¬ content.length + l.basename.length + 36 ≤ 4000) (pre : List UInt8)
    (hcontent : content = pre ++ [47]) :
    ¬ trailer l.basename l.line <:+ l.trailerItems.foldl appended content := by
  intro hsuffix
  have hshort := trailer_of_not_room hroom
  obtain ⟨kept, hkept⟩ := prefix_foldl_appended content l.trailerItems
  rw [← hkept, List.length_append] at hshort
  rw [← hkept, hcontent, List.append_assoc] at hsuffix
  have hslash : 47 :: kept <:+ trailer l.basename l.line :=
    List.suffix_of_suffix_length_le (List.suffix_append pre (47 :: kept)) hsuffix
      (by rw [List.length_cons]; omega)
  exact slash_not_mem_trailer h (hslash.subset List.mem_cons_self)

theorem insert_spec {l : Logger} (hl : l.stream.Inv) (items : List Item) :
    ∃ l', l.insert items = .ok l' ∧ l'.stream.Inv ∧ l'.line = l.line ∧ l'.basename = l.basename ∧
      l'.stream.toStringPiece = items.foldl appended l.stream.toStringPiece := by
  obtain ⟨t, hok, ht, hcontent⟩ := LogStream.insertAll_spec hl items
  refine ⟨{ l with stream := t }, ?_, ht, rfl, rfl, hcontent⟩
  rw [insert, hok]
  rfl

theorem destroy_spec {l : Logger} (hl : l.stream.Inv) :
    l.destroy = .ok (l.trailerItems.foldl appended l.stream.toStringPiece) := by
  obtain ⟨t, hok, ht, hcontent⟩ := LogStream.insertAll_spec hl l.trailerItems
  rw [destroy, hok, ← hcontent]
  rfl

theorem tidString_length_lt (tid : Int32) : (tidString tid).length < 32 := by
  have htid := decimalText_length_le (.ofInt tid)
  change (decimalText tid.toInt).length ≤ 21 at htid
  rw [tidString, List.length_append, spacePadded, List.length_append, List.length_replicate]
  change _ + 1 < 32
  omega

theorem level_length (level : LogLevel) : level.name.length = 6 := by cases level <;> rfl

/-- The fields of the header fit into an empty stream. -/
theorem headerItems_fit (s : LogStamp) (tid : Int32) (level : LogLevel) :
    FitAll 0 (headerItems s.timePrefix (tidString tid) level.name) := by
  have htid := tidString_length_lt tid
  have hlevel := level_length level
  have hdate : s.timePrefix.dateTime.length = 17 := s.logTime_length
  have hus : s.timePrefix.us.length = 9 := s.us_length
  refine ⟨(fits_append rfl).mpr ?_, (fits_append rfl).mpr ?_, (fits_append rfl).mpr ?_,
    (fits_append rfl).mpr ?_, trivial⟩ <;> simp only [Item.render] <;> omega

theorem foldl_headerItems (s : LogStamp) (tid : Int32) (level : LogLevel) :
    (headerItems s.timePrefix (tidString tid) level.name).foldl appended [] =
      header s tid level := by
  have hheader : header s tid level =
      [] ++ (headerItems s.timePrefix (tidString tid) level.name).flatMap Item.render := by
    simp only [headerItems, List.flatMap_cons, List.flatMap_nil, List.append_nil, List.nil_append,
      header, TimePrefix.text, List.append_assoc, Item.render]
  rw [hheader]
  exact foldl_appended_of_fitAll (headerItems_fit s tid level)

/-- A new logger holds the fields of the header, and behind them what its constructor adds. -/
theorem new_spec (data : Vector UInt8 kSmallBuffer) (c : TimeCache) (s : LogStamp) (tid : Int32)
    (strerror : Int32 → List UInt8) (ctor : LoggerCtor) (path : List UInt8) (line : Int32) :
    ∃ c' l, new data c s.time tid strerror ctor path line = .ok (c', l) ∧ l.stream.Inv ∧
      l.line = line ∧ l.basename = sourceFile path ∧
      l.stream.toStringPiece = (errnoItems strerror ctor.savedErrno ++ ctor.items).foldl appended
        (header s tid ctor.level) := by
  obtain ⟨c', htime⟩ := formatTime_spec c s
  have htid := tidString_length_lt tid
  obtain ⟨t, hok, ht, hcontent⟩ := LogStream.insertAll_spec (LogStream.new_inv data)
    (headerItems s.timePrefix (tidString tid) ctor.level.name ++
      (errnoItems strerror ctor.savedErrno ++ ctor.items))
  have hempty : (LogStream.new data).toStringPiece = [] := List.take_zero
  rw [List.foldl_append, hempty, foldl_headerItems] at hcontent
  refine ⟨c', ⟨t, line, sourceFile path⟩, ?_, ht, rfl, rfl, hcontent⟩
  have htidText : ofLength (printTo 32 (tidString tid)) (tidString tid).length =
      .ok (tidString tid) := by
    rw [printTo_of_lt htid, ofLength, assert_true rfl]
    rfl
  have hlevelText : ofLength ctor.level.name 6 = .ok ctor.level.name := by
    rw [ofLength, assert_true (level_length ctor.level)]
    rfl
  simp only [new, htime, ok_bind, htidText, hlevelText, hok]
  rfl

theorem header_length (s : LogStamp) (tid : Int32) (level : LogLevel) :
    (header s tid level).length = (tidString tid).length + 32 := by
  have hlevel := level_length level
  rw [header, TimePrefix.text, List.length_append, List.length_append, List.length_append, hlevel]
  change (logTime s.seconds).length + (formatMicroseconds s.microseconds).length + _ = _
  rw [s.logTime_length, s.us_length]
  omega

/-- What the destructor hands over: the text of the logger, extended by the trailer when there
is room for it, and by less when there is not. -/
theorem destroy_cases (hl : l.stream.Inv) :
    ∃ record, l.destroy = .ok record ∧ l.stream.toStringPiece <+: record ∧
      (l.Room → record = l.stream.toStringPiece ++ trailer l.basename l.line) ∧
      (¬ l.Room → record.length <
        (l.stream.toStringPiece ++ trailer l.basename l.line).length) := by
  have hlen := LogStream.toStringPiece_length hl
  refine ⟨_, destroy_spec hl, prefix_foldl_appended _ _, fun hroom => ?_, fun hroom => ?_⟩
  · rw [Room, ← hlen] at hroom
    exact trailer_of_room hroom
  · rw [Room, ← hlen] at hroom
    rw [List.length_append]
    exact trailer_of_not_room hroom

/-- A message of slashes that fills the stream up to `m` bytes. -/
theorem exists_message (hl : l.stream.Inv) {m : Nat} (hm : l.stream.cur < m)
    (hsize : m < kSmallBuffer) :
    ∃ items l', l.insert items = .ok l' ∧ l'.stream.Inv ∧ l'.stream.cur = m ∧ l'.line = l.line ∧
      l'.basename = l.basename ∧ ∃ pre, l'.stream.toStringPiece = pre ++ [47] := by
  obtain ⟨l', hok, hl', hline, hbase, hcontent⟩ :=
    insert_spec hl [.string (List.replicate (m - l.stream.cur) 47)]
  have hlen := LogStream.toStringPiece_length hl
  have happended : l'.stream.toStringPiece =
      l.stream.toStringPiece ++ List.replicate (m - l.stream.cur) 47 := by
    rw [hcontent]
    apply appended_of_fits
    rw [fits_append rfl, hlen, render_string, List.length_replicate]
    change _ < kSmallBuffer
    omega
  refine ⟨_, l', hok, hl', ?_, hline, hbase,
    l.stream.toStringPiece ++ List.replicate (m - l.stream.cur - 1) 47, ?_⟩
  · rw [← LogStream.toStringPiece_length hl', happended, List.length_append, hlen,
      List.length_replicate]
    omega
  · have hlast : m - l.stream.cur = m - l.stream.cur - 1 + 1 := by omega
    rw [happended, hlast, List.replicate_succ', Nat.add_sub_cancel, List.append_assoc]

/-- The record of a message: the text so far stays in front of it, and the trailer is added to
the whole exactly when there is room. -/
theorem insert_destroy_spec (hl : l.stream.Inv) (items : List Item) :
    ∃ l' record, l.insert items = .ok l' ∧ l'.destroy = .ok record ∧
      l.stream.toStringPiece <+: record ∧
      (record = l'.stream.toStringPiece ++ trailer l.basename l.line ↔
        l'.stream.cur + l.basename.length + 36 ≤ kSmallBuffer) := by
  obtain ⟨l', hok, hl', hline, hbase, hcontent⟩ := insert_spec hl items
  obtain ⟨record, hrecord, hprefix, hroom, hshort⟩ := destroy_cases hl'
  rw [Room, hline, hbase] at hroom hshort
  rw [hcontent] at hprefix
  refine ⟨l', record, hok, hrecord, (prefix_foldl_appended _ items).trans hprefix,
    fun he => ?_, hroom⟩
  by_contra hnot
  have hlt := hshort hnot
  rw [he] at hlt
  exact absurd hlt (Nat.lt_irrefl _)

/-- A record is complete exactly when the message left room for the trailer, 36 bytes besides
the name of the file: the number of the line is formatted only where any number has room. What
the destructor adds is the trailer exactly then, and only then do all records with so many
bytes in front of it end with the trailer. The clock is in the range of `LogStamp`: from the
first second of the epoch to the end of the year 9999. -/
theorem record_complete_iff (data : Vector UInt8 kSmallBuffer) (c : TimeCache) (s : LogStamp)
    (tid : Int32) (strerror : Int32 → List UInt8) (ctor : LoggerCtor) (path : List UInt8)
    (line : Int32) :
    ∃ c' l, new data c s.time tid strerror ctor path line = .ok (c', l) ∧
      (∀ items, ∃ l' record, l.insert items = .ok l' ∧ l'.destroy = .ok record ∧
        header s tid ctor.level <+: record ∧
        (record = l'.stream.toStringPiece ++ trailer (sourceFile path) line ↔
          l'.stream.cur + (sourceFile path).length + 36 ≤ kSmallBuffer)) ∧
      ∀ m, l.stream.cur < m → m < kSmallBuffer →
        ((∀ items l' record, l.insert items = .ok l' → l'.stream.cur = m →
          l'.destroy = .ok record →
            header s tid ctor.level <+: record ∧ trailer (sourceFile path) line <:+ record) ↔
          m + (sourceFile path).length + 36 ≤ kSmallBuffer) := by
  obtain ⟨c', l, hnew, hl, rfl, hbase, hstart⟩ := new_spec data c s tid strerror ctor path line
  have hheader : header s tid ctor.level <+: l.stream.toStringPiece := by
    rw [hstart]
    exact prefix_foldl_appended _ _
  rw [← hbase]
  refine ⟨c', l, hnew, fun items => ?_, fun m hm hsize => ⟨fun hall => ?_, ?_⟩⟩
  · obtain ⟨l', record, hok, hrecord, hstart, hcomplete⟩ := insert_destroy_spec hl items
    exact ⟨l', record, hok, hrecord, hheader.trans hstart, hcomplete⟩
  · by_contra hnot
    obtain ⟨items, l', hok, hl', hcur, hline, hbase', pre, hpre⟩ := exists_message hl hm hsize
    obtain ⟨_, hend⟩ := hall items l' _ hok hcur (destroy_spec hl')
    rw [← hline, ← hbase'] at hend
    refine trailer_lost (hbase'.trans hbase) ?_ pre hpre hend
    rw [LogStream.toStringPiece_length hl', hcur, hbase']
    exact hnot
  · intro hfits items l' record hok hcur hrecord
    obtain ⟨l'', record', hok', hrecord', hstart, hcomplete⟩ := insert_destroy_spec hl items
    cases hok.symm.trans hok'
    cases hrecord.symm.trans hrecord'
    refine ⟨hheader.trans hstart, ?_⟩
    rw [hcomplete.mpr (by rw [hcur]; exact hfits)]
    exact List.suffix_append _ _

/-- A message that leaves one byte: nothing of the trailer is in the record, the newline
neither. -/
theorem record_without_newline :
    ∃ c' l l' record, new (.replicate kSmallBuffer 0) .new 2000000 1 (fun _ => []) .plain
        (ascii "a.cc".toList) 7 = .ok (c', l) ∧
      l.insert [.string (List.replicate 3961 47)] = .ok l' ∧ l'.destroy = .ok record ∧
      ¬ trailer (ascii "a.cc".toList) 7 <:+ record := by
  obtain ⟨c', l, hnew, hl, hline, hbase, hstart⟩ := new_spec (.replicate kSmallBuffer 0) .new
    ⟨2000000, by decide, by decide⟩ 1 (fun _ => []) .plain (ascii "a.cc".toList) 7
  obtain ⟨l', hok, hl', hline', hbase', hcontent⟩ :=
    insert_spec hl [.string (List.replicate 3961 47)]
  have hlen : l.stream.toStringPiece.length = 38 := by
    rw [hstart]
    exact header_length _ 1 .info
  have hfits : (Item.string (List.replicate 3961 47)).Fits l.stream.toStringPiece.length := by
    rw [fits_append rfl, hlen, render_string, List.length_replicate]
    decide
  have happended : l'.stream.toStringPiece =
      l.stream.toStringPiece ++ List.replicate 3960 47 ++ [47] := by
    rw [hcontent, List.foldl_cons, List.foldl_nil, appended_of_fits hfits, render_string,
      show 3961 = 3960 + 1 from rfl, List.replicate_succ', List.append_assoc]
  refine ⟨c', l, l', _, hnew, hok, destroy_spec hl', ?_⟩
  have hname : l'.basename = sourceFile (ascii "a.cc".toList) := hbase'.trans hbase
  have hlost := trailer_lost hname ?_ _ happended
  · rw [hname, hline'.trans hline] at hlost
    exact hlost
  · rw [happended, List.length_append, List.length_append, hlen, List.length_replicate]
    change ¬ 38 + 3960 + 1 + _ + 36 ≤ 4000
    omega

end Logger
end Muduo.Base
