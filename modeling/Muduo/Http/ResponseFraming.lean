import Muduo.Http.HttpResponse
import Muduo.Support.Decimal
import Muduo.Support.LineScanner

/-! A reader of responses, which knows nothing of `HttpResponse`, and what it reads from the
bytes of `appendToBuffer`. -/
namespace Muduo.Http
open Muduo.Net Muduo.Support

namespace ResponseReader

/-- The lines read so far: the status line, and the header fields in order. -/
structure Lines where
  status : Option (Nat × Bytes)
  fields : List (Bytes × Bytes)

/-- The code and the message of a status line. -/
def readStatus (line : Bytes) : Option (Nat × Bytes) := do
  let (_, rest) ← cutAt (text " ") line
  let (code, message) ← cutAt (text " ") rest
  return (← ofDecimal code, message)

def onLine (s : Lines) (line : Bytes) : Verdict Lines (Option Lines) :=
  if line = [] then .finish (some s)
  else match s.status with
    | none => match readStatus line with
      | some status => .next { s with status := some status }
      | none => .reject none
    | some _ => match cutAt (text ": ") line with
      | some field => .next { s with fields := s.fields ++ [field] }
      | none => .reject none

/-- Lines up to the first empty one. -/
def scanner : Scanner Lines (Option Lines) Byte := .lines kCRLF kCRLF_ne_nil onLine

/-- What a response says. -/
structure Answer where
  statusCode : Nat
  statusMessage : Bytes
  headers : OrderedMap Bytes Bytes
  body : Bytes

/-- The fields that are about the framing. -/
def framing (key : Bytes) : Bool := key = text "Content-Length" || key = text "Connection"

def Lines.answer (s : Lines) (body : Bytes) : Option Answer :=
  s.status.map fun (code, message) =>
    ⟨code, message, .ofList (s.fields.filter fun field => !framing field.1), body⟩

def readLines (input : Bytes) : Option (Lines × Bytes) :=
  match scanner.run ⟨none, []⟩ input with
  | .stopped (some s) rest => some (s, rest)
  | _ => none

def Lines.contentLength (s : Lines) : Option Nat :=
  (s.fields.find? fun field => field.1 = text "Content-Length").bind fun field => ofDecimal field.2

/-- A response of a known length, and what follows it. -/
def readResponse (input : Bytes) : Option (Answer × Bytes) := do
  let (s, rest) ← readLines input
  let length ← s.contentLength
  if length ≤ rest.length then return (← s.answer (rest.take length), rest.drop length)
  else none

/-- A response up to the end of the stream. -/
def readLast (input : Bytes) : Option Answer := do
  let (s, rest) ← readLines input
  s.answer rest

/-- Responses of known lengths up to the end of the input. -/
def readAll : Nat → Bytes → Option (List Answer)
  | 0, input => if input = [] then some [] else none
  | fuel + 1, input => if input = [] then some [] else
      (readResponse input).bind fun read => (readAll fuel read.2).map (read.1 :: ·)

def readResponses (input : Bytes) : Option (List Answer) := readAll input.length input

end ResponseReader

namespace HttpResponse
open ResponseReader

def answer (r : HttpResponse) : Answer := ⟨r.statusCode.value, r.statusMessage, r.headers, r.body⟩

/-- The strings of the response that the format leaves room for. -/
structure Framed (r : HttpResponse) : Prop where
  message : (13 : Byte) ∉ r.statusMessage ∧ (10 : Byte) ∉ r.statusMessage
  key : ∀ header ∈ r.headers.entries,
    (13 : Byte) ∉ header.1 ∧ (10 : Byte) ∉ header.1 ∧ (58 : Byte) ∉ header.1
  value : ∀ header ∈ r.headers.entries, (13 : Byte) ∉ header.2 ∧ (10 : Byte) ∉ header.2
  own : ∀ header ∈ r.headers.entries,
    header.1 ≠ text "Content-Length" ∧ header.1 ≠ text "Connection"
  length : r.body.length < 2 ^ 31

variable {r : HttpResponse} {rest : Bytes}

theorem text_append (s t : String) : text (s ++ t) = text s ++ text t := by
  simp [text, String.toList_append]

theorem text_toString (n : Nat) : text (toString n) = decimal n := by
  simp [text, decimal, ascii, toString, Nat.repr]

def statusLine (r : HttpResponse) : Bytes :=
  text "HTTP/1.1" ++ text " " ++ (decimal r.statusCode.value ++ text " " ++ r.statusMessage)

/-- The header fields as they are written. -/
def fields (r : HttpResponse) : List (Bytes × Bytes) :=
  (if r.closeConnection then [(text "Connection", text "close")]
  else [(text "Content-Length", decimal r.body.length), (text "Connection", text "Keep-ALive")]) ++
  r.headers.entries

def fieldLine (field : Bytes × Bytes) : Bytes := field.1 ++ text ": " ++ field.2

def fieldLines (fields : List (Bytes × Bytes)) : Bytes :=
  fields.flatMap fun field => fieldLine field ++ kCRLF

theorem snprintf_status (r : HttpResponse) : snprintf s!"HTTP/1.1 {r.statusCode.value} " =
    text "HTTP/1.1" ++ text " " ++ decimal r.statusCode.value ++ text " " := by
  cases r.statusCode <;> decide

/-- The scratch buffer is long enough for the length of a body. -/
theorem snprintf_length (h : r.body.length < 2 ^ 31) :
    snprintf s!"Content-Length: {r.body.length}\r\n" =
      fieldLine (text "Content-Length", decimal r.body.length) ++ kCRLF := by
  have hdigits : (decimal r.body.length).length ≤ 10 :=
    decimal_length_le (by decide) (h.trans (by decide))
  have htext : text s!"Content-Length: {r.body.length}\r\n" =
      text "Content-Length: " ++ decimal r.body.length ++ text "\r\n" := by
    simp only [text_append, text_toString]
    rfl
  have hlabel : (text "Content-Length: ").length = 16 := by decide
  have hend : (text "\r\n").length = 2 := by decide
  rw [snprintf, htext, List.take_of_length_le]
  · rfl
  · rw [List.length_append, List.length_append]
    omega

theorem entries_flatten (headers : List (Bytes × Bytes)) :
    (headers.flatMap fun header => [header.1, text ": ", header.2, text "\r\n"]).flatten =
      fieldLines headers := by
  unfold fieldLines
  induction headers with
  | nil => rfl
  | cons header headers ih =>
    rw [List.flatMap_cons, List.flatten_append, ih, List.flatMap_cons]
    simp only [List.flatten_cons, List.flatten_nil, fieldLine, List.append_nil, List.append_assoc]
    rfl

theorem bytes_eq (h : r.body.length < 2 ^ 31) :
    r.bytes = r.statusLine ++ kCRLF ++ (fieldLines r.fields ++ kCRLF ++ r.body) := by
  have hcrlf : text "\r\n" = kCRLF := rfl
  have hclose : text "Connection: close\r\n" =
      fieldLine (text "Connection", text "close") ++ kCRLF := rfl
  have hkeep : text "Connection: Keep-ALive\r\n" =
      fieldLine (text "Connection", text "Keep-ALive") ++ kCRLF := rfl
  unfold bytes parts fields
  rw [snprintf_status, snprintf_length h, hclose, hkeep, List.flatten_append, List.flatten_append,
    List.flatten_append, entries_flatten]
  cases r.closeConnection with
  | true =>
    simp [statusLine, fieldLines, hcrlf]
  | false =>
    simp [statusLine, fieldLines, hcrlf]

variable {s : Lines} {status : Nat × Bytes}

theorem decimal_notMem {b : Byte} (h : ¬ (48 ≤ b ∧ b ≤ 57)) (n : Nat) : b ∉ decimal n :=
  fun hm => h (decimal_digits b hm)

theorem isLine_status (h : r.Framed) : IsLine kCRLF r.statusLine := by
  apply isLine_of_notMem
  have hcode : (13 : Byte) ∉ decimal r.statusCode.value := decimal_notMem (by decide) _
  have hversion : (13 : Byte) ∉ text "HTTP/1.1" := by decide
  have hspace : (13 : Byte) ∉ text " " := by decide
  simp only [statusLine, List.mem_append, not_or]
  exact ⟨⟨hversion, hspace⟩, ⟨hcode, hspace⟩, h.message.1⟩

theorem readStatus_statusLine (r : HttpResponse) :
    readStatus r.statusLine = some (r.statusCode.value, r.statusMessage) := by
  have hversion : IsLine (text " ") (text "HTTP/1.1") := isLine_of_notMem (by decide)
  have hcode : IsLine (text " ") (decimal r.statusCode.value) :=
    isLine_of_notMem (decimal_notMem (by decide) _)
  rw [readStatus, statusLine, cutAt_line hversion]
  simp only [Option.bind_eq_bind, Option.bind_some, cutAt_line hcode, ofDecimal_decimal]
  rfl

/-- The reader cuts a line where the writer joined it. -/
theorem onLine_field {f : Bytes × Bytes} (h : (58 : Byte) ∉ f.1) (hs : s.status = some status) :
    onLine s (fieldLine f) = .next { s with fields := s.fields ++ [f] } := by
  have hne : fieldLine f ≠ [] := by
    simp [fieldLine, text]
  have hcut : cutAt (text ": ") (fieldLine f) = some f := cutAt_line (isLine_of_notMem h) f.2
  simp only [onLine, if_neg hne, hs, hcut]

theorem isLine_field {f : Bytes × Bytes} (hk : (13 : Byte) ∉ f.1) (hv : (13 : Byte) ∉ f.2) :
    IsLine kCRLF (fieldLine f) := by
  have hsep : (13 : Byte) ∉ text ": " := by decide
  apply isLine_of_notMem
  simp only [fieldLine, List.mem_append, not_or]
  exact ⟨⟨hk, hsep⟩, hv⟩

/-- The lines of the fields, up to the first empty line. -/
theorem run_fields {fields : List (Bytes × Bytes)}
    (h : ∀ f ∈ fields, (58 : Byte) ∉ f.1 ∧ (13 : Byte) ∉ f.1 ∧ (13 : Byte) ∉ f.2)
    (hs : s.status = some status) : scanner.run s (fieldLines fields ++ kCRLF ++ rest) =
      .stopped (some { s with fields := s.fields ++ fields }) rest := by
  induction fields generalizing s with
  | nil =>
    rw [List.append_nil]
    exact Scanner.lines_finish (isLine_of_notMem List.not_mem_nil) rfl
  | cons f fields ih =>
    obtain ⟨⟨hcolon, hk, hv⟩, hfields⟩ := List.forall_mem_cons.mp h
    have hstep : scanner.run s (fieldLine f ++ kCRLF ++ (fieldLines fields ++ kCRLF ++ rest)) =
        scanner.run { s with fields := s.fields ++ [f] } (fieldLines fields ++ kCRLF ++ rest) :=
      Scanner.lines_next (isLine_field hk hv) (onLine_field hcolon hs)
    have hjoin : fieldLines (f :: fields) ++ kCRLF ++ rest =
        fieldLine f ++ kCRLF ++ (fieldLines fields ++ kCRLF ++ rest) := by
      simp [fieldLines]
    have hrest := ih (s := { s with fields := s.fields ++ [f] }) hfields hs
    rw [hjoin, hstep, hrest, List.append_assoc]
    rfl

theorem Framed.fields (h : r.Framed) :
    ∀ f ∈ r.fields, (58 : Byte) ∉ f.1 ∧ (13 : Byte) ∉ f.1 ∧ (13 : Byte) ∉ f.2 := by
  intro f hf
  rcases List.mem_append.mp hf with hf | hf
  · have hcode : (13 : Byte) ∉ decimal r.body.length := decimal_notMem (by decide) _
    have hname : (58 : Byte) ∉ text "Content-Length" ∧ (13 : Byte) ∉ text "Content-Length" := by
      decide
    split at hf
    · rw [List.mem_singleton.mp hf]
      decide
    · rcases List.mem_cons.mp hf with rfl | hf
      · exact ⟨hname.1, hname.2, hcode⟩
      · rw [List.mem_singleton.mp hf]
        decide
  · obtain ⟨hk, _, hcolon⟩ := h.key f hf
    exact ⟨hcolon, hk, (h.value f hf).1⟩

/-- The reader finds the lines of the response, and its body behind the first empty line. -/
theorem readLines_bytes (h : r.Framed) (rest : Bytes) : readLines (r.bytes ++ rest) =
    some (⟨some (r.statusCode.value, r.statusMessage), r.fields⟩, r.body ++ rest) := by
  have hne : r.statusLine ≠ [] := by simp [statusLine, text]
  have honLine : onLine ⟨none, []⟩ r.statusLine =
      .next ⟨some (r.statusCode.value, r.statusMessage), []⟩ := by
    simp only [onLine, if_neg hne, readStatus_statusLine]
  have hstatus : scanner.run ⟨none, []⟩
      (r.statusLine ++ kCRLF ++ (fieldLines r.fields ++ kCRLF ++ (r.body ++ rest))) =
      scanner.run ⟨some (r.statusCode.value, r.statusMessage), []⟩
        (fieldLines r.fields ++ kCRLF ++ (r.body ++ rest)) :=
    Scanner.lines_next (isLine_status h) honLine
  have hjoin : r.bytes ++ rest =
      r.statusLine ++ kCRLF ++ (fieldLines r.fields ++ kCRLF ++ (r.body ++ rest)) := by
    rw [bytes_eq h.length]
    simp only [List.append_assoc]
  rw [readLines, hjoin, hstatus, run_fields h.fields rfl]
  rfl

theorem filter_fields (h : r.Framed) :
    (r.fields.filter fun field => !framing field.1) = r.headers.entries := by
  have hown : (r.headers.entries.filter fun field => !framing field.1) = r.headers.entries := by
    apply List.filter_eq_self.mpr
    intro f hf
    obtain ⟨hlength, hconnection⟩ := h.own f hf
    simp [framing, hlength, hconnection]
  unfold HttpResponse.fields
  rw [List.filter_append, hown]
  split <;> rfl

theorem answer_lines (h : r.Framed) :
    Lines.answer ⟨some (r.statusCode.value, r.statusMessage), r.fields⟩ r.body = some r.answer := by
  simp only [Lines.answer, filter_fields h, OrderedMap.ofList_entries, Option.map_some]
  rfl

theorem contentLength_fields (h : r.closeConnection = false) :
    Lines.contentLength ⟨some status, r.fields⟩ = some r.body.length := by
  simp only [Lines.contentLength, HttpResponse.fields, h]
  exact ofDecimal_decimal _

/-- A response of a known length ends where its body ends, whatever follows. -/
theorem readResponse_bytes (h : r.Framed) (hk : r.closeConnection = false) (rest : Bytes) :
    readResponse (r.bytes ++ rest) = some (r.answer, rest) := by
  have hle : r.body.length ≤ (r.body ++ rest).length := by simp
  rw [readResponse, readLines_bytes h]
  simp only [Option.bind_eq_bind, Option.bind_some, contentLength_fields hk, if_pos hle,
    List.take_left, List.drop_left, answer_lines h]
  rfl

theorem readLast_bytes (h : r.Framed) : readLast r.bytes = some r.answer := by
  have hlines := readLines_bytes h []
  rw [List.append_nil, List.append_nil] at hlines
  rw [readLast, hlines]
  exact answer_lines h

theorem bytes_ne_nil (h : r.body.length < 2 ^ 31) : r.bytes ≠ [] := by
  rw [bytes_eq h]
  simp [kCRLF]

theorem readAll_bytes {rs : List HttpResponse} (h : ∀ r ∈ rs, r.Framed)
    (hk : ∀ r ∈ rs, r.closeConnection = false) {fuel : Nat}
    (hfuel : (rs.flatMap bytes).length ≤ fuel) :
    readAll fuel (rs.flatMap bytes) = some (rs.map answer) := by
  induction rs generalizing fuel with
  | nil => cases fuel <;> rfl
  | cons r rs ih =>
    obtain ⟨hr, hrs⟩ := List.forall_mem_cons.mp h
    obtain ⟨hkr, hkrs⟩ := List.forall_mem_cons.mp hk
    have hpos := List.length_pos_of_ne_nil (bytes_ne_nil hr.length)
    rw [List.flatMap_cons, List.length_append] at hfuel
    obtain ⟨fuel, rfl⟩ : ∃ n, fuel = n + 1 := ⟨fuel - 1, by omega⟩
    have hne : r.bytes ++ rs.flatMap bytes ≠ [] := by
      simp [bytes_ne_nil hr.length]
    rw [List.flatMap_cons, readAll, if_neg hne, readResponse_bytes hr hkr, Option.bind_some,
      ih hrs hkrs (by omega)]
    rfl

theorem appendToBuffer_all (rs : List HttpResponse) {output : Buffer} (h : output.Inv) :
    ∃ b, rs.foldlM (fun output r => r.appendToBuffer output) output = .ok b ∧
      b.readable = output.readable ++ rs.flatMap bytes := by
  induction rs generalizing output with
  | nil => exact ⟨output, rfl, by simp⟩
  | cons r rs ih =>
    obtain ⟨b₁, hok, hi, hr⟩ := r.appendToBuffer_spec h
    obtain ⟨b₂, hok', hr'⟩ := ih hi
    refine ⟨b₂, ?_, by rw [hr', hr, List.flatMap_cons, List.append_assoc]⟩
    rw [List.foldlM_cons, hok]
    exact hok'

/-- Responses of known lengths in one buffer are read back one by one, and so is a response
that ends with its connection. -/
theorem framing_decodable (rs : List HttpResponse) {output : Buffer} (ho : output.Inv)
    (he : output.readable = []) (h : ∀ r ∈ rs, r.Framed)
    (hk : ∀ r ∈ rs, r.closeConnection = false) :
    (∃ b, rs.foldlM (fun output r => r.appendToBuffer output) output = .ok b ∧
      readResponses b.readable = some (rs.map answer)) ∧
    ∀ r : HttpResponse, r.Framed → r.closeConnection = true →
      ∃ b, r.appendToBuffer output = .ok b ∧ readLast b.readable = some r.answer := by
  constructor
  · obtain ⟨b, hok, hr⟩ := appendToBuffer_all rs ho
    rw [he, List.nil_append] at hr
    exact ⟨b, hok, by rw [hr]; exact readAll_bytes h hk le_rfl⟩
  · intro r hr _
    obtain ⟨b, hok, _, hb⟩ := r.appendToBuffer_spec ho
    rw [he, List.nil_append] at hb
    exact ⟨b, hok, by rw [hb]; exact readLast_bytes hr⟩

/-- A response whose body looks like the head of another. -/
def looksLikeHead (close : Bool) : HttpResponse :=
  ((((new close).setStatusCode .k200Ok).setStatusMessage (text "OK")).setContentType
    (text "text/plain")).setBody (text "HTTP/1.1 200 OK\r\nContent-Length: 9\r\n\r\n")

theorem framing_decodable_sample :
    (∃ b, [looksLikeHead false, looksLikeHead false].foldlM
      (fun output r => r.appendToBuffer output) Buffer.new = .ok b ∧
      readResponses b.readable = some ([looksLikeHead false, looksLikeHead false].map answer)) ∧
    ∃ b, (looksLikeHead true).appendToBuffer Buffer.new = .ok b ∧
      readLast b.readable = some (looksLikeHead true).answer := by
  have hframed : ∀ close, (looksLikeHead close).Framed := by
    intro close
    constructor <;> cases close <;> decide
  obtain ⟨hall, hlast⟩ := framing_decodable [looksLikeHead false, looksLikeHead false]
    (Buffer.new_inv _) (Buffer.new_readable _) (by simp [hframed]) (by decide)
  exact ⟨hall, hlast _ (hframed true) rfl⟩

end HttpResponse
end Muduo.Http
