import Muduo.Http.HttpContext

/-! Well-formed request heads, and the byte strings the parser takes for one. -/
namespace Muduo.Http
open Muduo.Base Muduo.Net Muduo.Support

def versionString : Version → Bytes
  | .kUnknown => []
  | .kHttp10 => text "HTTP/1.0"
  | .kHttp11 => text "HTTP/1.1"

/-- METHOD SP target SP HTTP-version, on one line. -/
structure RequestLine where
  method : Method
  target : Bytes
  version : Version
  known : method ≠ .kInvalid
  versioned : version ≠ .kUnknown
  no_space : (32 : Byte) ∉ target
  no_crlf : search kCRLF
    (HttpRequest.methodString method ++ 32 :: (target ++ 32 :: versionString version)) = none

/-- A line with a colon. -/
structure HeaderLine where
  field : Bytes
  text : Bytes
  no_colon : (58 : Byte) ∉ field
  no_crlf : search kCRLF (field ++ 58 :: text) = none

structure Head where
  requestLine : RequestLine
  headerLines : List HeaderLine

namespace RequestLine

def bytes (l : RequestLine) : Bytes :=
  HttpRequest.methodString l.method ++ 32 :: (l.target ++ 32 :: versionString l.version)

/-- What a request line says. -/
def describe (l : RequestLine) (r : HttpRequest) : HttpRequest :=
  let question := l.target.idxOf 63
  { r with
    method := l.method, version := l.version
    path := l.target.take question, query := l.target.drop question }

end RequestLine

namespace HeaderLine

def bytes (h : HeaderLine) : Bytes := h.field ++ 58 :: h.text

def describe (r : HttpRequest) (h : HeaderLine) : HttpRequest :=
  { r with headers := r.headers.insert h.field (HttpRequest.headerValue h.text) }

end HeaderLine

namespace Head

/-- The lines of a head, without the empty line that ends it. -/
def lines (h : Head) : Bytes :=
  h.requestLine.bytes ++ kCRLF ++ h.headerLines.flatMap fun l => l.bytes ++ kCRLF

def bytes (h : Head) : Bytes := h.lines ++ kCRLF

/-- The request of a head that was received at `t`. -/
def request (h : Head) (t : Timestamp) : HttpRequest :=
  h.headerLines.foldl HeaderLine.describe
    ((h.requestLine.describe .new).setReceiveTime t)

private theorem describe_time (hs : List HeaderLine) (r : HttpRequest) (t : Timestamp) :
    (hs.foldl HeaderLine.describe r).setReceiveTime t =
      hs.foldl HeaderLine.describe (r.setReceiveTime t) := by
  induction hs generalizing r with
  | nil => rfl
  | cons h hs ih => exact ih (h.describe r)

theorem request_setReceiveTime (h : Head) (t u : Timestamp) :
    (h.request t).setReceiveTime u = h.request u := describe_time _ _ _

end Head

/-- A line that the parser takes for the end of the header section. -/
structure ColonFree (line : Bytes) : Prop where
  no_colon : (58 : Byte) ∉ line
  no_crlf : search kCRLF line = none

theorem isLine_iff {line : Bytes} : IsLine kCRLF line ↔ search kCRLF line = none :=
  isLine_pair (by decide)

theorem RequestLine.isLine (l : RequestLine) : IsLine kCRLF l.bytes := isLine_iff.mpr l.no_crlf

/-- GET / HTTP/1.1 -/
def RequestLine.getRoot : RequestLine :=
  ⟨.kGet, text "/", .kHttp11, by decide, by decide, by decide, by decide⟩

theorem HeaderLine.isLine (h : HeaderLine) : IsLine kCRLF h.bytes := isLine_iff.mpr h.no_crlf

namespace HttpContext
variable {c : HttpContext} {r : HttpRequest} {t : Timestamp} {line : Bytes}

private theorem idxOf_cut {b : Byte} {pre post : Bytes} (h : b ∉ pre) :
    (pre ++ b :: post).idxOf b = pre.length := by
  rw [List.idxOf_append_of_notMem h, List.idxOf_cons_self, Nat.add_zero]

private theorem cut {b : Byte} {pre : Bytes} (post : Bytes) (h : b ∉ pre) :
    (pre ++ b :: post).idxOf b ≠ (pre ++ b :: post).length ∧
      (pre ++ b :: post).take ((pre ++ b :: post).idxOf b) = pre ∧
      (pre ++ b :: post).drop ((pre ++ b :: post).idxOf b + 1) = post := by
  rw [idxOf_cut h]
  refine ⟨?_, List.take_left, ?_⟩
  · rw [List.length_append, List.length_cons]
    omega
  · rw [← List.drop_drop, List.drop_left]
    rfl

theorem setTarget_eq (h : r.query = []) (target : Bytes) :
    setTarget r target = { r with
      path := target.take (target.idxOf 63), query := target.drop (target.idxOf 63) } := by
  unfold setTarget
  by_cases hq : target.idxOf 63 = target.length
  · simp [hq, HttpRequest.setPath, ← h]
  · simp [hq, HttpRequest.setPath, HttpRequest.setQuery]

theorem processVersion_string {v : Version} (h : v ≠ .kUnknown) :
    processVersion r (versionString v) = (true, r.setVersion v) := by
  cases v with
  | kUnknown => exact absurd rfl h
  | kHttp10 => rfl
  | kHttp11 => rfl

theorem processVersion_true {v : Bytes} (h : (processVersion r v).1 = true) :
    ∃ version, version ≠ .kUnknown ∧ v = versionString version := by
  unfold processVersion at h
  split at h
  · next hv =>
    obtain ⟨hl, ht⟩ := hv
    have hsplit (b : Byte) (hb : v[7]? = some b) : v = text "HTTP/1." ++ [b] := by
      rw [← ht]
      conv_lhs => rw [← List.take_append_drop 7 v]
      obtain ⟨h7, hb⟩ := List.getElem?_eq_some_iff.mp hb
      rw [List.drop_eq_getElem_cons h7, hb, List.drop_of_length_le (by omega)]
    split at h
    · next h1 => exact ⟨.kHttp11, by decide, hsplit _ h1⟩
    · split at h
      · next h0 => exact ⟨.kHttp10, by decide, hsplit _ h0⟩
      · cases h
  · cases h

/-- A line that starts with a method the parser knows. -/
def Recognised (line : Bytes) : Prop :=
  ∃ m start, m ≠ .kInvalid ∧ line = HttpRequest.methodString m ++ 32 :: start

private theorem processRequestLine_no_space (h : (32 : Byte) ∉ line) :
    c.processRequestLine line = .ok (false, c) := by
  unfold processRequestLine
  rw [if_neg (not_not.mpr (List.idxOf_eq_length_iff.mpr h))]
  rfl

private theorem processRequestLine_unknown {m start : Bytes} (hm : (32 : Byte) ∉ m)
    (hk : HttpRequest.methodOf m = .kInvalid) :
    new.processRequestLine (m ++ 32 :: start) = .ok (false, new) := by
  obtain ⟨hne, ht, _⟩ := cut start hm
  unfold processRequestLine
  rw [if_pos hne, ht, HttpRequest.setMethod_new rfl, ok_bind, hk]
  rfl

private theorem processRequestLine_known {m start : Bytes} (hm : (32 : Byte) ∉ m)
    (hk : HttpRequest.methodOf m ≠ .kInvalid) :
    new.processRequestLine (m ++ 32 :: start) =
      .ok ((processTarget { HttpRequest.new with method := HttpRequest.methodOf m } start).1,
        ⟨.kExpectRequestLine,
          (processTarget { HttpRequest.new with method := HttpRequest.methodOf m } start).2⟩) := by
  obtain ⟨hne, ht, hd⟩ := cut start hm
  unfold processRequestLine
  rw [if_pos hne, ht, hd, HttpRequest.setMethod_new rfl, ok_bind]
  simp only [hk, ne_eq, not_false_eq_true, decide_true, if_true]
  rfl

/-- A request line is accepted, and its parts are stored. -/
theorem processRequestLine_bytes (l : RequestLine) :
    new.processRequestLine l.bytes = .ok (true, ⟨.kExpectRequestLine, l.describe .new⟩) := by
  obtain ⟨hne, ht, hd⟩ := cut (versionString l.version) l.no_space
  have hmethod := (HttpRequest.methodOf_eq_iff l.known).mpr rfl
  have hk : HttpRequest.methodOf (HttpRequest.methodString l.method) ≠ .kInvalid := by
    rw [hmethod]
    exact l.known
  rw [RequestLine.bytes, processRequestLine_known (HttpRequest.methodString_no_space _) hk,
    hmethod, processTarget, if_pos hne, ht, hd, processVersion_string l.versioned,
    setTarget_eq (r := { HttpRequest.new with method := l.method }) rfl]
  rfl

/-- A request line is never refused by a new context. -/
theorem not_requestLine (h : new.processRequestLine line = .ok (false, c)) :
    ¬ ∃ l : RequestLine, line = l.bytes := by
  rintro ⟨l, rfl⟩
  rw [processRequestLine_bytes] at h
  cases h

private theorem processTarget_method (start : Bytes) :
    (processTarget r start).2.method = r.method := by
  unfold processTarget processVersion setTarget
  dsimp only
  split_ifs <;> rfl

private theorem processTarget_true {start : Bytes} (h : (processTarget r start).1 = true) :
    ∃ target version, version ≠ .kUnknown ∧ (32 : Byte) ∉ target ∧
      start = target ++ 32 :: versionString version := by
  unfold processTarget at h
  by_cases hs : (32 : Byte) ∈ start
  · obtain ⟨target, v, rfl, ht⟩ := List.eq_append_cons_of_mem hs
    obtain ⟨hne, _, hd⟩ := cut v ht
    rw [if_pos hne, hd] at h
    obtain ⟨version, hv, rfl⟩ := processVersion_true h
    exact ⟨target, version, hv, ht, rfl⟩
  · rw [if_neg (not_not.mpr (List.idxOf_eq_length_iff.mpr hs))] at h
    cases h

private theorem recognised_iff {m start : Bytes} (hm : (32 : Byte) ∉ m) :
    Recognised (m ++ 32 :: start) ↔ HttpRequest.methodOf m ≠ .kInvalid := by
  constructor
  · rintro ⟨k, start', hk, he⟩
    have hcut := (cut start' (HttpRequest.methodString_no_space k)).2.1
    rw [← he, (cut start hm).2.1] at hcut
    rw [(HttpRequest.methodOf_eq_iff hk).mpr hcut]
    exact hk
  · intro hk
    exact ⟨_, start, hk, by rw [← (HttpRequest.methodOf_eq_iff hk).mp rfl]⟩

private theorem accepted_iff {m start : Bytes} (hm : (32 : Byte) ∉ m)
    (hk : HttpRequest.methodOf m ≠ .kInvalid) (hl : search kCRLF (m ++ 32 :: start) = none) :
    (processTarget { HttpRequest.new with method := HttpRequest.methodOf m } start).1 = true ↔
      ∃ l : RequestLine, m ++ 32 :: start = l.bytes := by
  have hmm := (HttpRequest.methodOf_eq_iff hk).mp rfl
  constructor
  · intro h
    obtain ⟨target, version, hv, hsp, rfl⟩ := processTarget_true h
    exact ⟨⟨_, target, version, hk, hv, hsp, by rw [← hmm]; exact hl⟩,
      congrArg (· ++ 32 :: (target ++ 32 :: versionString version)) hmm⟩
  · rintro ⟨l, he⟩
    have hok := processRequestLine_bytes l
    rw [← he, processRequestLine_known hm hk] at hok
    exact congrArg Prod.fst (Except.ok.inj hok)

/-- On a new context a line is accepted exactly when it is a request line, and leaves a
method behind exactly when it starts with one. -/
theorem processRequestLine_spec (hl : search kCRLF line = none) :
    ∃ ok c, new.processRequestLine line = .ok (ok, c) ∧ c.state = .kExpectRequestLine ∧
      (ok = true ↔ ∃ l : RequestLine, line = l.bytes) ∧
      (Recognised line ∧ c.request.method ≠ .kInvalid ∨ ¬ Recognised line ∧ c = new) := by
  by_cases hs : (32 : Byte) ∈ line
  · obtain ⟨m, start, rfl, hm⟩ := List.eq_append_cons_of_mem hs
    by_cases hk : HttpRequest.methodOf m = .kInvalid
    · have hn : ¬ Recognised (m ++ 32 :: start) := fun h => (recognised_iff hm).mp h hk
      refine ⟨false, new, processRequestLine_unknown hm hk, rfl, ⟨fun h => (nomatch h), ?_⟩,
        .inr ⟨hn, rfl⟩⟩
      rintro ⟨l, he⟩
      exact absurd ⟨_, _, l.known, he⟩ hn
    · refine ⟨_, _, processRequestLine_known hm hk, rfl, accepted_iff hm hk hl,
        .inl ⟨(recognised_iff hm).mpr hk, ?_⟩⟩
      rw [processTarget_method]
      exact hk
  · have hn : ¬ Recognised line := by
      rintro ⟨k, start, _, rfl⟩
      exact hs (by simp)
    refine ⟨false, new, processRequestLine_no_space hs, rfl, ⟨fun h => (nomatch h), ?_⟩,
      .inr ⟨hn, rfl⟩⟩
    rintro ⟨l, he⟩
    exact absurd ⟨_, _, l.known, he⟩ hn

/-- A second request line on the same context trips the assertion as soon as it has a
space. -/
theorem processRequestLine_again (hm : c.request.method ≠ .kInvalid) (hs : (32 : Byte) ∈ line) :
    c.processRequestLine line = .error .assertion := by
  unfold processRequestLine
  rw [if_pos (List.idxOf_lt_length_iff.mpr hs).ne, HttpRequest.setMethod_again hm]
  rfl

theorem exists_headerLine (hc : (58 : Byte) ∈ line) (hl : search kCRLF line = none) :
    ∃ h : HeaderLine, line = h.bytes := by
  obtain ⟨field, value, rfl, hf⟩ := List.eq_append_cons_of_mem hc
  exact ⟨⟨field, value, hf, hl⟩, rfl⟩

private theorem onLine_request (l : RequestLine) : onLine t new l.bytes =
    .next ⟨.kExpectHeaders, (l.describe .new).setReceiveTime t⟩ := by
  unfold onLine
  rw [processRequestLine_bytes]
  rfl

private theorem onLine_header (h : HeaderLine) : onLine t ⟨.kExpectHeaders, r⟩ h.bytes =
    .next ⟨.kExpectHeaders, h.describe r⟩ := by
  obtain ⟨hne, ht, hd⟩ := cut h.text h.no_colon
  simp only [onLine, HeaderLine.bytes, List.mem_append, List.mem_cons, true_or, or_true, if_true,
    HttpRequest.addHeader, ht, hd]
  rfl

private theorem onLine_colonFree (h : ColonFree line) : onLine t ⟨.kExpectHeaders, r⟩ line =
    .finish (.ok (true, ⟨.kGotAll, r⟩)) := by
  simp only [onLine, if_neg h.no_colon]
  rfl

private theorem run_headerLines (hs : List HeaderLine) (rest : Bytes) :
    (scanner t).run ⟨.kExpectHeaders, r⟩ ((hs.flatMap fun h => h.bytes ++ kCRLF) ++ rest) =
      (scanner t).run ⟨.kExpectHeaders, hs.foldl HeaderLine.describe r⟩ rest := by
  induction hs generalizing r with
  | nil => rfl
  | cons h hs ih =>
    rw [List.flatMap_cons, List.append_assoc, List.foldl_cons, ← ih]
    exact Scanner.lines_next h.isLine (onLine_header h)

theorem run_lines (h : Head) (rest : Bytes) : (scanner t).run new (h.lines ++ rest) =
    (scanner t).run ⟨.kExpectHeaders, h.request t⟩ rest := by
  rw [Head.lines, List.append_assoc, Head.request, ← run_headerLines]
  exact Scanner.lines_next h.requestLine.isLine (onLine_request _)

private theorem run_end (hl : ColonFree line) (rest : Bytes) :
    (scanner t).run ⟨.kExpectHeaders, r⟩ (line ++ kCRLF ++ rest) =
      .stopped (.ok (true, ⟨.kGotAll, r⟩)) rest :=
  Scanner.lines_finish (isLine_iff.mpr hl.no_crlf) (onLine_colonFree hl)

/-- The header section ends at the first line without a colon. -/
theorem run_colonFree (h : Head) (hl : ColonFree line) (rest : Bytes) :
    (scanner t).run new (h.lines ++ (line ++ kCRLF ++ rest)) =
      .stopped (.ok (true, ⟨.kGotAll, h.request t⟩)) rest := by
  rw [run_lines, run_end hl]

theorem nil_colonFree : ColonFree [] := ⟨List.not_mem_nil, rfl⟩

/-- A well-formed head is consumed exactly. -/
theorem run_head (h : Head) (rest : Bytes) : (scanner t).run new (h.bytes ++ rest) =
    .stopped (.ok (true, ⟨.kGotAll, h.request t⟩)) rest := by
  rw [Head.bytes, List.append_assoc]
  exact run_colonFree h nil_colonFree rest

theorem run_no_line {xs : Bytes} (h : search kCRLF xs = none) :
    (scanner t).run c xs = .waiting c xs := Scanner.lines_wait h

/-- The header section waits for the end of a line. -/
theorem run_incomplete (h : Head) {tail : Bytes} (hs : search kCRLF tail = none) :
    (scanner t).run new (h.lines ++ tail) = .waiting ⟨.kExpectHeaders, h.request t⟩ tail := by
  rw [run_lines, run_no_line hs]

/-- What is not a request line is rejected and stays unread. -/
theorem run_rejected (hl : search kCRLF line = none) (hn : ¬ ∃ l : RequestLine, line = l.bytes)
    (rest : Bytes) : ∃ c : HttpContext, c.state = .kExpectRequestLine ∧
      (Recognised line ∧ c.request.method ≠ .kInvalid ∨ ¬ Recognised line ∧ c = new) ∧
      ∀ t, (scanner t).run new (line ++ kCRLF ++ rest) =
        .stopped (.ok (false, c)) (line ++ kCRLF ++ rest) := by
  obtain ⟨ok, c, hp, hs, hok, hm⟩ := processRequestLine_spec hl
  cases ok with
  | true => exact absurd (hok.mp rfl) hn
  | false =>
    refine ⟨c, hs, hm, fun t => Scanner.lines_reject (isLine_iff.mpr hl) ?_⟩
    unfold onLine
    rw [hp]
    rfl

private theorem headers_split (xs : Bytes) : ∃ hs : List HeaderLine, ∃ tail,
    xs = (hs.flatMap fun h => h.bytes ++ kCRLF) ++ tail ∧
      (search kCRLF tail = none ∨ ∃ line rest, ColonFree line ∧ tail = line ++ kCRLF ++ rest) := by
  induction hn : xs.length using Nat.strongRecOn generalizing xs with
  | ind n ih =>
    rcases Scanner.line_cases kCRLF_ne_nil xs with hs | ⟨line, rest, hl, rfl⟩
    · exact ⟨[], xs, rfl, .inl hs⟩
    · have hl' := isLine_iff.mp hl
      by_cases hc : (58 : Byte) ∈ line
      · obtain ⟨h, rfl⟩ := exists_headerLine hc hl'
        have hlt : rest.length < n := by
          rw [List.length_append, List.length_append] at hn
          have : kCRLF.length = 2 := rfl
          omega
        obtain ⟨hs, tail, rfl, ht⟩ := ih _ hlt rest rfl
        exact ⟨h :: hs, tail, by simp only [List.flatMap_cons, List.append_assoc], ht⟩
      · exact ⟨[], _, rfl, .inr ⟨line, rest, ⟨hc, hl'⟩, rfl⟩⟩

/-- The receive time is stored with the request line; later calls leave it alone. -/
theorem run_headers_time (t u : Timestamp) (r : HttpRequest) (xs : Bytes) :
    (scanner t).run ⟨.kExpectHeaders, r⟩ xs = (scanner u).run ⟨.kExpectHeaders, r⟩ xs := by
  obtain ⟨hs, tail, rfl, hw | ⟨line, rest, hc, rfl⟩⟩ := headers_split xs
  · rw [run_headerLines, run_headerLines, run_no_line hw, run_no_line hw]
  · rw [run_headerLines, run_headerLines, run_end hc, run_end hc]

/-- The four shapes of the input of a new context. -/
theorem input_cases (xs : Bytes) :
    search kCRLF xs = none ∨
    (∃ line rest, search kCRLF line = none ∧ (¬ ∃ l : RequestLine, line = l.bytes) ∧
      xs = line ++ kCRLF ++ rest) ∨
    (∃ h : Head, ∃ tail, search kCRLF tail = none ∧ xs = h.lines ++ tail) ∨
    (∃ h : Head, ∃ line rest, ColonFree line ∧ xs = h.lines ++ (line ++ kCRLF ++ rest)) := by
  rcases Scanner.line_cases kCRLF_ne_nil xs with hs | ⟨line, rest, hl, rfl⟩
  · exact .inl hs
  · by_cases hr : ∃ l : RequestLine, line = l.bytes
    · obtain ⟨l, rfl⟩ := hr
      obtain ⟨hs, tail, rfl, hn | ⟨last, rest, hc, rfl⟩⟩ := headers_split rest
      · exact .inr (.inr (.inl ⟨⟨l, hs⟩, tail, hn, by simp only [Head.lines, List.append_assoc]⟩))
      · exact .inr (.inr (.inr ⟨⟨l, hs⟩, last, rest, hc, by
          simp only [Head.lines, List.append_assoc]⟩))
    · exact .inr (.inl ⟨line, rest, isLine_iff.mp hl, hr, rfl⟩)

/-- A scan of a new context that waits can be resumed by a later call. -/
theorem run_resume {xs rest : Bytes} (h : (scanner t).run new xs = .waiting c rest)
    (u : Timestamp) (ys : Bytes) :
    c.Reads ∧ ∃ v, (scanner u).run c (rest ++ ys) = (scanner v).run new (xs ++ ys) := by
  rcases input_cases xs with hw | ⟨line, tail, hl, hn, rfl⟩ | ⟨hd, tail, hw, rfl⟩ |
    ⟨hd, line, tail, hc, rfl⟩
  · rw [run_no_line hw] at h
    cases h
    exact ⟨.inl rfl, u, rfl⟩
  · obtain ⟨c', _, _, hr⟩ := run_rejected hl hn tail
    rw [hr] at h
    cases h
  · rw [run_incomplete hd hw] at h
    cases h
    refine ⟨.inr rfl, t, ?_⟩
    rw [run_headers_time u t, List.append_assoc, run_lines]
  · rw [run_colonFree hd hc] at h
    cases h

/-- A scan of a new context that stops has rejected a request line or got all. -/
theorem run_ended {xs rest : Bytes} {res : Except Fault (Bool × HttpContext)}
    (h : (scanner t).run new xs = .stopped res rest) :
    ∃ ok c, res = .ok (ok, c) ∧ (ok = true ↔ c.gotAll = true) := by
  rcases input_cases xs with hw | ⟨line, tail, hl, hn, rfl⟩ | ⟨hd, tail, hw, rfl⟩ |
    ⟨hd, line, tail, hc, rfl⟩
  · rw [run_no_line hw] at h
    cases h
  · obtain ⟨c', hs, _, hr⟩ := run_rejected hl hn tail
    rw [hr] at h
    cases h
    exact ⟨false, c', rfl, by simp [gotAll, hs]⟩
  · rw [run_incomplete hd hw] at h
    cases h
  · rw [run_colonFree hd hc] at h
    cases h
    exact ⟨true, _, rfl, by simp [gotAll]⟩

/-- A call that answers a scan of a new context returns. -/
theorem answers_returns {x : Except Fault (Bool × HttpContext × Buffer)} {xs : Bytes}
    (h : Answers x ((scanner t).run new xs)) :
    ∃ ok c, ∃ buf : Buffer, x = .ok (ok, c, buf) ∧ buf.Inv := by
  cases hr : (scanner t).run new xs with
  | waiting c rest =>
    rw [hr] at h
    obtain ⟨buf, hx, hi, _⟩ := h
    exact ⟨true, c, buf, hx, hi⟩
  | stopped res rest =>
    obtain ⟨ok, c, rfl, _⟩ := run_ended hr
    rw [hr] at h
    obtain ⟨buf, hx, hi, _⟩ := h
    exact ⟨ok, c, buf, hx, hi⟩

end HttpContext
end Muduo.Http
