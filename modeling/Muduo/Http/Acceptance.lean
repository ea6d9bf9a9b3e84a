import Muduo.Http.Head

/-! The request lines the parser accepts, and the headers it makes of a well-formed
head. -/
namespace Muduo.Http
open Muduo.Base Muduo.Net Muduo.Support

/-- METHOD SP target SP version, in the words of the protocol. -/
def IsRequestLine (line : Bytes) : Prop :=
  ∃ method ∈ [text "GET", text "POST", text "HEAD", text "PUT", text "DELETE"],
    ∃ target, (32 : Byte) ∉ target ∧ ∃ version ∈ [text "HTTP/1.0", text "HTTP/1.1"],
      line = method ++ 32 :: (target ++ 32 :: version)

/-- The parts of a request, put together, are the line. -/
structure Spells (r : HttpRequest) (line : Bytes) : Prop where
  joined : HttpRequest.methodString r.method ++
    32 :: (r.path ++ r.query ++ 32 :: versionString r.version) = line
  path : (63 : Byte) ∉ r.path
  query : r.query = [] ∨ r.query.head? = some 63

/-- A text without the spaces at its ends. -/
structure Trimmed (text value : Bytes) : Prop where
  cut : ∃ front back, text = front ++ value ++ back ∧
    (∀ b ∈ front, isspace b = true) ∧ ∀ b ∈ back, isspace b = true
  front : ∀ b ∈ value.head?, isspace b = false
  back : ∀ b ∈ value.getLast?, isspace b = false

/-- Header `k` is the trimmed text of its last line, and is absent without one. -/
structure MapsLines (headers : OrderedMap Bytes Bytes) (lines : List HeaderLine) : Prop where
  last : ∀ pre l post, lines = pre ++ l :: post → (∀ l' ∈ post, l'.field ≠ l.field) →
    ∃ value, headers.find l.field = some value ∧ Trimmed l.text value
  absent : ∀ k, headers.find k = none ↔ ∀ l ∈ lines, l.field ≠ k

private theorem mem_methods {m : Bytes} :
    m ∈ [text "GET", text "POST", text "HEAD", text "PUT", text "DELETE"] ↔
      ∃ method, method ≠ .kInvalid ∧ m = HttpRequest.methodString method := by
  constructor
  · intro h
    simp only [List.mem_cons, List.not_mem_nil, or_false] at h
    rcases h with rfl | rfl | rfl | rfl | rfl
    · exact ⟨.kGet, by decide, rfl⟩
    · exact ⟨.kPost, by decide, rfl⟩
    · exact ⟨.kHead, by decide, rfl⟩
    · exact ⟨.kPut, by decide, rfl⟩
    · exact ⟨.kDelete, by decide, rfl⟩
  · rintro ⟨method, hm, rfl⟩
    cases method with
    | kInvalid => exact absurd rfl hm
    | _ => simp [HttpRequest.methodString]

private theorem mem_versions {v : Bytes} : v ∈ [text "HTTP/1.0", text "HTTP/1.1"] ↔
    ∃ version, version ≠ .kUnknown ∧ v = versionString version := by
  constructor
  · intro h
    simp only [List.mem_cons, List.not_mem_nil, or_false] at h
    rcases h with rfl | rfl
    · exact ⟨.kHttp10, by decide, rfl⟩
    · exact ⟨.kHttp11, by decide, rfl⟩
  · rintro ⟨version, hv, rfl⟩
    cases version with
    | kUnknown => exact absurd rfl hv
    | _ => simp [versionString]

theorem isRequestLine_iff {line : Bytes} (hl : search kCRLF line = none) :
    IsRequestLine line ↔ ∃ l : RequestLine, line = l.bytes := by
  constructor
  · rintro ⟨m, hm, target, hsp, v, hv, rfl⟩
    obtain ⟨method, hknown, rfl⟩ := mem_methods.mp hm
    obtain ⟨version, hversioned, rfl⟩ := mem_versions.mp hv
    exact ⟨⟨method, target, version, hknown, hversioned, hsp, hl⟩, rfl⟩
  · rintro ⟨l, rfl⟩
    exact ⟨_, mem_methods.mpr ⟨l.method, l.known, rfl⟩, l.target, l.no_space,
      _, mem_versions.mpr ⟨l.version, l.versioned, rfl⟩, rfl⟩

/-- Cut in front of the first question mark, a target keeps it in the query. -/
theorem RequestLine.describe_spells (l : RequestLine) : Spells (l.describe .new) l.bytes := by
  have htarget : l.target.take (l.target.idxOf 63) ++ l.target.drop (l.target.idxOf 63) =
      l.target := List.take_append_drop _ _
  by_cases hq : (63 : Byte) ∈ l.target
  · obtain ⟨path, query, ht, hp⟩ := List.eq_append_cons_of_mem hq
    have hidx : l.target.idxOf 63 = path.length := by
      rw [ht, List.idxOf_append_of_notMem hp, List.idxOf_cons_self, Nat.add_zero]
    refine ⟨?_, ?_, .inr ?_⟩
    · simp only [RequestLine.describe, htarget]
      rfl
    · simp only [RequestLine.describe, hidx]
      rw [ht, List.take_left]
      exact hp
    · simp only [RequestLine.describe, hidx]
      rw [ht, List.drop_left]
      rfl
  · have hidx : l.target.idxOf 63 = l.target.length := List.idxOf_eq_length_iff.mpr hq
    refine ⟨?_, ?_, .inl ?_⟩
    · simp only [RequestLine.describe, htarget]
      rfl
    · simp only [RequestLine.describe, hidx, List.take_length]
      exact hq
    · simp only [RequestLine.describe, hidx, List.drop_length]

namespace HttpContext
variable {c : HttpContext} {line : Bytes}

/-- The request line is read the same way whatever the parse state. -/
theorem processRequestLine_state (s : HttpRequestParseState) (r : HttpRequest) (line : Bytes) :
    (⟨s, r⟩ : HttpContext).processRequestLine line =
      ((⟨.kExpectRequestLine, r⟩ : HttpContext).processRequestLine line).map
        fun p => (p.1, ⟨s, p.2.request⟩) := by
  unfold processRequestLine
  dsimp only
  split
  · cases r.setMethod (line.take (line.idxOf 32)) with
    | error f => rfl
    | ok p =>
      obtain ⟨known, r'⟩ := p
      cases known with
      | false => rfl
      | true => rfl
  · rfl

/-- A line is accepted exactly if it is a request line, and the request then spells it. -/
theorem processRequestLine_exact (hc : c.request = .new) (hl : search kCRLF line = none) :
    ∃ ok c', c.processRequestLine line = .ok (ok, c') ∧ (ok = true ↔ IsRequestLine line) ∧
      (ok = true → Spells c'.request line) := by
  obtain ⟨s, r⟩ := c
  dsimp only at hc
  subst hc
  obtain ⟨ok, c', hp, _, hok, _⟩ := processRequestLine_spec hl
  refine ⟨ok, ⟨s, c'.request⟩, ?_, hok.trans (isRequestLine_iff hl).symm, fun h => ?_⟩
  · rw [processRequestLine_state]
    change (new.processRequestLine line).map _ = _
    rw [hp]
    rfl
  · obtain ⟨l, rfl⟩ := hok.mp h
    rw [processRequestLine_bytes] at hp
    cases hp
    exact l.describe_spells

/-- An empty target is one, and a second question mark stays in the query. -/
theorem processRequestLine_exact_samples :
    (∃ ok c', new.processRequestLine (text "GET  HTTP/1.0") = .ok (ok, c') ∧
        (ok = true ↔ IsRequestLine (text "GET  HTTP/1.0")) ∧
        (ok = true → Spells c'.request (text "GET  HTTP/1.0"))) ∧
      ∃ ok c', new.processRequestLine (text "PUT /a?b?c HTTP/1.1") = .ok (ok, c') ∧
        (ok = true ↔ IsRequestLine (text "PUT /a?b?c HTTP/1.1")) ∧
        (ok = true → Spells c'.request (text "PUT /a?b?c HTTP/1.1")) :=
  ⟨processRequestLine_exact rfl (by decide), processRequestLine_exact rfl (by decide)⟩

end HttpContext

private theorem dropWhile_head {b : Byte} {bs : Bytes} (h : b ∈ (bs.dropWhile isspace).head?) :
    isspace b = false := by
  have := List.head?_dropWhile_not isspace bs
  rw [h] at this
  simpa using this

/-- `addHeader` skips the spaces in front of a value and pops those behind it. -/
theorem headerValue_trimmed (text : Bytes) : Trimmed text (HttpRequest.headerValue text) := by
  have hback : (text.dropWhile isspace).rdropWhile isspace ++
      (text.dropWhile isspace).rtakeWhile isspace = text.dropWhile isspace :=
    List.rdropWhile_append_rtakeWhile
  refine ⟨⟨text.takeWhile isspace, (text.dropWhile isspace).rtakeWhile isspace, ?_, ?_, ?_⟩, ?_, ?_⟩
  · rw [HttpRequest.headerValue, List.append_assoc, hback, List.takeWhile_append_dropWhile]
  · intro b hb
    exact List.mem_takeWhile_imp hb
  · intro b hb
    exact List.mem_rtakeWhile_imp hb
  · intro b hb
    have hhead : b ∈ (text.dropWhile isspace).head? := by
      rw [← hback]
      exact List.mem_head?_append_of_mem_head? hb
    exact dropWhile_head hhead
  · intro b hb
    obtain ⟨hne, rfl⟩ := List.mem_getLast?_eq_getLast hb
    simpa [HttpRequest.headerValue] using
      List.rdropWhile_last_not isspace (text.dropWhile isspace) hne

private theorem find_describe (lines : List HeaderLine) (r : HttpRequest) (k : Bytes) :
    (lines.foldl HeaderLine.describe r).headers.find k = none ↔
      r.headers.find k = none ∧ ∀ l ∈ lines, l.field ≠ k := by
  induction lines generalizing r with
  | nil => simp
  | cons l lines ih =>
    rw [List.foldl_cons, ih, HeaderLine.describe, OrderedMap.find_insert, List.forall_mem_cons]
    by_cases hk : k = l.field
    · simp [hk]
    · simp [hk, Ne.symm hk]

private theorem find_describe_other (lines : List HeaderLine) (r : HttpRequest) {k : Bytes}
    (h : ∀ l ∈ lines, l.field ≠ k) :
    (lines.foldl HeaderLine.describe r).headers.find k = r.headers.find k := by
  induction lines generalizing r with
  | nil => rfl
  | cons l lines ih =>
    obtain ⟨hl, hlines⟩ := List.forall_mem_cons.mp h
    rw [List.foldl_cons, ih _ hlines, HeaderLine.describe, OrderedMap.find_insert,
      if_neg (Ne.symm hl)]

/-- The lines of a head, assigned in turn: the last one of a field stays. -/
theorem Head.request_maps (h : Head) (t : Timestamp) :
    MapsLines (h.request t).headers h.headerLines where
  last := by
    intro pre l post hlines hpost
    refine ⟨_, ?_, headerValue_trimmed l.text⟩
    rw [Head.request, hlines, List.foldl_append, List.foldl_cons, find_describe_other _ _ hpost,
      HeaderLine.describe, OrderedMap.find_insert, if_pos rfl]
  absent k := by
    rw [Head.request, find_describe]
    exact and_iff_right rfl

namespace HttpContext
variable {buf : Buffer} {rest : Bytes}

/-- A well-formed head is taken off the buffer, and its headers are those of its lines. -/
theorem parseRequest_head (h : Head) (t : Timestamp) (hi : buf.Inv)
    (hr : buf.readable = h.bytes ++ rest) : ∃ c, ∃ buf' : Buffer,
      HttpContext.new.parseRequest buf t = .ok (true, c, buf') ∧ c.gotAll = true ∧
      buf'.readable = rest ∧ MapsLines c.request.headers h.headerLines := by
  have hanswer := parseRequest_answers (.inl rfl : HttpContext.new.Reads) hi t
  rw [hr, run_head] at hanswer
  obtain ⟨buf', hok, _, hrest⟩ := hanswer
  exact ⟨_, buf', hok, rfl, hrest, h.request_maps t⟩

/-- GET / HTTP/1.1 with the lines "a:b" and "a: c:d " and one byte behind it. -/
def twice : Head where
  requestLine := .getRoot
  headerLines := [⟨text "a", text "b", by decide, by decide⟩,
    ⟨text "a", text " c:d ", by decide, by decide⟩]

theorem parseRequest_head_twice : ∃ c, ∃ buf' : Buffer,
    HttpContext.new.parseRequest ⟨List.replicate 8 0 ++ (twice.bytes ++ text "x"), 8, 41⟩ 0 =
        .ok (true, c, buf') ∧ c.gotAll = true ∧ buf'.readable = text "x" ∧
      MapsLines c.request.headers twice.headerLines :=
  parseRequest_head twice 0 ⟨by decide, by decide, by decide⟩ (by decide)

end HttpContext
end Muduo.Http
