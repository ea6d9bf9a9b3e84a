import Muduo.Http.Segmentation

/-! Where the parser lets the header section end. -/
namespace Muduo.Http.HeaderSection
open Muduo.Base Muduo.Net Muduo.Support

private theorem last_unique {hs hs' : List HeaderLine} {line line' rest rest' : Bytes}
    (h : ColonFree line) (h' : ColonFree line')
    (he : (hs.flatMap fun l => l.bytes ++ kCRLF) ++ (line ++ (kCRLF ++ rest)) =
      (hs'.flatMap fun l => l.bytes ++ kCRLF) ++ (line' ++ (kCRLF ++ rest'))) : line = line' := by
  have hl := isLine_iff.mpr h.no_crlf
  have hl' := isLine_iff.mpr h'.no_crlf
  induction hs generalizing hs' with
  | nil =>
    cases hs' with
    | nil => exact (hl.unique hl' he).1
    | cons g gs =>
      simp only [List.flatMap_nil, List.nil_append, List.flatMap_cons, List.append_assoc] at he
      obtain ⟨rfl, _⟩ := hl.unique g.isLine he
      exact absurd (by simp [HeaderLine.bytes]) h.no_colon
  | cons g gs ih =>
    cases hs' with
    | nil =>
      simp only [List.flatMap_nil, List.nil_append, List.flatMap_cons, List.append_assoc] at he
      obtain ⟨rfl, _⟩ := g.isLine.unique hl' he
      exact absurd (by simp [HeaderLine.bytes]) h'.no_colon
    | cons g' gs' =>
      simp only [List.flatMap_cons, List.append_assoc] at he
      exact ih (g.isLine.unique g'.isLine he).2

/-- The line that ends a header section is determined by the input. -/
theorem last_line_unique {h h' : Head} {line line' rest rest' : Bytes} (hl : ColonFree line)
    (hl' : ColonFree line')
    (he : h.lines ++ (line ++ kCRLF ++ rest) = h'.lines ++ (line' ++ kCRLF ++ rest')) :
    line = line' := by
  simp only [Head.lines, List.append_assoc] at he
  exact last_unique hl hl' (h.requestLine.isLine.unique h'.requestLine.isLine he).2

/-- A valid request line and colon lines, then a line that is neither empty nor has a
colon. -/
def EndsEarly (xs : Bytes) : Prop :=
  ∃ h : Head, ∃ line rest, line ≠ [] ∧ ColonFree line ∧ xs = h.lines ++ (line ++ kCRLF ++ rest)

/-- A completed request has consumed a well-formed head, and no head that ends early
completes one. -/
def Sound (chunks : List Chunk) : Prop :=
  ∀ f, Feed.feed .new chunks = .ok f → f.context.gotAll = true →
    (∃ h : Head, Feed.bytes chunks = h.bytes ++ f.buf.readable) ∧ ¬ EndsEarly (Feed.bytes chunks)

variable {chunks : List Chunk} {f : Feed}

private theorem stands (hf : Feed.feed .new chunks = .ok f) : Feed.Stands (Feed.bytes chunks) f := by
  obtain ⟨f', hf', hs⟩ := Feed.feed_stands Feed.new_stands chunks
  rw [hf] at hf'
  cases hf'
  exact hs

private theorem outcome_state (hf : Feed.feed .new chunks = .ok f) {ok : Bool} {c : HttpContext}
    {rest : Bytes} (h : Feed.outcome ((HttpContext.scanner 0).run .new (Feed.bytes chunks)) =
      some (ok, Feed.timeless c, rest)) : f.context.state = c.state ∧ f.buf.readable = rest := by
  rw [(stands hf).outcome_eq 0] at h
  simp only [Option.some.injEq, Prod.mk.injEq, Feed.timeless, HttpContext.mk.injEq] at h
  exact ⟨h.2.1.1, h.2.2⟩

/-- Every colon-free line behind a request line and colon lines completes a request. -/
theorem gotAll_of_colonFree (hf : Feed.feed .new chunks = .ok f) {h : Head} {line rest : Bytes}
    (hc : ColonFree line) (he : Feed.bytes chunks = h.lines ++ (line ++ kCRLF ++ rest)) :
    f.context.gotAll = true ∧ f.buf.readable = rest := by
  obtain ⟨hs, hr⟩ := outcome_state hf (by rw [he, HttpContext.run_colonFree h hc]; rfl)
  exact ⟨by simp [HttpContext.gotAll, hs], hr⟩

/-- Nothing else does. -/
theorem colonFree_of_gotAll (hf : Feed.feed .new chunks = .ok f) (hg : f.context.gotAll = true) :
    ∃ h : Head, ∃ line, ColonFree line ∧
      Feed.bytes chunks = h.lines ++ (line ++ kCRLF ++ f.buf.readable) := by
  have hstate : f.context.state = .kGotAll := by simpa [HttpContext.gotAll] using hg
  rcases HttpContext.input_cases (Feed.bytes chunks) with
    hw | ⟨line, tail, hl, hn, he⟩ | ⟨h, tail, hw, he⟩ | ⟨h, line, rest, hc, he⟩
  · obtain ⟨hs, _⟩ := outcome_state hf (by rw [HttpContext.run_no_line hw]; rfl)
    rw [hstate] at hs
    cases hs
  · obtain ⟨c, hcs, _, hr⟩ := HttpContext.run_rejected hl hn tail
    obtain ⟨hs, _⟩ := outcome_state hf (by rw [he, hr]; rfl)
    rw [hstate, hcs] at hs
    cases hs
  · obtain ⟨hs, _⟩ := outcome_state hf (by rw [he, HttpContext.run_incomplete h hw]; rfl)
    rw [hstate] at hs
    cases hs
  · exact ⟨h, line, hc, by rw [(gotAll_of_colonFree hf hc he).2, he]⟩

/-- Where a header section ends early, a request is completed and what was consumed is
no well-formed head. -/
theorem ends_early (hf : Feed.feed .new chunks = .ok f) (h : EndsEarly (Feed.bytes chunks)) :
    f.context.gotAll = true ∧
      ¬ ∃ h : Head, Feed.bytes chunks = h.bytes ++ f.buf.readable := by
  obtain ⟨h, line, rest, hne, hc, he⟩ := h
  refine ⟨(gotAll_of_colonFree hf hc he).1, ?_⟩
  rintro ⟨h', he'⟩
  rw [he, Head.bytes, List.append_assoc h'.lines] at he'
  exact hne (last_line_unique hc HttpContext.nil_colonFree he')

/-- The header section ends soundly exactly on inputs that do not end it early. -/
theorem header_section_iff (chunks : List Chunk) :
    Sound chunks ↔ ¬ EndsEarly (Feed.bytes chunks) := by
  obtain ⟨f, hf, _⟩ := Feed.feed_stands Feed.new_stands chunks
  constructor
  · intro hsound hearly
    obtain ⟨hg, hn⟩ := ends_early hf hearly
    exact hn (hsound f hf hg).1
  · intro hn f hf hg
    obtain ⟨h, line, hc, he⟩ := colonFree_of_gotAll hf hg
    by_cases hne : line = []
    · subst hne
      refine ⟨⟨h, ?_⟩, hn⟩
      rw [he, Head.bytes, List.nil_append, List.append_assoc]
    · exact absurd ⟨h, line, _, hne, hc, he⟩ hn

/-- The line "foo" ends a header section. -/
theorem foo_completes_request : ∃ f,
    Feed.feed .new [⟨text "GET / HTTP/1.1\r\nfoo\r\n", 0⟩] = .ok f ∧ f.context.gotAll = true ∧
      ¬ ∃ h : Head, text "GET / HTTP/1.1\r\nfoo\r\n" = h.bytes ++ f.buf.readable := by
  obtain ⟨f, hf, _⟩ := Feed.feed_stands Feed.new_stands [⟨text "GET / HTTP/1.1\r\nfoo\r\n", 0⟩]
  have hearly : EndsEarly (text "GET / HTTP/1.1\r\nfoo\r\n") :=
    ⟨⟨.getRoot, []⟩, text "foo", [], by decide, ⟨by decide, by decide⟩, by decide⟩
  exact ⟨f, hf, ends_early hf hearly⟩

end Muduo.Http.HeaderSection
