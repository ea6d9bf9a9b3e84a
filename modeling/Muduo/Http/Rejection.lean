import Muduo.Http.HttpServer

/-! Deliveries after a rejected request line. -/
namespace Muduo.Http.Rejection
open Muduo.Base Muduo.Net Muduo.Support HttpContext

/-- The first line starts with a method and is no request line. -/
def Malformed (xs : Bytes) : Prop :=
  ∃ line rest, search kCRLF line = none ∧ Recognised line ∧
    (¬ ∃ l : RequestLine, line = l.bytes) ∧ xs = line ++ kCRLF ++ rest

/-- A session that expects a request line gets the rest of a malformed one. -/
def Completes (s : Session) (d : Delivery) : Prop :=
  s.context.state = .kExpectRequestLine ∧ Malformed (s.inputBuffer.readable ++ d.bytes)

/-- No delivery follows one that completes a malformed request line. -/
def NoneAfter (s : Session) (ds : List Delivery) : Prop :=
  ∀ pre d d' suf t, ds = pre ++ d :: d' :: suf → s.serve pre = .ok t → ¬ Completes t d

variable {s s' : Session} {u : Bytes} {d : Delivery}

private theorem malformed_unique {line rest : Bytes} (hl : search kCRLF line = none)
    (h : Malformed (line ++ kCRLF ++ rest)) :
    Recognised line ∧ ¬ ∃ l : RequestLine, line = l.bytes := by
  obtain ⟨line', rest', hl', hr, hn, he⟩ := h
  simp only [List.append_assoc] at he
  obtain ⟨rfl, _⟩ := (isLine_iff.mpr hl).unique (isLine_iff.mpr hl') he
  exact ⟨hr, hn⟩

private theorem not_malformed_lines (h : Head) (rest : Bytes) : ¬ Malformed (h.lines ++ rest) := by
  intro hm
  simp only [Head.lines, List.append_assoc] at hm
  rw [← List.append_assoc] at hm
  exact (malformed_unique h.requestLine.no_crlf hm).2 ⟨_, rfl⟩

private theorem not_malformed_waiting {xs : Bytes} (h : search kCRLF xs = none) :
    ¬ Malformed xs := by
  rintro ⟨line, rest, hl, _, _, rfl⟩
  rw [(isLine_iff.mpr hl).search] at h
  cases h

private theorem completes_iff (h : Session.Clean u s) :
    Completes s d ↔ Malformed (u ++ d.bytes) := by
  cases h with
  | line _ hc hu => simp [Completes, hc, hu, HttpContext.new]
  | headers hd _ tail _ hc _ hs _ =>
    rw [hs, List.append_assoc]
    simp [Completes, hc, not_malformed_lines]

/-- One delivery to a clean session returns, and spoils it exactly if it completes a
malformed request line. -/
theorem deliver_clean (h : Session.Clean u s) (d : Delivery) : ∃ s', s.deliver d = .ok s' ∧
    (Completes s d ∧ s'.Spoiled ∨ ¬ Completes s d ∧ ∃ u', Session.Clean u' s') := by
  rw [completes_iff h]
  rcases input_cases (u ++ d.bytes) with hw | ⟨line, rest, hl, hn, he⟩ | ⟨hd, tail, hw, he⟩ |
    ⟨hd, line, rest, hc, he⟩
  · obtain ⟨s', hok, hclean, _⟩ := Session.deliver_waits h (.inl hw)
    exact ⟨s', hok, .inr ⟨not_malformed_waiting hw, _, hclean⟩⟩
  · obtain ⟨s', hok, _, ⟨hr, hsp⟩ | ⟨hr, hclean⟩⟩ := Session.deliver_rejected h hl hn he
    · exact ⟨s', hok, .inl ⟨⟨line, rest, hl, hr, hn, he⟩, hsp⟩⟩
    · refine ⟨s', hok, .inr ⟨?_, _, hclean⟩⟩
      rw [he]
      exact fun hm => hr (malformed_unique hl hm).1
  · obtain ⟨s', hok, hclean, _⟩ := Session.deliver_waits h (.inr ⟨hd, tail, hw, he⟩)
    exact ⟨s', hok, .inr ⟨he ▸ not_malformed_lines hd tail, _, hclean⟩⟩
  · obtain ⟨s', _, _, _, hok, hcs, hi, hr, _⟩ := Session.deliver_head h hc he
    exact ⟨s', hok, .inr ⟨he ▸ not_malformed_lines hd _, rest, .line hi hcs hr⟩⟩

private theorem noneAfter_cons (h : s.deliver d = .ok s') (ds : List Delivery) :
    NoneAfter s (d :: ds) ↔ (ds ≠ [] → ¬ Completes s d) ∧ NoneAfter s' ds := by
  constructor
  · intro hn
    refine ⟨fun hne => ?_, fun pre a a' suf t he hs => ?_⟩
    · obtain ⟨d', ds', rfl⟩ := List.exists_cons_of_ne_nil hne
      exact hn [] d d' ds' s rfl rfl
    · exact hn (d :: pre) a a' suf t (by rw [he, List.cons_append]) (by rw [Session.serve_cons h, hs])
  · rintro ⟨h₁, h₂⟩ pre a a' suf t he hs
    cases pre with
    | nil =>
      cases he
      cases hs
      exact h₁ (List.cons_ne_nil _ _)
    | cons b pre =>
      rw [List.cons_append] at he
      obtain ⟨rfl, rfl⟩ := List.cons.inj he
      rw [Session.serve_cons h] at hs
      exact h₂ pre a a' suf t rfl hs

/-- From a clean session the assertion of `setMethod` fails exactly if a delivery follows
one that completes a malformed request line. -/
theorem serve_clean (h : Session.Clean u s) (ds : List Delivery) :
    s.serve ds ≠ .error .assertion ↔ NoneAfter s ds := by
  induction ds generalizing s u with
  | nil =>
    constructor
    · intro _ pre d d' suf t he
      simp at he
    · intro _
      simp [Session.serve, pure, Except.pure]
  | cons d ds ih =>
    obtain ⟨s', hok, ⟨hc, hsp⟩ | ⟨hc, u', hclean⟩⟩ := deliver_clean h d
    · rw [noneAfter_cons hok, Session.serve_cons hok]
      cases ds with
      | nil => simp [Session.serve, NoneAfter, pure, Except.pure]
      | cons d' ds =>
        have hfail : s'.serve (d' :: ds) = .error .assertion := by
          rw [Session.serve, List.foldlM_cons, Session.deliver_spoiled hsp]
          rfl
        simp [hfail, hc]
    · rw [noneAfter_cons hok, Session.serve_cons hok, ih hclean]
      simp [hc]

/-- On a new connection `setMethod` is only ever called with no method set, exactly
while no delivery follows one that completes a malformed request line. -/
theorem setMethod_unset_iff (ds : List Delivery) :
    Session.new.serve ds ≠ .error .assertion ↔ NoneAfter .new ds :=
  serve_clean Session.new_clean ds

private theorem http2_malformed : Malformed (text "GET / HTTP/2.0\r\n") := by
  have hr : HttpContext.new.processRequestLine (text "GET / HTTP/2.0") =
      .ok (false, ⟨.kExpectRequestLine, { HttpRequest.new with
        method := .kGet, path := text "/" }⟩) := rfl
  exact ⟨text "GET / HTTP/2.0", [], by decide, ⟨.kGet, text "/ HTTP/2.0", by decide, by decide⟩,
    not_requestLine hr, by decide⟩

/-- "GET / HTTP/2.0" is rejected; the next byte that arrives trips the assertion. -/
theorem second_delivery_asserts :
    Session.new.serve [⟨text "GET / HTTP/2.0\r\n", 0, defaultHttpCallback⟩,
      ⟨text "x", 1, defaultHttpCallback⟩] = .error .assertion := by
  have hc : Completes .new ⟨text "GET / HTTP/2.0\r\n", 0, defaultHttpCallback⟩ :=
    (completes_iff Session.new_clean).mpr http2_malformed
  obtain ⟨s, hok, ⟨_, hsp⟩ | ⟨hn, _⟩⟩ := deliver_clean Session.new_clean
    ⟨text "GET / HTTP/2.0\r\n", 0, defaultHttpCallback⟩
  · rw [Session.serve_cons hok, Session.serve, List.foldlM_cons, Session.deliver_spoiled hsp]
    rfl
  · exact absurd hc hn

end Muduo.Http.Rejection
