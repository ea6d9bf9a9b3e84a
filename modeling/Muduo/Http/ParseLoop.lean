import Muduo.Http.Rejection

/-! Why the loop of `parseRequest` ends, whatever a connection has received. -/
namespace Muduo.Http
open Muduo.Base Muduo.Net Muduo.Support

namespace HttpContext

/-- The loop of `parseRequest`, an iteration a step. -/
def loop (receiveTime : Timestamp) : Machine Parsing Unit where
  enabled p _ := p.hasMore = true
  step p _ := parseOnce receiveTime p

/-- A call of `parseRequest` that does not spin: it starts where the loop reads input, an
iteration that goes on takes a line with its CRLF, and so there are not many. -/
structure Ends (c : HttpContext) (buf : Buffer) (t : Timestamp) : Prop where
  reads : c.Reads
  consumes : ∀ as p p', (loop t).Run ⟨true, true, c, buf⟩ as p → p.hasMore = true →
    parseOnce t p = .ok p' → p'.hasMore = true →
      ∃ line, p.buf.readable = line ++ kCRLF ++ p'.buf.readable
  bounded : ∀ as p, (loop t).Run ⟨true, true, c, buf⟩ as p → 2 * as.length ≤ buf.readableBytes + 2
  returns : c.parseRequest buf t ≠ .error .spin

/-- The loop in front of an iteration. -/
structure Going (p : Parsing) : Prop where
  ok : p.ok = true
  hasMore : p.hasMore = true
  reads : p.context.Reads
  inv : p.buf.Inv

variable {c : HttpContext} {buf : Buffer} {t : Timestamp} {p p' : Parsing} {line : Bytes}

private theorem processRequestLine_fault {f : Fault} (h : c.processRequestLine line = .error f) :
    f = .assertion := by
  unfold processRequestLine at h
  dsimp only at h
  split at h
  · by_cases hm : c.request.method = .kInvalid
    · rw [HttpRequest.setMethod_new hm, ok_bind] at h
      split at h <;> cases h
    · rw [HttpRequest.setMethod_again hm] at h
      cases h
      rfl
  · cases h

private theorem onLine_fault (hc : c.Reads) {f : Fault} :
    (onLine t c line = .reject (.error f) → f = .assertion) ∧
      onLine t c line ≠ .finish (.error f) := by
  rcases hc with hc | hc
  · simp only [onLine, hc]
    cases hp : c.processRequestLine line with
    | error g =>
      refine ⟨fun h => ?_, fun h => ?_⟩
      · cases h
        exact processRequestLine_fault hp
      · cases h
    | ok p =>
      obtain ⟨ok, c'⟩ := p
      cases ok with
      | false => simp
      | true => simp
  · simp only [onLine, hc]
    split
    · simp
    · simp

/-- An iteration stops, goes on behind a line, or fails the assertion of `setMethod`. -/
theorem Going.iteration (h : Going p) :
    (∃ p', parseOnce t p = .ok p' ∧ p'.hasMore = false) ∨
      (∃ p' line, parseOnce t p = .ok p' ∧ Going p' ∧
        p.buf.readable = line ++ kCRLF ++ p'.buf.readable) ∨
      parseOnce t p = .error .assertion := by
  obtain ⟨ok, hasMore, c, buf⟩ := p
  obtain ⟨rfl, rfl, hc, hi⟩ := h
  rcases Scanner.line_cases kCRLF_ne_nil buf.readable with hs | ⟨line, rest, hl, hr⟩
  · exact .inl ⟨_, parseOnce_wait hc hs, rfl⟩
  · obtain ⟨buf', hi', hrest, hp⟩ := parseOnce_line hc hi hl hr (t := t)
    rw [hp]
    cases hv : onLine t c line with
    | next c' =>
      refine .inr (.inl ⟨_, line, rfl, ⟨rfl, rfl, onLine_reads hv, hi'⟩, ?_⟩)
      rw [hrest]
      exact hr
    | reject r =>
      cases r with
      | ok r => exact .inl ⟨_, rfl, rfl⟩
      | error f =>
        have hf := (onLine_fault hc).1 hv
        exact .inr (.inr (congrArg Except.error hf))
    | finish r =>
      cases r with
      | ok r => exact .inl ⟨_, rfl, rfl⟩
      | error f => exact absurd hv (onLine_fault hc).2

/-- The CRLF of the line. -/
private theorem consumed {line : Bytes} (hi : p.buf.Inv) (hi' : p'.buf.Inv)
    (h : p.buf.readable = line ++ kCRLF ++ p'.buf.readable) :
    p'.buf.readableBytes + 2 ≤ p.buf.readableBytes := by
  have hlen := congrArg List.length h
  rw [Buffer.readable_length hi, List.length_append, List.length_append,
    Buffer.readable_length hi'] at hlen
  have hcrlf : kCRLF.length = 2 := rfl
  omega

theorem Going.run {as : List Unit} (hr : (loop t).Run p as p') (h : Going p) :
    2 * as.length ≤ p.buf.readableBytes + 2 ∧ (p'.hasMore = true → Going p') := by
  induction hr with
  | nil p => exact ⟨Nat.zero_le _, fun _ => h⟩
  | @cons p q p' a as he hs hr ih =>
    rcases h.iteration (t := t) with ⟨q', hq, hstop⟩ | ⟨q', line, hq, hgo, hline⟩ | hf
    · cases hs.symm.trans hq
      cases hr with
      | nil => exact ⟨Nat.le_add_left _ _, fun hm => absurd hm (by rw [hstop]; decide)⟩
      | cons he' _ _ =>
        have hm : q.hasMore = true := he'
        rw [hstop] at hm
        cases hm
    · cases hs.symm.trans hq
      obtain ⟨hlen, hgoing⟩ := ih hgo
      have := consumed h.inv hgo.inv hline
      refine ⟨?_, hgoing⟩
      rw [List.length_cons]
      omega
    · cases hs.symm.trans hf

theorem Going.returns (h : Going p) {fuel : Nat} (hf : p.buf.readableBytes + 2 ≤ fuel) :
    parseLoop t fuel p ≠ .error .spin := by
  induction fuel generalizing p with
  | zero => omega
  | succ fuel ih =>
    rw [parseLoop, if_pos h.hasMore]
    rcases h.iteration (t := t) with ⟨q, hq, hstop⟩ | ⟨q, line, hq, hgo, hline⟩ | hassert
    · obtain ⟨fuel, rfl⟩ : ∃ k, fuel = k + 1 := ⟨fuel - 1, by omega⟩
      rw [hq, ok_bind, parseLoop, hstop]
      intro h
      cases h
    · have := consumed h.inv hgo.inv hline
      rw [hq, ok_bind]
      exact ih hgo (by omega)
    · rw [hassert]
      intro h
      cases h

/-- A call that starts where the loop reads input ends. -/
theorem Reads.ends (hc : c.Reads) (hi : buf.Inv) (t : Timestamp) : c.Ends buf t := by
  have hgoing : Going ⟨true, true, c, buf⟩ := ⟨rfl, rfl, hc, hi⟩
  refine ⟨hc, fun as p p' hr hm hs hm' => ?_, fun as p hr => (hgoing.run hr).1, fun h => ?_⟩
  · have hp := (hgoing.run hr).2 hm
    rcases hp.iteration (t := t) with ⟨q, hq, hstop⟩ | ⟨q, line, hq, _, hline⟩ | hf
    · cases hs.symm.trans hq
      rw [hstop] at hm'
      cases hm'
    · cases hs.symm.trans hq
      exact ⟨line, hline⟩
    · cases hs.symm.trans hf
  · have hl := hgoing.returns (t := t) (Nat.le_refl _)
    rw [parseRequest] at h
    cases hp : parseLoop t (buf.readableBytes + 2) ⟨true, true, c, buf⟩ with
    | ok p =>
      rw [hp] at h
      cases h
    | error f =>
      rw [hp] at h
      cases h
      exact hl hp

end HttpContext

namespace Session
variable {s s' : Session} {u : Bytes}

/-- `onMessage` gives the context back where the parser reads input. -/
structure Served (s : Session) : Prop where
  inv : s.inputBuffer.Inv
  reads : s.context.Reads

theorem Clean.served (h : Clean u s) : s.Served := by
  cases h with
  | line hi hc _ => exact ⟨hi, .inl (by rw [hc]; rfl)⟩
  | headers _ _ _ hi hc _ _ _ => exact ⟨hi, .inr (by rw [hc])⟩

theorem Spoiled.served (h : Spoiled s) : s.Served := ⟨h.inv, .inl h.state⟩

theorem serve_served (ds : List Delivery) (h : (∃ u, Clean u s) ∨ Spoiled s) :
    s.serve ds ≠ .error .spin ∧ ∀ s', s.serve ds = .ok s' → s'.Served := by
  induction ds generalizing s with
  | nil =>
    constructor
    · intro hs
      cases hs
    · intro s' hs
      cases hs
      rcases h with ⟨u, h⟩ | h
      · exact h.served
      · exact h.served
  | cons d ds ih =>
    rcases h with ⟨u, h⟩ | h
    · obtain ⟨s', hok, ⟨_, hs⟩ | ⟨_, hs⟩⟩ := Rejection.deliver_clean h d
      · rw [serve_cons hok]
        exact ih (.inr hs)
      · rw [serve_cons hok]
        exact ih (.inl hs)
    · have hfail : s.serve (d :: ds) = .error .assertion := by
        rw [serve, List.foldlM_cons, deliver_spoiled h]
        rfl
      rw [hfail]
      constructor
      · intro hs
        cases hs
      · intro s' hs
        cases hs

/-- Whatever a connection has received, the next call of the parser ends. -/
theorem parse_loop_ends (ds : List Delivery) : Session.new.serve ds ≠ .error .spin ∧
    ∀ s, Session.new.serve ds = .ok s → ∀ d : Delivery, ∃ buf,
      s.inputBuffer.readFd (.data d.bytes) = .ok buf ∧ s.context.Ends buf d.receiveTime := by
  obtain ⟨hspin, hserved⟩ := serve_served ds (.inl ⟨_, new_clean⟩)
  refine ⟨hspin, fun s hs d => ?_⟩
  obtain ⟨hi, hreads⟩ := hserved s hs
  obtain ⟨buf, hok, hbuf, _⟩ := Buffer.readFd_spec hi d.bytes
  exact ⟨buf, hok, hreads.ends hbuf d.receiveTime⟩

end Session
end Muduo.Http
