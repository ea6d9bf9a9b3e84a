import Muduo.Http.Head

/-! Feeding a parser chunk by chunk. -/
namespace Muduo.Http
open Muduo.Base Muduo.Net Muduo.Support

/-- A parser, its input buffer, and the return of its last call. -/
structure Feed where
  ok : Bool
  context : HttpContext
  buf : Buffer

/-- Bytes and the time they are received. -/
structure Chunk where
  bytes : Bytes
  receiveTime : Timestamp

namespace Feed
open HttpContext

def new : Feed := ⟨true, .new, .new⟩

/-- A call has returned false or completed a request. -/
def ended (f : Feed) : Bool := !f.ok || f.context.gotAll

/-- A chunk is appended; it is parsed unless a call has ended the parse. -/
def deliver (f : Feed) (chunk : Chunk) : Except Fault Feed := do
  let buf ← f.buf.append chunk.bytes
  if f.ended then return { f with buf }
  else do
    let (ok, context, buf) ← f.context.parseRequest buf chunk.receiveTime
    return ⟨ok, context, buf⟩

def feed (f : Feed) (chunks : List Chunk) : Except Fault Feed := chunks.foldlM deliver f

def bytes (chunks : List Chunk) : Bytes := chunks.flatMap Chunk.bytes

/-- Where a parser stands after `xs` in any number of chunks: where one scan of `xs`
stands. -/
structure Stands (xs : Bytes) (f : Feed) : Prop where
  inv : f.buf.Inv
  answers : ∃ t, Answers (.ok (f.ok, f.context, f.buf)) ((scanner t).run .new xs)

variable {f : Feed} {xs : Bytes}

theorem new_stands : Stands [] new :=
  ⟨Buffer.new_inv _, 0, by
    rw [run_no_line rfl]
    exact ⟨.new, rfl, Buffer.new_inv _, Buffer.new_readable _⟩⟩

/-- One delivery moves a parser to where one scan of the longer input stands. -/
theorem deliver_stands (h : Stands xs f) (chunk : Chunk) :
    ∃ f', f.deliver chunk = .ok f' ∧ Stands (xs ++ chunk.bytes) f' := by
  obtain ⟨hi, t, ha⟩ := h
  obtain ⟨buf, hb, hi', hr', _⟩ := Buffer.append_spec hi chunk.bytes
  rw [deliver, hb, ok_bind]
  cases hrun : (scanner t).run .new xs with
  | waiting c rest =>
    rw [hrun] at ha
    obtain ⟨_, he, _, hr⟩ := ha
    obtain ⟨hok, hc, hbuf⟩ : f.ok = true ∧ f.context = c ∧ f.buf = _ := by simpa using he
    obtain ⟨hreads, v, hv⟩ := run_resume hrun chunk.receiveTime chunk.bytes
    have hgo : f.ended = false := by
      rw [ended, gotAll, hok, hc]
      rcases hreads with hs | hs <;> simp [hs]
    have hp := parseRequest_answers hreads hi' chunk.receiveTime
    rw [hr', hbuf, hr, hv] at hp
    obtain ⟨ok, c', buf', hx, hi''⟩ := answers_returns hp
    rw [hgo, hc]
    simp only [Bool.false_eq_true, if_false, hx, ok_bind]
    exact ⟨_, rfl, hi'', v, hx ▸ hp⟩
  | stopped res rest =>
    obtain ⟨ok, c, rfl, hend⟩ := run_ended hrun
    rw [hrun] at ha
    obtain ⟨_, he, _, hr⟩ := ha
    obtain ⟨hok, hc, hbuf⟩ : f.ok = ok ∧ f.context = c ∧ f.buf = _ := by simpa using he
    have hstop : f.ended = true := by
      rw [ended, hok, hc]
      cases ok <;> simp_all
    rw [hstop, if_pos rfl]
    refine ⟨_, rfl, hi', t, ?_⟩
    rw [Scanner.run_append, hrun, hok, hc]
    exact ⟨buf, rfl, hi', by rw [hr', hbuf, hr]⟩

theorem feed_stands (h : Stands xs f) (chunks : List Chunk) :
    ∃ f', f.feed chunks = .ok f' ∧ Stands (xs ++ bytes chunks) f' := by
  induction chunks generalizing f xs with
  | nil => exact ⟨f, rfl, by simpa [bytes] using h⟩
  | cons chunk chunks ih =>
    obtain ⟨f₁, hd, h₁⟩ := deliver_stands h chunk
    obtain ⟨f₂, hf, h₂⟩ := ih h₁
    refine ⟨f₂, ?_, ?_⟩
    · rw [feed, List.foldlM_cons, hd]
      exact hf
    · rw [bytes, List.flatMap_cons, ← List.append_assoc]
      exact h₂

/-- A context without its receive time. -/
def timeless (c : HttpContext) : HttpContext := ⟨c.state, c.request.setReceiveTime .invalid⟩

/-- The return, the context and the unread bytes of a scan. -/
def outcome : Scan HttpContext (Except Fault (Bool × HttpContext)) Byte →
    Option (Bool × HttpContext × Bytes)
  | .waiting c rest => some (true, timeless c, rest)
  | .stopped (.ok (ok, c)) rest => some (ok, timeless c, rest)
  | .stopped (.error _) _ => none

private theorem outcome_time (t u : Timestamp) (xs : Bytes) :
    outcome ((scanner t).run .new xs) = outcome ((scanner u).run .new xs) := by
  rcases input_cases xs with hw | ⟨line, tail, hl, hn, rfl⟩ | ⟨hd, tail, hw, rfl⟩ |
    ⟨hd, line, tail, hc, rfl⟩
  · rw [run_no_line hw, run_no_line hw]
  · obtain ⟨c, _, _, hr⟩ := run_rejected hl hn tail
    rw [hr, hr]
  · simp only [run_incomplete hd hw, outcome, timeless, Head.request_setReceiveTime]
  · simp only [run_colonFree hd hc, outcome, timeless, Head.request_setReceiveTime]

private theorem outcome_answers {ok : Bool} {c : HttpContext} {buf : Buffer}
    {scan : Scan HttpContext (Except Fault (Bool × HttpContext)) Byte}
    (h : Answers (.ok (ok, c, buf)) scan) : outcome scan = some (ok, timeless c, buf.readable) := by
  match scan with
  | .waiting _ _ | .stopped (.ok _) _ =>
    obtain ⟨_, he, _, rfl⟩ := h
    cases he
    rfl
  | .stopped (.error _) _ => cases h

theorem Stands.outcome_eq (h : Stands xs f) (t : Timestamp) :
    outcome ((scanner t).run .new xs) = some (f.ok, timeless f.context, f.buf.readable) := by
  obtain ⟨_, u, ha⟩ := h
  rw [outcome_time t u, outcome_answers ha]

/-- However the bytes are cut into chunks, no call faults, and state, result, request
and unread bytes end up as for one chunk, the receive time apart. -/
theorem parse_segmentation (chunks : List Chunk) (t : Timestamp) :
    ∃ f g, feed .new chunks = .ok f ∧ feed .new [⟨bytes chunks, t⟩] = .ok g ∧
      f.ok = g.ok ∧ f.context.state = g.context.state ∧
      f.context.request.method = g.context.request.method ∧
      f.context.request.version = g.context.request.version ∧
      f.context.request.path = g.context.request.path ∧
      f.context.request.query = g.context.request.query ∧
      f.context.request.headers = g.context.request.headers ∧
      f.buf.readable = g.buf.readable := by
  obtain ⟨f, hf, hsf⟩ := feed_stands new_stands chunks
  obtain ⟨g, hg, hsg⟩ := feed_stands new_stands [⟨bytes chunks, t⟩]
  have hone : bytes [⟨bytes chunks, t⟩] = bytes chunks := by simp [bytes]
  rw [hone] at hsg
  have hsame := (hsf.outcome_eq t).symm.trans (hsg.outcome_eq t)
  simp only [Option.some.injEq, Prod.mk.injEq, timeless, HttpContext.mk.injEq] at hsame
  obtain ⟨hok, ⟨hstate, hrequest⟩, hread⟩ := hsame
  obtain ⟨hm, hv, hp, hq, _, hh⟩ := HttpRequest.mk.inj hrequest
  exact ⟨f, g, hf, hg, hok, hstate, hm, hv, hp, hq, hh, hread⟩

end Feed
end Muduo.Http
