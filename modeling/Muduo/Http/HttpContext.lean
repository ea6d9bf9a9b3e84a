import Muduo.Http.HttpRequest
import Muduo.Support.LineScanner

/-! `muduo::net::HttpContext`: the request parser, which keeps its state between
deliveries and reads from the connection's input buffer. -/
namespace Muduo.Http
open Muduo.Base Muduo.Net Muduo.Support

inductive HttpRequestParseState where
  | kExpectRequestLine | kExpectHeaders | kExpectBody | kGotAll
  deriving DecidableEq, Repr

structure HttpContext where
  state : HttpRequestParseState
  request : HttpRequest
  deriving DecidableEq

namespace HttpContext

def new : HttpContext := ⟨.kExpectRequestLine, .new⟩

def gotAll (c : HttpContext) : Bool := c.state = .kGotAll

def reset (_ : HttpContext) : HttpContext := .new

def setState (c : HttpContext) (s : HttpRequestParseState) : HttpContext := { c with state := s }

/-- The request target, split in front of its first question mark. -/
def setTarget (r : HttpRequest) (target : Bytes) : HttpRequest :=
  let question := target.idxOf 63
  if question ≠ target.length then
    (r.setPath (target.take question)).setQuery (target.drop question)
  else
    r.setPath target

/-- The protocol version, the last part of a request line. -/
def processVersion (r : HttpRequest) (version : Bytes) : Bool × HttpRequest :=
  if version.length = 8 ∧ version.take 7 = text "HTTP/1." then
    if version[7]? = some 49 then (true, r.setVersion .kHttp11)
    else if version[7]? = some 48 then (true, r.setVersion .kHttp10)
    else (false, r)
  else (false, r)

/-- What follows the method in a request line. -/
def processTarget (r : HttpRequest) (start : Bytes) : Bool × HttpRequest :=
  let space := start.idxOf 32
  if space ≠ start.length then
    processVersion (setTarget r (start.take space)) (start.drop (space + 1))
  else (false, r)

/-- `processRequestLine(begin, end)` on the bytes between; `std::find` is `idxOf`. -/
def processRequestLine (c : HttpContext) (line : Bytes) : Except Fault (Bool × HttpContext) :=
  let space := line.idxOf 32
  if space ≠ line.length then do
    let (known, request) ← c.request.setMethod (line.take space)
    if known then
      let (succeed, request) := processTarget request (line.drop (space + 1))
      return (succeed, { c with request })
    else return (false, { c with request })
  else return (false, c)

/-- The variables of the loop in `parseRequest`. -/
structure Parsing where
  ok : Bool
  hasMore : Bool
  context : HttpContext
  buf : Buffer

/-- The loop's body. -/
def parseOnce (receiveTime : Timestamp) (p : Parsing) : Except Fault Parsing :=
  match p.context.state with
  | .kExpectRequestLine =>
    match p.buf.findCRLF with
    | some crlf => do
        let (ok, context) ← p.context.processRequestLine
          (StdVector.range p.buf.buffer p.buf.peek crlf)
        if ok then
          let request := context.request.setReceiveTime receiveTime
          let buf ← p.buf.retrieveUntil (crlf + 2)
          return { p with ok, context := ⟨.kExpectHeaders, request⟩, buf }
        else return { p with ok, context, hasMore := false }
    | none => return { p with hasMore := false }
  | .kExpectHeaders =>
    match p.buf.findCRLF with
    | some crlf => do
        let line := StdVector.range p.buf.buffer p.buf.peek crlf
        let colon := line.idxOf 58
        let p :=
          if colon ≠ line.length then
            { p with context.request := p.context.request.addHeader line colon }
          else { p with context.state := .kGotAll, hasMore := false }
        let buf ← p.buf.retrieveUntil (crlf + 2)
        return { p with buf }
    | none => return { p with hasMore := false }
  | .kExpectBody | .kGotAll => return p

def parseLoop (receiveTime : Timestamp) : Nat → Parsing → Except Fault Parsing
  | 0, _ => .error .spin
  | fuel + 1, p =>
    if p.hasMore then do
      let p ← parseOnce receiveTime p
      parseLoop receiveTime fuel p
    else return p

/-- `parseRequest`. An iteration that goes on consumes input, so a loop longer than the
input spins for ever. -/
def parseRequest (c : HttpContext) (buf : Buffer) (receiveTime : Timestamp) :
    Except Fault (Bool × HttpContext × Buffer) := do
  let p ← parseLoop receiveTime (buf.readableBytes + 2) ⟨true, true, c, buf⟩
  return (p.ok, p.context, p.buf)

/-- The states in which the loop reads input. -/
def Reads (c : HttpContext) : Prop := c.state = .kExpectRequestLine ∨ c.state = .kExpectHeaders

/-- What one complete line does to a context; the result of a stop is that of the call. -/
def onLine (receiveTime : Timestamp) (c : HttpContext) (line : Bytes) :
    Verdict HttpContext (Except Fault (Bool × HttpContext)) :=
  match c.state with
  | .kExpectRequestLine =>
    match c.processRequestLine line with
    | .ok (true, c) => .next ⟨.kExpectHeaders, c.request.setReceiveTime receiveTime⟩
    | .ok (false, c) => .reject (.ok (false, c))
    | .error f => .reject (.error f)
  | .kExpectHeaders =>
    if 58 ∈ line then .next { c with request := c.request.addHeader line (line.idxOf 58) }
    else .finish (.ok (true, c.setState .kGotAll))
  | .kExpectBody | .kGotAll => .reject (.error .spin)

/-- The parser as a scanner of the unread bytes. -/
def scanner (receiveTime : Timestamp) :
    Scanner HttpContext (Except Fault (Bool × HttpContext)) Byte :=
  .lines kCRLF kCRLF_ne_nil (onLine receiveTime)

/-- Where a line leaves the loop, with the buffer before and behind it. -/
def concluded (before after : Buffer) :
    Verdict HttpContext (Except Fault (Bool × HttpContext)) → Except Fault Parsing
  | .next c => .ok ⟨true, true, c, after⟩
  | .reject r => r.map fun (ok, c) => ⟨ok, false, c, before⟩
  | .finish r => r.map fun (ok, c) => ⟨ok, false, c, after⟩

variable {c : HttpContext} {buf : Buffer} {t : Timestamp} {line rest : Bytes}

/-- A line at the front of a buffer: where it ends, what it is, and how it is dropped. -/
private theorem front_line (h : buf.Inv) (hl : IsLine kCRLF line)
    (hr : buf.readable = line ++ kCRLF ++ rest) :
    buf.findCRLF = some (buf.peek + line.length) ∧
      StdVector.range buf.buffer buf.peek (buf.peek + line.length) = line ∧
      ∃ buf', buf.retrieveUntil (buf.peek + line.length + 2) = .ok buf' ∧ buf'.Inv ∧
        buf'.readable = rest := by
  have hlen : buf.readableBytes = line.length + 2 + rest.length := by
    rw [← Buffer.readable_length h, hr, List.length_append, List.length_append]
    rfl
  refine ⟨Buffer.findCRLF_some.mpr ⟨_, by rw [hr]; exact hl.search rest, rfl⟩, ?_, ?_⟩
  · rw [← StdVector.range_take buf.buffer buf.peek buf.beginWrite
      (by change line.length ≤ buf.readableBytes; omega)]
    change buf.readable.take line.length = line
    rw [hr, List.append_assoc, List.take_left]
  · obtain ⟨buf', hok, hi, hd, _⟩ := Buffer.retrieveUntil_spec h (k := line.length + 2) (by omega)
    refine ⟨buf', by rw [Nat.add_assoc]; exact hok, hi, ?_⟩
    have hsplit : (line ++ kCRLF).length = line.length + 2 := by rw [List.length_append]; rfl
    rw [hd, hr, ← hsplit, List.drop_left]

theorem parseOnce_wait (hc : c.Reads) (hs : search kCRLF buf.readable = none) :
    parseOnce t ⟨true, true, c, buf⟩ = .ok ⟨true, false, c, buf⟩ := by
  have hf := Buffer.findCRLF_none.mpr hs
  rcases hc with hc | hc <;> simp [parseOnce, hc, hf, pure, Except.pure]

theorem parseOnce_line (hc : c.Reads) (h : buf.Inv) (hl : IsLine kCRLF line)
    (hr : buf.readable = line ++ kCRLF ++ rest) :
    ∃ buf', buf'.Inv ∧ buf'.readable = rest ∧
      parseOnce t ⟨true, true, c, buf⟩ = concluded buf buf' (onLine t c line) := by
  obtain ⟨hf, hline, buf', hok, hi, hrest⟩ := front_line h hl hr
  refine ⟨buf', hi, hrest, ?_⟩
  rcases hc with hc | hc
  · simp only [parseOnce, onLine, hc, hf, hline]
    cases hp : c.processRequestLine line with
    | error f => rfl
    | ok p =>
      obtain ⟨ok, c'⟩ := p
      cases ok with
      | false => rfl
      | true =>
        simp only [ok_bind, if_true, hok]
        rfl
  · simp only [parseOnce, onLine, hc, hf, hline]
    by_cases hm : (58 : Byte) ∈ line
    · have hne : line.idxOf 58 ≠ line.length := (List.idxOf_lt_length_iff.mpr hm).ne
      simp only [if_pos hm, if_pos hne, hok, ok_bind]
      rfl
    · have he : ¬ line.idxOf 58 ≠ line.length := not_not.mpr (List.idxOf_eq_length_iff.mpr hm)
      simp only [if_neg hm, if_neg he, hok, ok_bind]
      rfl

theorem onLine_reads {c' : HttpContext} (h : onLine t c line = .next c') : c'.Reads := by
  cases hs : c.state <;> simp only [onLine, hs, reduceCtorEq] at h
  · split at h <;> cases h
    exact .inr rfl
  · split at h <;> cases h
    exact .inr rfl

/-- What a call returns against what the scanner says. -/
def Answers (x : Except Fault (Bool × HttpContext × Buffer)) :
    Scan HttpContext (Except Fault (Bool × HttpContext)) Byte → Prop
  | .waiting c rest => ∃ buf : Buffer, x = .ok (true, c, buf) ∧ buf.Inv ∧ buf.readable = rest
  | .stopped (.ok (ok, c)) rest =>
      ∃ buf : Buffer, x = .ok (ok, c, buf) ∧ buf.Inv ∧ buf.readable = rest
  | .stopped (.error f) _ => x = .error f

def Parsing.result (p : Parsing) : Bool × HttpContext × Buffer := (p.ok, p.context, p.buf)

private theorem parseLoop_done {fuel : Nat} {p : Parsing} (h : p.hasMore = false) :
    parseLoop t (fuel + 1) p = .ok p := by
  rw [parseLoop, h]
  rfl

theorem parseLoop_answers (fuel : Nat) (hc : c.Reads) (h : buf.Inv)
    (hf : buf.readable.length + 2 ≤ fuel) :
    Answers ((parseLoop t fuel ⟨true, true, c, buf⟩).map Parsing.result)
      ((scanner t).run c buf.readable) := by
  induction fuel generalizing c buf with
  | zero => omega
  | succ fuel ih =>
    obtain ⟨fuel, rfl⟩ : ∃ k, fuel = k + 1 := ⟨fuel - 1, by omega⟩
    rw [parseLoop, if_pos rfl]
    rcases Scanner.line_cases kCRLF_ne_nil buf.readable with hs | ⟨line, rest, hl, hr⟩
    · rw [parseOnce_wait hc hs, ok_bind, parseLoop_done rfl, scanner, Scanner.lines_wait hs]
      exact ⟨buf, rfl, h, rfl⟩
    · obtain ⟨buf', hi, hrest, hp⟩ := parseOnce_line hc h hl hr (t := t)
      rw [hp]
      cases hv : onLine t c line with
      | next c' =>
        have hlen : buf'.readable.length + 2 ≤ fuel + 1 := by
          rw [hr, List.length_append, List.length_append] at hf
          rw [hrest]
          have : kCRLF.length = 2 := rfl
          omega
        have hrun : (scanner t).run c buf.readable = (scanner t).run c' buf'.readable := by
          rw [hr, hrest]
          exact Scanner.lines_next hl hv
        rw [hrun]
        exact ih (onLine_reads hv) hi hlen
      | reject r =>
        have hrun : (scanner t).run c buf.readable = .stopped r buf.readable := by
          rw [hr]
          exact Scanner.lines_reject hl hv
        rw [hrun]
        cases r with
        | error f => rfl
        | ok r =>
          rw [concluded, Except.map, ok_bind, parseLoop_done rfl]
          exact ⟨buf, rfl, h, rfl⟩
      | finish r =>
        have hrun : (scanner t).run c buf.readable = .stopped r buf'.readable := by
          rw [hr, hrest]
          exact Scanner.lines_finish hl hv
        rw [hrun]
        cases r with
        | error f => rfl
        | ok r =>
          rw [concluded, Except.map, ok_bind, parseLoop_done rfl]
          exact ⟨buf', rfl, hi, rfl⟩

/-- One call of the parser scans the unread bytes. -/
theorem parseRequest_answers (hc : c.Reads) (h : buf.Inv) (t : Timestamp) :
    Answers (c.parseRequest buf t) ((scanner t).run c buf.readable) := by
  have hl := parseLoop_answers (t := t) (buf.readableBytes + 2) hc h
    (by rw [Buffer.readable_length h])
  rw [parseRequest]
  cases hp : parseLoop t (buf.readableBytes + 2) ⟨true, true, c, buf⟩ <;> rw [hp] at hl <;> exact hl

end HttpContext
end Muduo.Http
