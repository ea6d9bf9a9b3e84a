import Muduo.Http.Head
import Muduo.Http.HttpResponse

/-! `muduo::net::HttpServer` on one connection: the deliveries to `onMessage`, and what
it does with the connection and the user's callback. -/
namespace Muduo.Http
open Muduo.Base Muduo.Net Muduo.Support

/-- Calls the server makes. -/
inductive Event where
  | httpCallback (req : HttpRequest)
  | send (message : Bytes)
  | shutdown
  deriving DecidableEq

/-- What `httpCallback_` does to the response of a request. -/
abbrev HttpCallback := HttpRequest → HttpResponse → HttpResponse

def defaultHttpCallback : HttpCallback := fun _ resp =>
  ((resp.setStatusCode .k404NotFound).setStatusMessage (text "Not Found")).setCloseConnection true

/-- A connection of the server. -/
structure Session where
  context : HttpContext
  inputBuffer : Buffer
  events : List Event

/-- Bytes that arrive, when, and how the user's callback answers this time. -/
structure Delivery where
  bytes : Bytes
  receiveTime : Timestamp
  httpCallback : HttpCallback := defaultHttpCallback

namespace Session

/-- `onConnection` on a connection that is up. -/
def new : Session := ⟨.new, .new, []⟩

def call (s : Session) (e : Event) : Session := { s with events := s.events ++ [e] }

def closes (req : HttpRequest) : Bool :=
  let connection := req.getHeader (text "Connection")
  connection = text "close" ||
    (req.version = .kHttp10 && decide (connection ≠ text "Keep-Alive"))

def onRequest (s : Session) (httpCallback : HttpCallback) (req : HttpRequest) :
    Except Fault Session := do
  let response := httpCallback req (.new (closes req))
  let s := s.call (.httpCallback req)
  let buf ← response.appendToBuffer .new
  let s := s.call (.send buf.readable)
  return if response.closeConnection then s.call .shutdown else s

/-- `onMessage` behind its call of the parser, which returned `ok`. -/
def respond (s : Session) (ok : Bool) (httpCallback : HttpCallback) : Except Fault Session :=
  let s := if !ok then
      (s.call (.send (text "HTTP/1.1 400 Bad Request\r\n\r\n"))).call .shutdown
    else s
  if s.context.gotAll then do
    let s ← s.onRequest httpCallback s.context.request
    return { s with context := s.context.reset }
  else return s

def onMessage (s : Session) (receiveTime : Timestamp) (httpCallback : HttpCallback) :
    Except Fault Session := do
  let (ok, context, inputBuffer) ← s.context.parseRequest s.inputBuffer receiveTime
  respond { s with context, inputBuffer } ok httpCallback

/-- The connection reads the bytes into its input buffer and calls `onMessage`. -/
def deliver (s : Session) (d : Delivery) : Except Fault Session := do
  let inputBuffer ← s.inputBuffer.readFd (.data d.bytes)
  onMessage { s with inputBuffer } d.receiveTime d.httpCallback

def serve (s : Session) (ds : List Delivery) : Except Fault Session := ds.foldlM deliver s

theorem serve_cons {s s' : Session} {d : Delivery} (h : s.deliver d = .ok s') (ds : List Delivery) :
    s.serve (d :: ds) = s'.serve ds := by
  rw [serve, List.foldlM_cons, h]
  rfl

/-- The requests the user's callback has seen. -/
def dispatched (s : Session) : List HttpRequest :=
  s.events.filterMap fun | .httpCallback req => some req | _ => none

/-- The calls of `onRequest`. -/
def answering (req : HttpRequest) (message : Bytes) (close : Bool) : List Event :=
  [.httpCallback req, .send message] ++ if close then [.shutdown] else []

/-- The calls that answer a rejected request line. -/
def rejecting : List Event := [.send (text "HTTP/1.1 400 Bad Request\r\n\r\n"), .shutdown]

/-- A session that has not rejected a request line for good: the context is new and the
unread bytes are `u`, or `u` is the lines of a head and an unread incomplete line. -/
inductive Clean (u : Bytes) (s : Session) : Prop where
  | line (inv : s.inputBuffer.Inv) (context : s.context = .new) (unread : s.inputBuffer.readable = u)
  | headers (h : Head) (t : Timestamp) (tail : Bytes) (inv : s.inputBuffer.Inv)
      (context : s.context = ⟨.kExpectHeaders, h.request t⟩)
      (unread : s.inputBuffer.readable = tail) (seen : u = h.lines ++ tail)
      (waits : search kCRLF tail = none)

theorem new_clean : Clean [] new := .line (Buffer.new_inv _) rfl (Buffer.new_readable _)

/-- A session after a request line that starts with a method was rejected. -/
structure Spoiled (s : Session) : Prop where
  inv : s.inputBuffer.Inv
  state : s.context.state = .kExpectRequestLine
  method : s.context.request.method ≠ .kInvalid
  unread : ∃ line rest, search kCRLF line = none ∧ HttpContext.Recognised line ∧
    s.inputBuffer.readable = line ++ kCRLF ++ rest

variable {s s' : Session} {u : Bytes} {d : Delivery}

theorem dispatched_answering {req : HttpRequest} {message : Bytes} {close : Bool}
    (h : s'.events = s.events ++ answering req message close) :
    s'.dispatched = s.dispatched ++ [req] := by
  cases close <;> simp [dispatched, h, answering]

theorem onRequest_spec (s : Session) (httpCallback : HttpCallback) (req : HttpRequest) :
    ∃ s' message close, s.onRequest httpCallback req = .ok s' ∧ s'.context = s.context ∧
      s'.inputBuffer = s.inputBuffer ∧ s'.events = s.events ++ answering req message close := by
  obtain ⟨b, hb, _, _⟩ := (httpCallback req (.new (closes req))).appendToBuffer_spec
    (Buffer.new_inv Buffer.kInitialSize)
  rw [onRequest]
  simp only [hb, ok_bind]
  refine ⟨_, b.readable, (httpCallback req (.new (closes req))).closeConnection, rfl, ?_⟩
  split
  · next hc => simp [call, answering, hc]
  · next hc => simp [call, answering, hc]

theorem Clean.inv (h : Clean u s) : s.inputBuffer.Inv := by
  cases h with
  | line inv _ _ => exact inv
  | headers _ _ _ inv _ _ _ _ => exact inv

/-- A delivery to a clean session scans what is unread of the stream from a new context. -/
private theorem deliver_scan (h : Clean u s) (d : Delivery) : ∃ t x,
    HttpContext.Answers x ((HttpContext.scanner t).run .new (u ++ d.bytes)) ∧
      s.deliver d = x >>= fun p =>
        respond { s with context := p.2.1, inputBuffer := p.2.2 } p.1 d.httpCallback := by
  obtain ⟨b, hb, hi, hr⟩ := Buffer.readFd_spec h.inv d.bytes
  have hreads : s.context.Reads := by
    cases h with
    | line _ hc _ => exact .inl (by rw [hc]; rfl)
    | headers _ _ _ _ hc _ _ _ => exact .inr (by rw [hc])
  have ha := HttpContext.parseRequest_answers hreads hi d.receiveTime
  have hscan : ∃ t, (HttpContext.scanner d.receiveTime).run s.context b.readable =
      (HttpContext.scanner t).run .new (u ++ d.bytes) := by
    rw [hr]
    cases h with
    | line _ hc hu => exact ⟨_, by rw [hc, hu]⟩
    | headers hd t tail _ hc hu hs _ =>
      exact ⟨t, by rw [hc, hu, hs, List.append_assoc, HttpContext.run_lines,
        HttpContext.run_headers_time t d.receiveTime]⟩
  obtain ⟨t, hscan⟩ := hscan
  refine ⟨t, _, hscan ▸ ha, ?_⟩
  rw [deliver, hb, ok_bind]
  rfl

private theorem respond_going {s : Session} (h : s.context.gotAll = false) (cb : HttpCallback) :
    s.respond true cb = .ok s := by
  simp [respond, h, pure, Except.pure]

/-- Without a complete request the session only reads. -/
theorem deliver_waits (h : Clean u s) (hw : search kCRLF (u ++ d.bytes) = none ∨
      ∃ hd : Head, ∃ tail, search kCRLF tail = none ∧ u ++ d.bytes = hd.lines ++ tail) :
    ∃ s', s.deliver d = .ok s' ∧ Clean (u ++ d.bytes) s' ∧ s'.events = s.events := by
  obtain ⟨t, x, ha, hx⟩ := deliver_scan h d
  rcases hw with hw | ⟨hd, tail, hw, he⟩
  · rw [HttpContext.run_no_line hw] at ha
    obtain ⟨b, rfl, hi, hr⟩ := ha
    rw [hx, ok_bind, respond_going rfl]
    exact ⟨_, rfl, .line hi rfl hr, rfl⟩
  · rw [he, HttpContext.run_incomplete hd hw] at ha
    obtain ⟨b, rfl, hi, hr⟩ := ha
    rw [hx, ok_bind, respond_going rfl]
    exact ⟨_, rfl, .headers hd t tail hi rfl hr he hw, rfl⟩

/-- A complete head is dispatched, and what follows it stays unread. -/
theorem deliver_head (h : Clean u s) {hd : Head} {line rest : Bytes} (hc : ColonFree line)
    (he : u ++ d.bytes = hd.lines ++ (line ++ kCRLF ++ rest)) :
    ∃ s' t message close, s.deliver d = .ok s' ∧ s'.context = .new ∧ s'.inputBuffer.Inv ∧
      s'.inputBuffer.readable = rest ∧
      s'.events = s.events ++ answering (hd.request t) message close := by
  obtain ⟨t, x, ha, hx⟩ := deliver_scan h d
  rw [he, HttpContext.run_colonFree hd hc] at ha
  obtain ⟨b, rfl, hi, hr⟩ := ha
  obtain ⟨s', message, close, hok, _, hb, hev⟩ := onRequest_spec
    { s with context := ⟨.kGotAll, hd.request t⟩, inputBuffer := b } d.httpCallback (hd.request t)
  refine ⟨{ s' with context := s'.context.reset }, t, message, close, ?_, rfl, by rw [hb]; exact hi,
    by rw [hb]; exact hr, hev⟩
  rw [hx, ok_bind, respond]
  simp only [Bool.not_true, Bool.false_eq_true, if_false, HttpContext.gotAll, decide_true, if_true,
    hok, ok_bind]
  rfl

/-- The response that the callback gives to a request. -/
def response (httpCallback : HttpCallback) (req : HttpRequest) : HttpResponse :=
  httpCallback req (.new (closes req))

theorem onRequest_eq (s : Session) (httpCallback : HttpCallback) (req : HttpRequest) :
    s.onRequest httpCallback req = .ok { s with
      events := s.events ++ answering req (response httpCallback req).bytes
        (response httpCallback req).closeConnection } := by
  obtain ⟨b, hb, _, hr⟩ := (response httpCallback req).appendToBuffer_spec
    (Buffer.new_inv Buffer.kInitialSize)
  rw [Buffer.new_readable, List.nil_append] at hr
  rw [onRequest, show httpCallback req (.new (closes req)) = response httpCallback req from rfl]
  simp only [hb, ok_bind, hr]
  cases (response httpCallback req).closeConnection <;> simp [call, answering, pure, Except.pure]

/-- A complete head is answered by the bytes of the callback's response. -/
theorem deliver_responds (h : Clean u s) {hd : Head} {rest : Bytes}
    (he : u ++ d.bytes = hd.bytes ++ rest) : ∃ s' t, s.deliver d = .ok s' ∧ Clean rest s' ∧
      s'.events = s.events ++ answering (hd.request t)
        (response d.httpCallback (hd.request t)).bytes
        (response d.httpCallback (hd.request t)).closeConnection := by
  obtain ⟨t, x, ha, hx⟩ := deliver_scan h d
  rw [he, HttpContext.run_head] at ha
  obtain ⟨b, rfl, hi, hr⟩ := ha
  let response := response d.httpCallback (hd.request t)
  have hclean : Clean rest ⟨.new, b, s.events ++
      answering (hd.request t) response.bytes response.closeConnection⟩ := .line hi rfl hr
  refine ⟨_, t, ?_, hclean, rfl⟩
  rw [hx, ok_bind, respond]
  simp only [Bool.not_true, Bool.false_eq_true, if_false, HttpContext.gotAll, decide_true, if_true,
    onRequest_eq, ok_bind]
  rfl

/-- A rejected line stays unread; it spoils the session if it starts with a method. -/
theorem deliver_rejected (h : Clean u s) {line rest : Bytes} (hl : search kCRLF line = none)
    (hn : ¬ ∃ l : RequestLine, line = l.bytes) (he : u ++ d.bytes = line ++ kCRLF ++ rest) :
    ∃ s', s.deliver d = .ok s' ∧ s'.events = s.events ++ rejecting ∧
      (HttpContext.Recognised line ∧ Spoiled s' ∨
        ¬ HttpContext.Recognised line ∧ Clean (u ++ d.bytes) s') := by
  obtain ⟨t, x, ha, hx⟩ := deliver_scan h d
  obtain ⟨c, hcs, hm, hrun⟩ := HttpContext.run_rejected hl hn rest
  rw [he, hrun t] at ha
  obtain ⟨b, rfl, hi, hr⟩ := ha
  have hg : c.gotAll = false := by simp [HttpContext.gotAll, hcs]
  refine ⟨{ s with context := c, inputBuffer := b, events := s.events ++ rejecting }, ?_, rfl, ?_⟩
  · rw [hx, ok_bind, respond]
    simp [call, rejecting, hg, pure, Except.pure]
  · rcases hm with ⟨hrec, hmethod⟩ | ⟨hrec, rfl⟩
    · exact .inl ⟨hrec, hi, hcs, hmethod, line, rest, hl, hrec, hr⟩
    · exact .inr ⟨hrec, .line hi rfl (hr.trans he.symm)⟩

/-- The next delivery to a spoiled session trips the assertion of `setMethod`. -/
theorem deliver_spoiled (h : Spoiled s) (d : Delivery) : s.deliver d = .error .assertion := by
  obtain ⟨hi, hstate, hmethod, line, rest, hl, ⟨m, start, _, hline⟩, hu⟩ := h
  obtain ⟨b, hb, hi', hr⟩ := Buffer.readFd_spec hi d.bytes
  have ha := HttpContext.parseRequest_answers (.inl hstate) hi' d.receiveTime
  have hv : HttpContext.onLine d.receiveTime s.context line = .reject (.error .assertion) := by
    unfold HttpContext.onLine
    rw [hstate, HttpContext.processRequestLine_again hmethod (by simp [hline])]
  have hrun : (HttpContext.scanner d.receiveTime).run s.context b.readable =
      .stopped (.error .assertion) b.readable := by
    rw [hr, hu, List.append_assoc _ rest]
    exact Scanner.lines_reject (isLine_iff.mpr hl) hv
  rw [hrun] at ha
  have hp : s.context.parseRequest b d.receiveTime = .error .assertion := ha
  rw [deliver, hb, ok_bind, onMessage]
  simp only [hp, error_bind]

end Session
end Muduo.Http
