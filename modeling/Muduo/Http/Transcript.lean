import Muduo.Http.HttpConnection
import Muduo.Http.Pipelining
import Muduo.Http.ResponseFraming
import Muduo.Net.CarriedOutput

/-! What a client reads from a connection of the server: the answers to its requests. -/
namespace Muduo.Http
open Muduo.Base Muduo.Net Muduo.Support

namespace ResponseReader

/-- Responses one after another; one without a length takes the rest of the stream. -/
def readTranscriptFrom : Nat → Bytes → Option (List Answer)
  | 0, input => if input = [] then some [] else none
  | fuel + 1, input => if input = [] then some [] else do
      let (s, rest) ← readLines input
      match s.contentLength with
      | none => return [← s.answer rest]
      | some length =>
          if length ≤ rest.length then
            return (← s.answer (rest.take length)) ::
              (← readTranscriptFrom fuel (rest.drop length))
          else none

def readTranscript (input : Bytes) : Option (List Answer) := readTranscriptFrom input.length input

end ResponseReader

namespace HttpResponse
open ResponseReader

variable {r : HttpResponse}

theorem contentLength_closing (h : r.Framed) (hc : r.closeConnection = true)
    {status : Nat × Bytes} : Lines.contentLength ⟨some status, r.fields⟩ = none := by
  have hnone : r.fields.find? (fun field => field.1 = text "Content-Length") = none := by
    apply List.find?_eq_none.mpr
    intro f hf
    rw [decide_eq_true_eq]
    simp only [fields, hc, if_true] at hf
    rcases List.mem_append.mp hf with hf | hf
    · rw [List.mem_singleton.mp hf]
      decide
    · exact (h.own f hf).1
  rw [Lines.contentLength, hnone]
  rfl

/-- Responses of which only the last may close the connection. -/
theorem readTranscriptFrom_bytes {rs : List HttpResponse} (h : ∀ r ∈ rs, r.Framed)
    (hk : ∀ r ∈ rs.dropLast, r.closeConnection = false) {fuel : Nat}
    (hfuel : (rs.flatMap bytes).length ≤ fuel) :
    readTranscriptFrom fuel (rs.flatMap bytes) = some (rs.map answer) := by
  induction rs generalizing fuel with
  | nil => cases fuel <;> rfl
  | cons r rs ih =>
    obtain ⟨hr, hrs⟩ := List.forall_mem_cons.mp h
    have hpos := List.length_pos_of_ne_nil (bytes_ne_nil hr.length)
    rw [List.flatMap_cons, List.length_append] at hfuel
    obtain ⟨fuel, rfl⟩ : ∃ n, fuel = n + 1 := ⟨fuel - 1, by omega⟩
    have hne : r.bytes ++ rs.flatMap bytes ≠ [] := by
      simp [bytes_ne_nil hr.length]
    rw [List.flatMap_cons, readTranscriptFrom, if_neg hne, readLines_bytes hr]
    simp only [Option.bind_eq_bind, Option.bind_some]
    cases hc : r.closeConnection with
    | true =>
      have hlast : rs = [] := by
        cases rs with
        | nil => rfl
        | cons q qs =>
          have hkeep := hk r List.mem_cons_self
          rw [hc] at hkeep
          cases hkeep
      subst hlast
      rw [contentLength_closing hr hc, List.flatMap_nil, List.append_nil]
      dsimp only
      rw [answer_lines hr]
      rfl
    | false =>
      have hkrs : ∀ q ∈ rs.dropLast, q.closeConnection = false := by
        intro q hq
        cases rs with
        | nil => cases hq
        | cons p ps => exact hk q (List.mem_cons_of_mem _ hq)
      have hle : r.body.length ≤ (r.body ++ rs.flatMap bytes).length := by simp
      rw [contentLength_fields hc]
      dsimp only
      rw [if_pos hle, List.take_left, List.drop_left, answer_lines hr, ih hrs hkrs (by omega)]
      rfl

theorem readTranscript_bytes {rs : List HttpResponse} (h : ∀ r ∈ rs, r.Framed)
    (hk : ∀ r ∈ rs.dropLast, r.closeConnection = false) :
    readTranscript (rs.flatMap bytes) = some (rs.map answer) :=
  readTranscriptFrom_bytes h hk (Nat.le_refl _)

end HttpResponse

namespace HttpConnection
open Pipelining (Incomplete stream OneEach)
open Session (Clean response)
open HttpResponse (answer readTranscript_bytes)

/-- What the connection delivers to the server. -/
def deliveries (as : List Step) : List Delivery :=
  as.filterMap fun
    | .deliver d _ => some d
    | .connectEstablished | .handleWrite _ => none

theorem deliveries_deliver (d : Delivery) (out : (message : Bytes) → Outgoing message)
    (as : List Step) : deliveries (.deliver d out :: as) = d :: deliveries as := rfl

/-- No write fails, and one of buffered output takes at least a byte. -/
def Healthy (h : HttpConnection) : Step → Prop
  | .connectEstablished => True
  | .deliver _ out => ∀ message, ∃ n, (out message).result = .accepted n
  | .handleWrite w => Writes h.conn w

/-- One of the responses closes the connection. -/
def closing (rs : List HttpResponse) : Bool := rs.any HttpResponse.closeConnection

/-- A connection that was given these responses. -/
abbrev Gave (rs : List HttpResponse) (c : TcpConnection) : Prop :=
  Carries (rs.flatMap HttpResponse.bytes) (closing rs) c

/-- A connection in a stream of heads: it was given these responses, and the bytes `u` that
it holds complete no head. -/
structure Midway (rs : List HttpResponse) (u : Bytes) (h : HttpConnection) : Prop where
  input : h.conn.inputBuffer = h.session.inputBuffer
  idle : h.request = none
  clean : Clean u h.session
  gave : Gave rs h.conn

/-- Each head of a stream with the delivery that completes it, behind `n` bytes. -/
def served : List Head → Nat → List Delivery → List (Head × Delivery)
  | hd :: hs, n, d :: ds =>
      if hd.bytes.length ≤ n + d.bytes.length then
        (hd, d) :: served hs (n + d.bytes.length - hd.bytes.length) ds
      else served (hd :: hs) (n + d.bytes.length) ds
  | _, _, _ => []

variable {h t : HttpConnection} {c : TcpConnection} {rs : List HttpResponse} {r : HttpResponse}
  {httpCallback : HttpCallback} {d : Delivery} {u v tail : Bytes} {hs : List Head}
  {out : (message : Bytes) → Outgoing message}

theorem closing_append (rs : List HttpResponse) (r : HttpResponse) :
    closing (rs ++ [r]) = (closing rs || r.closeConnection) := by
  rw [closing, List.any_append, List.any_cons, List.any_nil, Bool.or_false, closing]

/-- An open connection is given the response to a request. -/
theorem gave_response (hg : Gave rs c) (hc : closing rs = false) (s' : Session)
    (req : HttpRequest) (r : HttpResponse)
    (ho : ∀ message, ∃ n, (out message).result = .accepted n) :
    ∃ c' message, (Session.answering req r.bytes r.closeConnection).foldlM (perform out)
        { h with conn := c, session := s' } = .ok { h with
          conn := c'
          session := s'
          request := none
          executed := h.executed ++ [req]
          answered := h.answered ++ [(req, message)] } ∧
      Gave (rs ++ [r]) c' ∧ c'.inputBuffer = c.inputBuffer := by
  have hg : Carries (rs.flatMap HttpResponse.bytes) false c := hc ▸ hg
  obtain ⟨c', hok, hsent, hin, _⟩ := hg.send (out r.bytes).holds (out r.bytes).within (ho r.bytes)
  have hconn : c.connected = true := by
    rw [TcpConnection.connected, hg.state]
    rfl
  simp only [Gave]
  rw [closing_append, hc, Bool.false_or, List.flatMap_append, List.flatMap_singleton]
  cases hr : r.closeConnection with
  | false =>
    refine ⟨c', r.bytes, ?_, hsent, hin⟩
    simp only [Session.answering, Bool.false_eq_true, if_false, List.append_nil,
      List.foldlM_cons, List.foldlM_nil, perform, send, pure, Except.pure, ok_bind, hok, hconn,
      if_true]
    rfl
  | true =>
    obtain ⟨_, hread⟩ := TcpConnection.shutdown_buffers c'
    refine ⟨c'.shutdown true, r.bytes, ?_, hsent.shut, hread.trans hin⟩
    simp only [Session.answering, if_true, List.cons_append, List.nil_append, List.foldlM_cons,
      List.foldlM_nil, perform, send, pure, Except.pure, ok_bind, hok, hconn]
    rfl

/-- The calls of a delivery are made on the connection that has read the bytes. -/
theorem deliver_perform (hin : h.conn.inputBuffer = h.session.inputBuffer) (hd : d.bytes ≠ [])
    (out : (message : Bytes) → Outgoing message) {s' : Session} {es : List Event}
    (hs : h.session.deliver d = .ok s') (he : s'.events = h.session.events ++ es) :
    h.deliver d out = es.foldlM (perform out) { h with
      conn := { h.conn with
        inputBuffer := s'.inputBuffer
        callbacks := h.conn.callbacks ++ [.message] }
      session := s' } := by
  obtain ⟨b, hb, hs⟩ := bind_ok.mp hs
  obtain ⟨x, xs, hx⟩ := List.exists_cons_of_ne_nil hd
  have hread : h.conn.handleRead (.data d.bytes) =
      .ok (TcpConnection.messageCallback { h.conn with inputBuffer := b }) := by
    rw [TcpConnection.handleRead, hin, hb, ok_bind, hx]
    rfl
  rw [deliver, hread, ok_bind]
  dsimp only [TcpConnection.messageCallback]
  rw [hs, ok_bind, he, List.drop_left]

/-- A delivery that completes no head only reads. -/
theorem Midway.waits (hm : Midway rs u h) (hd : d.bytes ≠ []) (hu : Incomplete (u ++ d.bytes))
    (out : (message : Bytes) → Outgoing message) :
    ∃ t, h.deliver d out = .ok t ∧ Midway rs (u ++ d.bytes) t ∧ t.executed = h.executed := by
  obtain ⟨s', hs, hclean, hev⟩ := Session.deliver_waits hm.clean hu.waits
  have hnil : s'.events = h.session.events ++ [] := by rw [hev, List.append_nil]
  exact ⟨_, deliver_perform hm.input hd out hs hnil, ⟨rfl, hm.idle, hclean, hm.gave.read _ _⟩, rfl⟩

/-- A delivery that completes a head has it answered, if no response has closed the
connection. -/
theorem Midway.serves (hm : Midway rs u h) {hd : Head} (hne : d.bytes ≠ [])
    (he : u ++ d.bytes = hd.bytes ++ v) (hopen : closing rs = false)
    (ho : ∀ message, ∃ n, (out message).result = .accepted n) :
    ∃ t time, h.deliver d out = .ok t ∧ t.executed = h.executed ++ [hd.request time] ∧
      Midway (rs ++ [response d.httpCallback (hd.request time)]) v t := by
  obtain ⟨s', time, hs, hclean, hev⟩ := Session.deliver_responds hm.clean he
  obtain ⟨c', message, hok, hg, hin⟩ := gave_response (h := h)
    (hm.gave.read s'.inputBuffer (h.conn.callbacks ++ [.message])) hopen s' (hd.request time)
    (response d.httpCallback (hd.request time)) ho
  exact ⟨_, time, (deliver_perform hm.input hne out hs hev).trans hok, rfl, hin, rfl, hclean, hg⟩

theorem connectEstablished_midway (hup : new.connectEstablished = .ok h) :
    Midway [] [] h ∧ h.executed = [] := by
  obtain ⟨c, hc, hup⟩ := bind_ok.mp hup
  cases hup
  obtain ⟨hcarries, hin, _⟩ := Carries.established hc
  exact ⟨⟨hin, rfl, Session.new_clean, hcarries⟩, rfl⟩

/-- The requests of the heads, but for the times at which they are received. -/
def requests (hs : List Head) : List HttpRequest := hs.map (·.request .invalid)

/-- The response to a request of a head that a delivery completes. -/
def reply (req : HttpRequest) (p : Head × Delivery) : HttpResponse := response p.2.httpCallback req

/-- Only the last response closes the connection, and it has not been given yet while
heads are to come. -/
structure Ahead (ps : List (Head × Delivery)) (rs : List HttpResponse) : Prop where
  keep : ∀ p ∈ ps.dropLast, ∀ time, (reply (p.1.request time) p).closeConnection = false
  opened : ps ≠ [] → closing rs = false

theorem Ahead.next {p : Head × Delivery} {ps : List (Head × Delivery)} {time : Timestamp}
    (h : Ahead (p :: ps) rs) : Ahead ps (rs ++ [reply (p.1.request time) p]) := by
  constructor
  · intro q hq
    cases ps with
    | nil => cases hq
    | cons q' qs => exact h.keep q (List.mem_cons_of_mem _ hq)
  · intro hne
    obtain ⟨q, qs, rfl⟩ := List.exists_cons_of_ne_nil hne
    rw [closing_append, h.opened (List.cons_ne_nil p _), h.keep p List.mem_cons_self]
    rfl

theorem served_waits {ds : List Delivery} (hu : Incomplete (u ++ d.bytes))
    (hw : u ++ d.bytes ++ Pipelining.bytes ds = stream hs ++ tail) :
    served hs u.length (d :: ds) = served hs (u ++ d.bytes).length ds := by
  cases hs with
  | nil => cases ds <;> rfl
  | cons hd hs =>
    rw [served, if_neg, List.length_append]
    intro hle
    rw [← List.length_append] at hle
    rw [stream, List.flatMap_cons, List.append_assoc hd.bytes] at hw
    have hpre : hd.bytes <+: u ++ d.bytes ++ Pipelining.bytes ds := ⟨_, hw.symm⟩
    obtain ⟨rest, he⟩ := List.prefix_of_prefix_length_le hpre ⟨_, rfl⟩ hle
    exact hu.not_head ⟨hd, rest, he.symm⟩

theorem served_serves {ds : List Delivery} {hd : Head} (he : u ++ d.bytes = hd.bytes ++ v) :
    served (hd :: hs) u.length (d :: ds) = (hd, d) :: served hs v.length ds := by
  rw [served, ← List.length_append, he, List.length_append, if_pos (Nat.le_add_right _ _),
    Nat.add_sub_cancel_left]

/-- The rest of a stream is executed head by head, and each request gets its response. -/
theorem run_midway {as : List Step} (ht : Incomplete tail) (hr : machine.Run h as t)
    (hhealthy : machine.EveryStep h as Healthy) (hm : Midway rs u h) (hu : Incomplete u)
    (hw : u ++ Pipelining.bytes (deliveries as) = stream hs ++ tail)
    (hone : OneEach hs u.length (deliveries as))
    (hahead : Ahead (served hs u.length (deliveries as)) rs) :
    ∃ reqs : List HttpRequest, t.executed = h.executed ++ reqs ∧
      reqs.map (·.setReceiveTime .invalid) = requests hs ∧
      (served hs u.length (deliveries as)).map Prod.fst = hs ∧
      Midway (rs ++ reqs.zipWith reply (served hs u.length (deliveries as))) tail t := by
  induction hr generalizing u hs rs with
  | nil h =>
    have hnil : hs = [] := by
      cases hs with
      | nil => rfl
      | cons hd hs =>
        rw [deliveries, List.filterMap_nil, Pipelining.bytes, List.flatMap_nil, List.append_nil,
          stream, List.flatMap_cons, List.append_assoc] at hw
        exact absurd ⟨hd, _, hw⟩ hu.not_head
    subst hnil
    have htail : u = tail := by
      rw [deliveries, List.filterMap_nil, Pipelining.bytes, List.flatMap_nil, List.append_nil] at hw
      exact hw
    subst htail
    exact ⟨[], (List.append_nil _).symm, rfl, rfl, by rwa [List.zipWith_nil_left, List.append_nil]⟩
  | @cons h h' t a as he hs' hr ih =>
    obtain ⟨ha, has⟩ := (Machine.everyStep_cons he hs').mp hhealthy
    cases a with
    | connectEstablished =>
      have hstate : h.conn.state = .kConnecting := he
      rw [hm.gave.state] at hstate
      split at hstate <;> cases hstate
    | handleWrite w =>
      obtain ⟨c, hok, hg, hin, _⟩ := hm.gave.written ha
      have hstep : machine.step h (.handleWrite w) = .ok { h with conn := c } := by
        simp only [machine, hok, ok_bind]
        rfl
      rw [hstep] at hs'
      cases hs'
      exact ih has ⟨hin.trans hm.input, hm.idle, hm.clean, hg⟩ hu hw hone hahead
    | deliver d out =>
      rw [deliveries_deliver] at hw hone hahead ⊢
      rcases hone.next ht hu hw with ⟨hu', hw', hone'⟩ | ⟨hd, hs, rest, rfl, heq, hrest, hw', hone'⟩
      · obtain ⟨t', hok, hm', hex⟩ := hm.waits he.2 hu' out
        cases hok.symm.trans hs'
        rw [served_waits hu' hw'] at hahead ⊢
        rw [← hex]
        exact ih has hm' hu' hw' hone' hahead
      · rw [served_serves heq] at hahead ⊢
        obtain ⟨t', time, hok, hex, hm'⟩ :=
          hm.serves he.2 heq (hahead.opened (List.cons_ne_nil _ _)) ha
        cases hok.symm.trans hs'
        obtain ⟨reqs, hexs, hreqs, hfst, hmid⟩ := ih has hm' hrest hw' hone' hahead.next
        refine ⟨hd.request time :: reqs, ?_, ?_, ?_, ?_⟩
        · rw [hexs, hex, List.append_assoc, List.singleton_append]
        · rw [List.map_cons, hreqs, Head.request_setReceiveTime]
          rfl
        · rw [List.map_cons, hfst]
        · rw [List.append_assoc] at hmid
          exact hmid

theorem exists_head {req : HttpRequest} {hd : Head}
    (h : req.setReceiveTime .invalid = hd.request .invalid) :
    req = hd.request req.receiveTime := by
  rw [← hd.request_setReceiveTime .invalid req.receiveTime, ← h]
  rfl

/-- What holds of the responses to the heads, holds of the responses to the requests. -/
theorem forall_reply {P : HttpResponse → Prop} {ps : List (Head × Delivery)}
    {reqs : List HttpRequest} (h : ∀ p ∈ ps, ∀ time, P (reply (p.1.request time) p))
    (hreqs : reqs.map (·.setReceiveTime .invalid) = requests (ps.map Prod.fst)) :
    ∀ r ∈ reqs.zipWith reply ps, P r := by
  induction ps generalizing reqs with
  | nil =>
    rw [List.zipWith_nil_right]
    exact List.forall_mem_nil _
  | cons p ps ih =>
    obtain ⟨hp, hps⟩ := List.forall_mem_cons.mp h
    cases reqs with
    | nil => exact List.forall_mem_nil _
    | cons req reqs =>
      obtain ⟨hreq, hrest⟩ := List.cons.inj hreqs
      rw [List.zipWith_cons_cons, List.forall_mem_cons, exists_head hreq]
      exact ⟨hp _, ih hps hrest⟩

theorem dropLast_zipWith {ps : List (Head × Delivery)} {reqs : List HttpRequest}
    (h : reqs.length = ps.length) :
    (reqs.zipWith reply ps).dropLast = reqs.dropLast.zipWith reply ps.dropLast := by
  rw [List.dropLast_eq_take, List.dropLast_eq_take, List.dropLast_eq_take, List.take_zipWith,
    List.length_zipWith, h, Nat.min_self]

/-- A stream of request heads, each delivery of which completes one head at most, on a
connection whose writes do not fail, with callbacks whose responses fit the format and of
which only the last may close the connection: what the socket has taken and what is pending
is read as the answers to the requests of the heads, in order. The pending part is waited
for, and the stream is closed behind the last byte of a closing response, not before. -/
theorem answers_in_order {as : List Step} {heads : List Head} {ps : List (Head × Delivery)}
    (hr : machine.Run new (.connectEstablished :: as) t) (ht : Incomplete tail)
    (hw : Pipelining.bytes (deliveries as) = stream heads ++ tail)
    (hone : OneEach heads 0 (deliveries as)) (hps : ps = served heads 0 (deliveries as))
    (hframed : ∀ p ∈ ps, ∀ time, (reply (p.1.request time) p).Framed)
    (hkeep : ∀ p ∈ ps.dropLast, ∀ time, (reply (p.1.request time) p).closeConnection = false)
    (hhealthy : machine.EveryStep new (.connectEstablished :: as) Healthy) :
    t.executed.map (·.setReceiveTime .invalid) = requests heads ∧ ps.map Prod.fst = heads ∧
      ResponseReader.readTranscript (t.conn.socket.accepted ++ t.conn.outputBuffer.readable) =
        some ((t.executed.zipWith reply ps).map answer) ∧
      (t.conn.channel.isWriting = true ↔ t.conn.outputBuffer.readable ≠ []) ∧
      t.conn.socket.shutdownWrites =
        if closing (t.executed.zipWith reply ps) ∧ t.conn.outputBuffer.readable = []
        then [[]] else [] := by
  obtain ⟨h, hup, hr, hhealthy⟩ : ∃ h, new.connectEstablished = .ok h ∧ machine.Run h as t ∧
      machine.EveryStep h as Healthy := by
    cases hr with
    | cons he hs hr => exact ⟨_, hs, hr, ((Machine.everyStep_cons he hs).mp hhealthy).2⟩
  subst hps
  obtain ⟨hm, hnone⟩ := connectEstablished_midway hup
  obtain ⟨reqs, hex, hreqs, hfst, hmid⟩ :=
    run_midway ht hr hhealthy hm Pipelining.incomplete_nil hw hone ⟨hkeep, fun _ => rfl⟩
  rw [hnone, List.nil_append] at hex
  rw [List.nil_append, ← hex] at hmid
  rw [← hex, ← hfst] at hreqs
  have hgave : Gave (t.executed.zipWith reply (served heads 0 (deliveries as))) t.conn := hmid.gave
  have hlength : t.executed.length = (served heads 0 (deliveries as)).length := by
    have hl := congrArg List.length hreqs
    rwa [requests, List.length_map, List.length_map, List.length_map] at hl
  have hlast : t.executed.dropLast.map (·.setReceiveTime .invalid) =
      requests ((served heads 0 (deliveries as)).dropLast.map Prod.fst) := by
    rw [requests, List.map_dropLast, List.map_dropLast, List.map_dropLast, hreqs]
    rfl
  refine ⟨hreqs.trans (congrArg requests hfst), hfst, ?_, hgave.writing, hgave.shutdown⟩
  rw [hgave.output, readTranscript_bytes]
  · exact forall_reply hframed hreqs
  · rw [dropLast_zipWith hlength]
    exact forall_reply (P := fun r => r.closeConnection = false) hkeep hlast

/-- A callback that greets everyone. -/
def greeting : HttpCallback := fun _ resp =>
  ((resp.setStatusCode .k200Ok).setStatusMessage (text "OK")).setBody (text "hi")

theorem greeting_framed (req : HttpRequest) : (response greeting req).Framed := by
  have hnone : ∀ header, header ∉ (response greeting req).headers.entries :=
    fun _ => List.not_mem_nil
  have hmessage : (13 : Byte) ∉ text "OK" ∧ (10 : Byte) ∉ text "OK" := by decide
  exact ⟨hmessage, fun _ h => absurd h (hnone _), fun _ h => absurd h (hnone _),
    fun _ h => absurd h (hnone _), by simp [response, greeting, HttpResponse.setBody, text]⟩

/-- `Connection: close`. -/
def closeLine : HeaderLine := ⟨text "Connection", text " close", by decide, by decide⟩

theorem tenBytes_within (message : Bytes) :
    (WriteResult.accepted (min 10 message.length)).Within 0 message.length := by
  intro n hn
  cases hn
  exact ⟨Nat.zero_le _, Nat.min_le_right _ _⟩

theorem tenBytes_held (message : Bytes) :
    (holding message).bytes 0 message.length = message :=
  holding_bytes message (Nat.zero_add _)

/-- The kernel takes ten bytes of the message at most. -/
def tenBytes (message : Bytes) : Outgoing message :=
  ⟨holding message, 0, .accepted (min 10 message.length), tenBytes_held message,
    tenBytes_within message⟩

/-- Two requests, the second of which asks for the connection to be closed. -/
theorem answers_in_order_sample : ∃ t : HttpConnection,
    ResponseReader.readTranscript (t.conn.socket.accepted ++ t.conn.outputBuffer.readable) =
      some ((t.executed.zipWith reply
        [(⟨.getRoot, []⟩, ⟨Head.bytes ⟨.getRoot, []⟩, 0, greeting⟩),
          (⟨.getRoot, [closeLine]⟩, ⟨Head.bytes ⟨.getRoot, [closeLine]⟩, 1, greeting⟩)]).map
        answer) ∧
    t.executed.length = 2 ∧ t.conn.state = .kDisconnecting := by
  obtain ⟨t, hr, ht⟩ := machine.exists_run new
    [.connectEstablished, .deliver ⟨Head.bytes ⟨.getRoot, []⟩, 0, greeting⟩ tenBytes,
      .deliver ⟨Head.bytes ⟨.getRoot, [closeLine]⟩, 1, greeting⟩ tenBytes]
    (fun t => (t.executed.length, t.conn.state)) (2, .kDisconnecting) (by decide +kernel)
  obtain ⟨hex, hstate⟩ := Prod.mk.inj ht
  have hone : OneEach [⟨.getRoot, []⟩, ⟨.getRoot, [closeLine]⟩] 0 (deliveries
      [.deliver ⟨Head.bytes ⟨.getRoot, []⟩, 0, greeting⟩ tenBytes,
        .deliver ⟨Head.bytes ⟨.getRoot, [closeLine]⟩, 1, greeting⟩ tenBytes]) :=
    ⟨by decide, by decide, trivial⟩
  have hps : served [⟨.getRoot, []⟩, ⟨.getRoot, [closeLine]⟩] 0 (deliveries
      [.deliver ⟨Head.bytes ⟨.getRoot, []⟩, 0, greeting⟩ tenBytes,
        .deliver ⟨Head.bytes ⟨.getRoot, [closeLine]⟩, 1, greeting⟩ tenBytes]) =
      [(⟨.getRoot, []⟩, ⟨Head.bytes ⟨.getRoot, []⟩, 0, greeting⟩),
        (⟨.getRoot, [closeLine]⟩, ⟨Head.bytes ⟨.getRoot, [closeLine]⟩, 1, greeting⟩)] := by
    simp [deliveries, served]
  have hkeep : ∀ time, (response greeting (Head.request ⟨.getRoot, []⟩ time)).closeConnection =
      false := fun _ => rfl
  have h := answers_in_order hr Pipelining.incomplete_nil (by decide) hone hps.symm ?_ ?_
    (Machine.everyStep_of_forall (by simp [Healthy, tenBytes]))
  · exact ⟨t, h.2.2.1, hex, hstate⟩
  · simp [reply, greeting_framed]
  · exact List.forall_mem_singleton.mpr hkeep

end HttpConnection
end Muduo.Http
