import Muduo.Http.HttpServer
import Muduo.Net.ConnectionEffect

/-! A session and the `TcpConnection` it runs on: what becomes of the responses. -/
namespace Muduo.Http
open Muduo.Base Muduo.Net Muduo.Support

/-- Where a message lies in memory when it is sent, and what `write` takes of it. -/
structure Outgoing (message : Bytes) where
  memory : Memory
  data : Int
  result : WriteResult
  holds : memory.bytes data message.length = message
  within : result.Within 0 message.length

structure HttpConnection where
  conn : TcpConnection
  session : Session
  /-- The request whose response `onRequest` has not sent yet. -/
  request : Option HttpRequest
  /-- The requests handed to `httpCallback_`. -/
  executed : List HttpRequest
  /-- The requests whose response was sent while the connection was connected. -/
  answered : List (HttpRequest × Bytes)

namespace HttpConnection

inductive Step where
  | connectEstablished
  | deliver (d : Delivery) (out : (message : Bytes) → Outgoing message)
  | handleWrite (w : WriteResult)

/-- A connection the acceptor has just handed over; `HttpServer` sets neither of the two
optional callbacks. -/
def new : HttpConnection := ⟨.new, .new, none, [], []⟩

def send (h : HttpConnection) (message : Bytes) (out : Outgoing message) :
    Except Fault HttpConnection := do
  let conn ← h.conn.send true out.memory out.data message.length out.result
  let accepted := if h.conn.connected then h.request.toList.map (·, message) else []
  return { h with conn, request := none, answered := h.answered ++ accepted }

/-- A call of the session, made on the connection. -/
def perform (out : (message : Bytes) → Outgoing message) (h : HttpConnection) :
    Event → Except Fault HttpConnection
  | .httpCallback req => return { h with request := some req, executed := h.executed ++ [req] }
  | .send message => h.send message (out message)
  | .shutdown => return { h with conn := h.conn.shutdown true }

/-- The connection reads the bytes and hands its input buffer to `onMessage`. -/
def deliver (h : HttpConnection) (d : Delivery) (out : (message : Bytes) → Outgoing message) :
    Except Fault HttpConnection := do
  let conn ← h.conn.handleRead (.data d.bytes)
  let session ← Session.onMessage { h.session with inputBuffer := conn.inputBuffer } d.receiveTime
    d.httpCallback
  let conn := { conn with inputBuffer := session.inputBuffer }
  (session.events.drop h.session.events.length).foldlM (perform out) { h with conn, session }

/-- `connectEstablished` of the connection, whose callback is `onConnection`. -/
def connectEstablished (h : HttpConnection) : Except Fault HttpConnection := do
  let conn ← h.conn.connectEstablished
  return { h with conn, session := { h.session with context := .new } }

/-- The peer keeps the connection open: what it delivers is not empty. -/
def machine : Machine HttpConnection Step where
  enabled h
    | .connectEstablished => h.conn.state = .kConnecting
    | .deliver d _ => h.conn.state.up ∧ d.bytes ≠ []
    | .handleWrite w => w.Within 0 h.conn.outputBuffer.readableBytes
  step h
    | .connectEstablished => h.connectEstablished
    | .deliver d out => h.deliver d out
    | .handleWrite w => do
        let conn ← h.conn.handleWrite w
        return { h with conn }

instance enabledDecidable : (h : HttpConnection) → (a : Step) → Decidable (machine.enabled h a)
  | h, .connectEstablished => inferInstanceAs (Decidable (h.conn.state = .kConnecting))
  | h, .deliver d _ => inferInstanceAs (Decidable (h.conn.state.up ∧ d.bytes ≠ []))
  | h, .handleWrite w => inferInstanceAs (Decidable (w.Within 0 h.conn.outputBuffer.readableBytes))

/-- The accepted responses answer the requests handed to the callback, one to one and in
order. -/
def EachAnswered (h : HttpConnection) : Prop := h.answered.map Prod.fst = h.executed

instance (h : HttpConnection) : Decidable (EachAnswered h) :=
  inferInstanceAs (Decidable (_ = _))

/-- The unread input, with the bytes of the delivery, starts with a complete head. -/
def HasHead (s : Session) (d : Delivery) : Prop :=
  ∃ u, Session.Clean u s ∧ ∃ hd : Head, ∃ line rest, ColonFree line ∧
    u ++ d.bytes = hd.lines ++ (line ++ kCRLF ++ rest)

/-- A delivery arrives once the connection has left `kConnected`, and with it the unread input
starts with a complete head. -/
def TooLate (h : HttpConnection) : Step → Prop
  | .deliver d _ => h.conn.state ≠ .kConnected ∧ HasHead h.session d
  | .connectEstablished | .handleWrite _ => False

structure Inv (h : HttpConnection) : Prop where
  output : h.conn.outputBuffer.Inv
  input : h.conn.inputBuffer = h.session.inputBuffer
  idle : h.request = none
  session : (∃ u, Session.Clean u h.session) ∨ h.session.Spoiled

variable {h t : HttpConnection} {u : Bytes} {d : Delivery}
  {out : (message : Bytes) → Outgoing message}

theorem new_inv : Inv new :=
  ⟨Buffer.new_inv _, rfl, rfl, .inl ⟨[], Session.new_clean⟩⟩

/-- `send` always returns; the response is accepted if the connection is connected. -/
theorem send_spec (hi : h.conn.outputBuffer.Inv) (message : Bytes) (o : Outgoing message) :
    ∃ c, h.send message o = .ok { h with
        conn := c
        request := none
        answered := h.answered ++
          if h.conn.connected then h.request.toList.map (·, message) else [] } ∧
      c.state = h.conn.state ∧ c.inputBuffer = h.conn.inputBuffer ∧ c.outputBuffer.Inv := by
  obtain ⟨c, hok, hs⟩ := TcpConnection.sendInLoop_spec hi o.memory o.data message.length o.within
  by_cases hc : h.conn.state = .kConnected
  · refine ⟨c, ?_, hs.state, hs.input, hs.inv⟩
    simp only [send, TcpConnection.send, hc, hok, if_true, ok_bind]
    rfl
  · refine ⟨h.conn, ?_, rfl, rfl, hi⟩
    simp only [send, TcpConnection.send, hc, if_false]
    rfl

/-- The calls of a delivery are made on the connection that has read the bytes. -/
theorem deliver_eq (hi : Inv h) (hd : d.bytes ≠ []) (out : (message : Bytes) → Outgoing message)
    {s' : Session} {es : List Event} (hs : h.session.deliver d = .ok s') (he : s'.events = h.session.events ++ es) :
    ∃ c : TcpConnection, c.state = h.conn.state ∧ c.inputBuffer = s'.inputBuffer ∧
      c.outputBuffer.Inv ∧
      h.deliver d out = es.foldlM (perform out) { h with conn := c, session := s' } := by
  obtain ⟨b, hb, hs⟩ := bind_ok.mp hs
  obtain ⟨x, xs, hx⟩ := List.exists_cons_of_ne_nil hd
  have hread : h.conn.handleRead (.data d.bytes) =
      .ok (TcpConnection.messageCallback { h.conn with inputBuffer := b }) := by
    rw [TcpConnection.handleRead, hi.input, hb, ok_bind, hx]
    rfl
  refine ⟨{ TcpConnection.messageCallback { h.conn with inputBuffer := b } with
    inputBuffer := s'.inputBuffer }, rfl, rfl, hi.output, ?_⟩
  rw [deliver, hread, ok_bind]
  dsimp only [TcpConnection.messageCallback]
  rw [hs, ok_bind, he, List.drop_left]

/-- A delivery that completes no request executes none and answers none. -/
def Idle (h t : HttpConnection) : Prop := t.executed = h.executed ∧ t.answered = h.answered

/-- The request of a delivery is executed; it is answered if the connection is connected. -/
def Serves (h t : HttpConnection) : Prop := ∃ req message, t.executed = h.executed ++ [req] ∧
  t.answered = h.answered ++ if h.conn.connected then [(req, message)] else []

theorem Idle.eachAnswered (hn : Idle h t) (hp : EachAnswered h) : EachAnswered t := by
  rw [EachAnswered, hn.1, hn.2]
  exact hp

theorem Serves.eachAnswered_iff (hn : Serves h t) (hp : EachAnswered h) :
    EachAnswered t ↔ h.conn.state = .kConnected := by
  obtain ⟨req, message, hex, han⟩ := hn
  rw [EachAnswered, hex, han, List.map_append, show h.answered.map Prod.fst = h.executed from hp,
    List.append_cancel_left_eq]
  by_cases hc : h.conn.state = .kConnected
  · simp [TcpConnection.connected, hc]
  · simp [TcpConnection.connected, hc]

theorem perform_rejecting (out : (message : Bytes) → Outgoing message) {c : TcpConnection}
    (s' : Session) (hi : Inv h) (hc : c.outputBuffer.Inv) :
    ∃ c' : TcpConnection, Session.rejecting.foldlM (perform out)
        { h with conn := c, session := s' } = .ok { h with conn := c', session := s' } ∧
      c'.inputBuffer = c.inputBuffer ∧ c'.outputBuffer.Inv := by
  obtain ⟨c', hok, _, hin, hout⟩ := send_spec (h := { h with conn := c, session := s' }) hc
    (text "HTTP/1.1 400 Bad Request\r\n\r\n") (out _)
  obtain ⟨hkeep, hread⟩ := TcpConnection.shutdown_buffers c'
  refine ⟨c'.shutdown true, ?_, hread.trans hin, hkeep ▸ hout⟩
  rw [Session.rejecting, List.foldlM_cons, perform, hok, ok_bind, hi.idle]
  simp [perform, pure, Except.pure]

theorem perform_answering (out : (message : Bytes) → Outgoing message) {c : TcpConnection}
    (s' : Session) (hc : c.outputBuffer.Inv) (req : HttpRequest) (message : Bytes) (close : Bool) :
    ∃ c' : TcpConnection, (Session.answering req message close).foldlM (perform out)
        { h with conn := c, session := s' } = .ok { h with
          conn := c'
          session := s'
          request := none
          executed := h.executed ++ [req]
          answered := h.answered ++ if c.connected then [(req, message)] else [] } ∧
      c'.inputBuffer = c.inputBuffer ∧ c'.outputBuffer.Inv := by
  obtain ⟨c', hok, _, hin, hout⟩ := send_spec
    (h := { h with conn := c, session := s', request := some req, executed := h.executed ++ [req] })
    hc message (out message)
  cases close with
  | false =>
    refine ⟨c', ?_, hin, hout⟩
    simp only [Session.answering, Bool.false_eq_true, if_false, List.append_nil, List.foldlM_cons,
      List.foldlM_nil, perform, pure, Except.pure, ok_bind, hok]
    rfl
  | true =>
    obtain ⟨hkeep, hread⟩ := TcpConnection.shutdown_buffers c'
    refine ⟨c'.shutdown true, ?_, hread.trans hin, hkeep ▸ hout⟩
    simp only [Session.answering, if_true, List.cons_append, List.nil_append, List.foldlM_cons,
      List.foldlM_nil, perform, pure, Except.pure, ok_bind, hok]
    rfl

/-- The session answers the request whose head is complete, whatever it has taken of it before. -/
theorem HasHead.answers {s s' : Session} (hc : HasHead s d) (hok : s.deliver d = .ok s') :
    ∃ req message close, s'.events = s.events ++ Session.answering req message close := by
  obtain ⟨u, hclean, hd, line, rest, hline, he⟩ := hc
  obtain ⟨s'', t, message, close, hok', _, _, _, hev⟩ := Session.deliver_head hclean hline he
  rw [hok] at hok'
  cases hok'
  exact ⟨hd.request t, message, close, hev⟩

/-- A delivery on which the session only reads. -/
theorem deliver_reads {s' : Session} (hi : Inv h) (hd : d.bytes ≠ [])
    (hs : h.session.deliver d = .ok s') (hclean : Session.Clean u s')
    (hev : s'.events = h.session.events) (out : (message : Bytes) → Outgoing message) :
    ∃ t, h.deliver d out = .ok t ∧ Inv t ∧ ¬ HasHead h.session d ∧ Idle h t := by
  have hnil : s'.events = h.session.events ++ [] := by rw [hev, List.append_nil]
  obtain ⟨c, _, hin, hout, heq⟩ := deliver_eq hi hd out hs hnil
  refine ⟨_, heq, ⟨hout, hin, hi.idle, .inl ⟨u, hclean⟩⟩, ?_, rfl, rfl⟩
  intro hcomp
  obtain ⟨req, message, close, hev'⟩ := hcomp.answers hs
  have := List.append_cancel_left (hnil.symm.trans hev')
  cases this

/-- A delivery to a clean session returns; the request it completes is executed, and
answered if the connection is connected. -/
theorem deliver_clean (hi : Inv h) (hc : Session.Clean u h.session) (hd : d.bytes ≠ [])
    (out : (message : Bytes) → Outgoing message) : ∃ t, h.deliver d out = .ok t ∧ Inv t ∧
      (¬ HasHead h.session d ∧ Idle h t ∨ HasHead h.session d ∧ Serves h t) := by
  rcases HttpContext.input_cases (u ++ d.bytes) with hw | ⟨line, rest, hl, hn, he⟩ |
    ⟨hd', tail, hw, he⟩ | ⟨hd', line, rest, hline, he⟩
  · obtain ⟨s', hs, hclean, hev⟩ := Session.deliver_waits hc (.inl hw)
    obtain ⟨t, hok, ht, hidle⟩ := deliver_reads hi hd hs hclean hev out
    exact ⟨t, hok, ht, .inl hidle⟩
  · obtain ⟨s', hs, hev, hafter⟩ := Session.deliver_rejected hc hl hn he
    obtain ⟨c, _, hin, hout, heq⟩ := deliver_eq hi hd out hs hev
    obtain ⟨c', hperform, hin', hout'⟩ := perform_rejecting out s' hi hout
    refine ⟨_, heq.trans hperform, ⟨hout', hin'.trans hin, hi.idle, ?_⟩, .inl ⟨?_, rfl, rfl⟩⟩
    · rcases hafter with ⟨_, hsp⟩ | ⟨_, hclean⟩
      · exact .inr hsp
      · exact .inl ⟨_, hclean⟩
    · intro hcomp
      obtain ⟨req, message, close, hev'⟩ := hcomp.answers hs
      have := List.append_cancel_left (hev.symm.trans hev')
      cases this
  · obtain ⟨s', hs, hclean, hev⟩ := Session.deliver_waits hc (.inr ⟨hd', tail, hw, he⟩)
    obtain ⟨t, hok, ht, hidle⟩ := deliver_reads hi hd hs hclean hev out
    exact ⟨t, hok, ht, .inl hidle⟩
  · obtain ⟨s', t, message, close, hs, hcs, hinv, _, hev⟩ := Session.deliver_head hc hline he
    obtain ⟨c, hstate, hin, hout, heq⟩ := deliver_eq hi hd out hs hev
    obtain ⟨c', hperform, hin', hout'⟩ :=
      perform_answering (h := h) out s' hout (hd'.request t) message close
    refine ⟨_, heq.trans hperform,
      ⟨hout', hin'.trans hin, rfl, .inl ⟨_, .line hinv hcs rfl⟩⟩,
      .inr ⟨⟨u, hc, hd', line, rest, hline, he⟩, hd'.request t, message, rfl, ?_⟩⟩
    rw [TcpConnection.connected, TcpConnection.connected, hstate]

/-- A spoiled session takes no further delivery. -/
theorem deliver_spoiled (hi : Inv h) (hsp : h.session.Spoiled) (hd : d.bytes ≠ []) :
    h.deliver d out ≠ .ok t := by
  intro hok
  obtain ⟨c, hread, hok⟩ := bind_ok.mp hok
  obtain ⟨b, hb, hc⟩ := bind_ok.mp hread
  obtain ⟨x, xs, hx⟩ := List.exists_cons_of_ne_nil hd
  have hbuf : c.inputBuffer = b := by
    rw [hx] at hc
    cases hc
    rfl
  have hfault := Session.deliver_spoiled hsp d
  rw [Session.deliver, ← hi.input, hb, ok_bind] at hfault
  rw [hbuf, hfault] at hok
  cases hok

/-- A step keeps the invariant, and leaves every request answered unless it is too late. -/
theorem step_inv {a : Step} (hi : Inv h) (hp : EachAnswered h) (he : machine.enabled h a)
    (hs : machine.step h a = .ok t) : Inv t ∧ (EachAnswered t ↔ ¬ TooLate h a) := by
  cases a with
  | connectEstablished =>
    obtain ⟨c, hc, hs⟩ := bind_ok.mp hs
    obtain ⟨_, hc⟩ := assert_bind_ok.mp hc
    cases hc
    cases hs
    have hinv : h.session.inputBuffer.Inv := by
      rcases hi.session with ⟨_, hc⟩ | hsp
      · exact hc.inv
      · exact hsp.inv
    exact ⟨⟨hi.output, hi.input, hi.idle, .inl ⟨_, .line hinv rfl rfl⟩⟩, iff_of_true hp id⟩
  | deliver d out =>
    obtain ⟨hup, hd⟩ := he
    rcases hi.session with ⟨u, hc⟩ | hsp
    · obtain ⟨t', hok, ht, hcase⟩ := deliver_clean hi hc hd out
      rw [show h.deliver d out = .ok t from hs] at hok
      cases hok
      refine ⟨ht, ?_⟩
      rcases hcase with ⟨hn, hidle⟩ | ⟨hcomp, hserves⟩
      · exact iff_of_true (hidle.eachAnswered hp) fun htoo => hn htoo.2
      · rw [hserves.eachAnswered_iff hp]
        exact ⟨fun hstate htoo => htoo.1 hstate, fun hnot => by_contra fun hs => hnot ⟨hs, hcomp⟩⟩
    · exact absurd hs (deliver_spoiled hi hsp hd)
  | handleWrite w =>
    obtain ⟨c, hc, hs⟩ := bind_ok.mp hs
    cases hs
    obtain ⟨_, hin, hout⟩ := TcpConnection.handleWrite_keeps hi.output hc
    exact ⟨⟨hout, hin.trans hi.input, hi.idle, hi.session⟩, iff_of_true hp id⟩

/-- Memory that holds a message at address 0. -/
def holding (message : Bytes) : Memory := fun i => message.getD i.toNat 0

theorem holding_bytes (message : Bytes) {k n : Nat} (hn : k + n = message.length) :
    (holding message).bytes k n = message.drop k := by
  induction n generalizing k with
  | zero => rw [Memory.bytes, List.drop_eq_nil_of_le (by omega)]
  | succ n ih =>
    have hk : k < message.length := by omega
    have hrest := ih (show k + 1 + n = message.length by omega)
    rw [Int.natCast_add, Int.natCast_one] at hrest
    rw [Memory.bytes, hrest, List.drop_eq_getElem_cons hk, holding, Int.toNat_natCast,
      List.getD_eq_getElem?_getD, List.getElem?_eq_getElem hk, Option.getD_some]

/-- The kernel takes the message as a whole. -/
theorem taken_within (message : Bytes) :
    (WriteResult.accepted message.length).Within 0 message.length := by
  intro n hn
  cases hn
  exact ⟨Nat.zero_le _, Nat.le_refl _⟩

def whole (message : Bytes) : Outgoing message :=
  ⟨holding message, 0, .accepted message.length, holding_bytes message (Nat.zero_add _),
    taken_within message⟩

end HttpConnection
end Muduo.Http
