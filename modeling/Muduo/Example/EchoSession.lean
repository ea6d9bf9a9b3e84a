import Muduo.Example.EchoServer
import Muduo.Net.Session

/-! A client of the echo server, and the way of its bytes there and back. -/
namespace Muduo.Example
open Muduo.Net Muduo.Support

namespace EchoServer
variable {s t : EchoServer}

/-- What the server reads with a step. -/
def reads : Step → Bytes
  | .handleRead (.data bytes) _ _ _ => bytes
  | .handleRead (.failed _) .. | .connectEstablished | .handleWrite _ => []

theorem onMessage_accepted {c c' : TcpConnection} {m : Memory} {data : Int} {w : WriteResult}
    (hi : c.outputBuffer.Inv) (hin : c.inputBuffer.Inv)
    (hw : w.Within 0 c.inputBuffer.readable.length) (hok : onMessage c m data w = .ok c') :
    c.socket.accepted <+: c'.socket.accepted := by
  obtain ⟨b, hb, _⟩ := Buffer.retrieveAsString_spec hin (Nat.le_of_eq (Buffer.readable_length hin))
  rw [List.take_length, Buffer.readable_length hin] at hb
  rw [onMessage, Buffer.retrieveAllAsString, hb, ok_bind] at hok
  dsimp only at hok
  rw [TcpConnection.send] at hok
  split at hok
  · obtain ⟨d, hd, hs⟩ := TcpConnection.sendInLoop_spec (c := { c with inputBuffer := b })
      hi m data c.inputBuffer.readable.length hw
    rw [if_pos rfl] at hok
    cases hd.symm.trans hok
    exact hs.accepted ▸ List.prefix_append _ _
  · cases hok
    exact List.prefix_refl _

/-- Only a connection that is up is read from and written to. -/
theorem Phase.carries (h : Phase s)
    (hi : s.conn.channel.isReading = true ∨ s.conn.channel.isWriting = true) :
    Carries s.received false s.conn ∧ s.conn.inputBuffer.Inv ∧
      s.conn.inputBuffer.readable = [] ∧ s.conn.channel.reading = true := by
  cases h with
  | up output input taken reading => exact ⟨output, input, taken, reading⟩
  | connecting fresh =>
    subst fresh
    exact absurd hi (by decide)
  | down state output quiet =>
    have hoff : s.conn.channel.isReading = false ∧ s.conn.channel.isWriting = false := by
      simpa [Channel.isNoneEvent, Channel.isReading, Channel.isWriting] using quiet
    rw [hoff.1, hoff.2] at hi
    exact absurd hi (by decide)

theorem Phase.live (h : Phase s) (hs : s.conn.state = .kConnected) :
    Carries s.received false s.conn ∧ s.conn.inputBuffer.Inv ∧
      s.conn.inputBuffer.readable = [] ∧ s.conn.channel.reading = true := by
  cases h with
  | up output input taken reading => exact ⟨output, input, taken, reading⟩
  | connecting fresh =>
    rw [fresh] at hs
    cases hs
  | down state _ _ =>
    rw [state] at hs
    cases hs

/-- The server sends nothing that it has not read. -/
theorem Phase.accepted (h : Phase s) : s.conn.socket.accepted <+: s.received := by
  cases h with
  | up output _ _ _ => exact ⟨_, output.output⟩
  | connecting fresh =>
    rw [fresh]
    exact List.nil_prefix
  | down _ output _ => exact output

/-- The kernel keeps what it has, and the server what it has read. -/
theorem step_grows {a : Step} (h : Phase s) (he : machine.enabled s a) (hk : Healthy s a)
    (hok : machine.step s a = .ok t) :
    s.conn.socket.accepted <+: t.conn.socket.accepted ∧ t.received = s.received ++ reads a := by
  cases a with
  | connectEstablished =>
    obtain ⟨c, hc, hok⟩ := bind_ok.mp hok
    cases hok
    obtain ⟨_, hc⟩ := assert_bind_ok.mp hc
    cases hc
    exact ⟨List.prefix_refl _, (List.append_nil _).symm⟩
  | handleRead r m data w =>
    cases r with
    | failed errno =>
      obtain ⟨c, hc, hok⟩ := bind_ok.mp hok
      cases hok
      exact ⟨Session.handleRead_socket hc ▸ List.prefix_refl _, (List.append_nil _).symm⟩
    | data bytes =>
      cases bytes with
      | nil =>
        obtain ⟨c, hc, hok⟩ := bind_ok.mp hok
        cases hok
        exact ⟨Session.handleRead_socket hc ▸ List.prefix_refl _, (List.append_nil _).symm⟩
      | cons b bs =>
        obtain ⟨hc, hin, _, _⟩ := h.carries (.inl he.1)
        obtain ⟨c, hread, hok⟩ := bind_ok.mp hok
        obtain ⟨c', hmessage, hok⟩ := bind_ok.mp hok
        cases hok
        obtain ⟨buf, hbuf, hbinv, hbytes⟩ := Buffer.readFd_spec hin (b :: bs)
        rw [TcpConnection.handleRead, hbuf] at hread
        cases hread
        refine ⟨onMessage_accepted (c := ({ s.conn with
          inputBuffer := buf } : TcpConnection).messageCallback) hc.inv hbinv ?_ hmessage, rfl⟩
        show w.Within 0 buf.readable.length
        rw [hbytes]
        exact he.2.2
  | handleWrite w =>
    obtain ⟨hc, _⟩ := h.carries (.inr he.1)
    obtain ⟨c, hwrite, hok⟩ := bind_ok.mp hok
    cases hok
    obtain ⟨n, rfl, hn, hle⟩ := hk he.1
    obtain ⟨d, hd, hs⟩ := TcpConnection.handleWrite_spec hc.inv he.1 hn hle
    cases hd.symm.trans hwrite
    exact ⟨hs.accepted ▸ List.prefix_append _ _, (List.append_nil _).symm⟩

end EchoServer

/-- A connection to the server, from both ends. -/
structure EchoSession where
  client : Endpoint
  server : EchoServer
  /-- The server has destroyed its end. -/
  serverClosed : Bool

namespace EchoSession

/-- The server's end, as the client's kernel sees it. -/
def peer (s : EchoSession) : Endpoint :=
  ⟨s.server.conn, s.server.received, s.server.received, s.serverClosed⟩

/-- The client does as it likes with its connection, from any thread. -/
inductive Step where
  | client (o : Operation)
  | clientFunctor (w : WriteResult)
  | clientDestroyed
  | server (a : EchoServer.Step)
  | serverDestroyed

/-- What the server reads is what the client has written. -/
def serverReads (s : EchoSession) : EchoServer.Step → Prop
  | .handleRead r _ _ _ => Session.readAnswers s.peer s.client r
  | .connectEstablished | .handleWrite _ => True

def enabled (s : EchoSession) : Step → Prop
  | .client o => s.client.closed = false ∧ Session.dispatches s.client s.peer o ∧
      Session.answers s.client.conn o
  | .clientFunctor w => s.client.closed = false ∧
      ∃ f ∈ s.client.conn.queued.head?, Session.answers s.client.conn (.runFunctor f w)
  | .clientDestroyed => s.client.closed = false
  | .server a => s.serverClosed = false ∧ EchoServer.machine.enabled s.server a ∧ s.serverReads a
  | .serverDestroyed => s.serverClosed = false ∧ s.server.conn.state = .kDisconnected

def step (s : EchoSession) : Step → Except Fault EchoSession
  | .client o => do return { s with client := ← Session.operate s.client o }
  | .clientFunctor w =>
      match s.client.conn.queued with
      | [] => return s
      | f :: fs => do
          let e := { s.client with conn := { s.client.conn with queued := fs } }
          return { s with client := ← Session.operate e (.runFunctor f w) }
  | .clientDestroyed => do
      let conn ← s.client.conn.connectDestroyed
      return { s with client := { s.client with conn, closed := true } }
  | .server a => do return { s with server := ← EchoServer.machine.step s.server a }
  | .serverDestroyed => do
      let conn ← s.server.conn.connectDestroyed
      return { s with
        server := { s.server with conn }
        serverClosed := true }

def machine : Machine EchoSession Step := ⟨enabled, step⟩

/-- No write fails on an open stream, and one of buffered output takes at least a byte. -/
def Healthy (s : EchoSession) : Step → Prop
  | .client o => Session.Served s.client.conn o
  | .clientFunctor w =>
      ∀ f ∈ s.client.conn.queued.head?, Session.Served s.client.conn (.runFunctor f w)
  | .server a => EchoServer.Healthy s.server a
  | .clientDestroyed | .serverDestroyed => True

/-- The client's connection is up, and the server is about to learn of its own. -/
def Established (s : EchoSession) : Prop :=
  (∃ writeComplete highWater mark,
    (TcpConnection.new writeComplete highWater mark).connectEstablished = .ok s.client.conn) ∧
  s.client.sent = [] ∧ s.client.received = [] ∧ s.client.closed = false ∧
  s.server = .new ∧ s.serverClosed = false

/-- The bytes are on their way there, or on their way back. -/
structure Inv (s : EchoSession) : Prop where
  sends : Session.Sends s.client.conn s.client.sent
  there : s.server.received <+: s.client.conn.socket.accepted
  server : EchoServer.Phase s.server
  back : s.client.received <+: s.server.conn.socket.accepted

variable {s s' : EchoSession}

/-- What the client reads is what the server has written. -/
theorem Inv.clientReads (h : Inv s) {o : Operation} (hd : Session.dispatches s.client s.peer o) :
    s.client.received ++ Session.reads o <+: s.server.conn.socket.accepted := by
  have hback := h.back
  rw [← List.append_nil s.client.received] at hback
  cases o with
  | handleRead r =>
    cases r with
    | data bytes =>
      cases bytes with
      | nil => exact hback
      | cons b bs => exact hd.2
    | failed errno => exact hback
  | _ => exact hback

theorem Inv.serverReads (h : Inv s) {a : EchoServer.Step} (hd : s.serverReads a) :
    s.server.received ++ EchoServer.reads a <+: s.client.conn.socket.accepted := by
  have hthere := h.there
  rw [← List.append_nil s.server.received] at hthere
  cases a with
  | handleRead r m data w =>
    cases r with
    | data bytes =>
      cases bytes with
      | nil => exact hthere
      | cons b bs => exact hd
    | failed errno => exact hthere
  | _ => exact hthere

/-- The client's loop goes on. -/
theorem Inv.operate (h : Inv s) {e : Endpoint} {o : Operation}
    (he : Session.Sends e.conn s.client.sent) (hsent : e.sent = s.client.sent)
    (hsocket : e.conn.socket = s.client.conn.socket)
    (hreads : e.received ++ Session.reads o <+: s.server.conn.socket.accepted)
    (ha : Session.answers e.conn o) (hk : Session.Served e.conn o) {client : Endpoint}
    (hok : Session.operate e o = .ok client) : Inv { s with client } := by
  obtain ⟨c, hc, hok⟩ := bind_ok.mp hok
  cases hok
  obtain ⟨hs, hw⟩ := he.apply ha hk hc
  rw [hsocket] at hw
  exact ⟨hsent ▸ hs, h.there.trans hw, h.server, hreads⟩

theorem step_inv (s : EchoSession) (a : Step) (s' : EchoSession) (h : Inv s)
    (he : machine.enabled s a) (hk : Healthy s a) (hok : machine.step s a = .ok s') : Inv s' := by
  cases a with
  | client o =>
    obtain ⟨_, hd, ha⟩ := he
    obtain ⟨client, hop, hok⟩ := bind_ok.mp hok
    cases hok
    exact h.operate h.sends rfl rfl (h.clientReads hd) ha hk hop
  | clientFunctor w =>
    obtain ⟨_, f, hf, ha⟩ := he
    cases hq : s.client.conn.queued with
    | nil =>
      rw [hq] at hf
      cases hf
    | cons g fs =>
      have hg : g = f := by
        rw [hq] at hf
        exact Option.some.inj hf
      subst hg
      simp only [machine, step, hq] at hok
      obtain ⟨client, hop, hok⟩ := bind_ok.mp hok
      cases hok
      have hpop : Session.Sends { s.client.conn with queued := fs } s.client.sent :=
        h.sends.quiet ⟨rfl, rfl, rfl, rfl, Iff.rfl⟩
      have hreads : s.client.received ++ Session.reads (.runFunctor g w) <+:
          s.server.conn.socket.accepted := (List.append_nil s.client.received).symm ▸ h.back
      exact h.operate (e := { s.client with conn := { s.client.conn with queued := fs } })
        hpop rfl rfl hreads ha (hk g hf) hop
  | clientDestroyed =>
    obtain ⟨c, hc, hok⟩ := bind_ok.mp hok
    cases hok
    obtain ⟨hs, hsocket⟩ := h.sends.connectDestroyed hc
    exact ⟨hs, hsocket ▸ h.there, h.server, h.back⟩
  | server a =>
    obtain ⟨_, henabled, hreads⟩ := he
    obtain ⟨server, hstep, hok⟩ := bind_ok.mp hok
    cases hok
    obtain ⟨server', hstep', hphase⟩ := EchoServer.step_phase h.server henabled hk
    cases hstep.symm.trans hstep'
    obtain ⟨hgrows, hreceived⟩ := EchoServer.step_grows h.server henabled hk hstep
    refine ⟨h.sends, ?_, hphase, h.back.trans hgrows⟩
    show server.received <+: s.client.conn.socket.accepted
    rw [hreceived]
    exact h.serverReads hreads
  | serverDestroyed =>
    obtain ⟨_, hdown⟩ := he
    obtain ⟨c, hc, hok⟩ := bind_ok.mp hok
    cases hok
    cases h.server with
    | connecting fresh =>
      rw [fresh] at hdown
      cases hdown
    | up output _ _ _ =>
      rw [output.state] at hdown
      cases hdown
    | down state output quiet =>
      rw [TcpConnection.connectDestroyed, if_neg (by rw [state]; decide)] at hc
      obtain ⟨channel, hchannel, hc⟩ := bind_ok.mp hc
      cases hc
      obtain ⟨_, hchannel⟩ := assert_bind_ok.mp hchannel
      cases hchannel
      exact ⟨h.sends, h.there, .down state output quiet, h.back⟩

theorem established_inv (h : Established s) : Inv s := by
  obtain ⟨⟨writeComplete, highWater, mark, hc⟩, hsent, hreceived, _, hserver, _⟩ := h
  have hsends : Session.Sends s.client.conn s.client.sent := by
    rw [hsent]
    exact (Session.Sends.established hc).1
  refine ⟨hsends, ?_, .connecting hserver, ?_⟩
  · rw [hserver]
    exact List.nil_prefix
  · rw [hreceived]
    exact List.nil_prefix

theorem Inv.run (h : Inv s) {as : List Step} (hr : (machine.restrict Healthy).Run s as s') :
    Inv s' := by
  obtain ⟨hr, hk⟩ := Machine.run_restrict.mp hr
  exact hr.invariant_of_everyStep step_inv hk h

/-- What is on its way, where both ends are up. -/
theorem Inv.conserved (h : Inv s) (hc : s.client.conn.state ≠ .kDisconnected)
    (hs : s.server.conn.state = .kConnected) : ∃ there back,
    s.client.conn.socket.accepted = s.server.received ++ there ∧
    s.server.conn.socket.accepted = s.client.received ++ back ∧
    s.client.sent = s.client.received ++ back ++ s.server.conn.outputBuffer.readable ++ there ++
      s.client.conn.outputBuffer.readable := by
  obtain ⟨there, hthere⟩ := h.there
  obtain ⟨back, hback⟩ := h.back
  refine ⟨there, back, hthere.symm, hback.symm, ?_⟩
  have hup := (h.server.echoed.up hs).1
  calc s.client.sent
  _ = s.client.conn.socket.accepted ++ s.client.conn.outputBuffer.readable :=
    (h.sends.whole hc).symm
  _ = s.server.received ++ there ++ s.client.conn.outputBuffer.readable := by rw [hthere]
  _ = s.server.conn.socket.accepted ++ s.server.conn.outputBuffer.readable ++ there ++
      s.client.conn.outputBuffer.readable := by rw [hup]
  _ = _ := by rw [hback]

theorem bytes_getElem (msg : Bytes) {k n : Nat} (h : k + n ≤ msg.length) :
    Memory.bytes (fun p => msg[p.toNat]?.getD 0) k n = (msg.drop k).take n := by
  induction n generalizing k with
  | zero => rfl
  | succ n ih =>
    have hk : k < msg.length := by omega
    have hnext := ih (k := k + 1) (by omega)
    rw [Int.natCast_succ] at hnext
    rw [Memory.bytes, hnext, List.drop_eq_getElem_cons hk, List.take_succ_cons, Int.toNat_natCast,
      List.getElem?_eq_getElem hk, Option.getD_some]

/-- A memory that holds the message. -/
theorem exists_memory (msg : Bytes) : ∃ m : Memory, m.bytes 0 msg.length = msg := by
  refine ⟨_, (bytes_getElem msg (k := 0) (Nat.le_of_eq (Nat.zero_add _))).trans ?_⟩
  rw [List.drop_zero, List.take_length]

theorem run_client {o : Operation} (he : machine.enabled s (.client o))
    (hk : Session.Served s.client.conn o) {c : TcpConnection}
    (hok : o.apply s.client.conn = .ok c) :
    (machine.restrict Healthy).Run s [.client o] { s with client := { s.client with
      conn := c
      sent := s.client.sent ++ s.client.conn.gives o
      received := s.client.received ++ Session.reads o } } := by
  refine .singleton ⟨he, hk⟩ ?_
  simp only [Machine.restrict, machine, step, Session.operate, hok, ok_bind]
  rfl

theorem run_server {a : EchoServer.Step} (he : machine.enabled s (.server a))
    (hk : EchoServer.Healthy s.server a) {server : EchoServer}
    (hok : EchoServer.machine.step s.server a = .ok server) :
    (machine.restrict Healthy).Run s [.server a] { s with server } := by
  refine .singleton ⟨he, hk⟩ ?_
  simp only [Machine.restrict, machine, step, hok, ok_bind]
  rfl

/-- The client writes what is pending. -/
theorem Inv.clientWrites (h : Inv s) (ho : s.client.closed = false)
    (hl : s.client.conn.state ≠ .kDisconnected) :
    ∃ as s', (machine.restrict Healthy).Run s as s' ∧ s'.server = s.server ∧
      s'.serverClosed = s.serverClosed ∧ s'.client.closed = false ∧
      s'.client.conn.channel.reading = s.client.conn.channel.reading ∧
      s'.client.sent = s.client.sent ∧ s'.client.conn.socket.accepted = s.client.sent := by
  cases hw : s.client.conn.channel.writing with
  | false =>
    have hempty : s.client.conn.outputBuffer.readable = [] := by
      by_contra hne
      rw [(h.sends.interest hl).mpr hne] at hw
      cases hw
    refine ⟨[], s, .nil s, rfl, rfl, ho, rfl, rfl, ?_⟩
    rw [← h.sends.whole hl, hempty, List.append_nil]
  | true =>
    obtain ⟨hpos, d, hok, hacc⟩ := h.sends.flush hw
    obtain ⟨d', hok', hd⟩ := TcpConnection.handleWrite_spec h.sends.inv hw hpos (Nat.le_refl _)
    cases hok.symm.trans hok'
    have hrun := run_client
      (o := .handleWrite (.accepted s.client.conn.outputBuffer.readableBytes)) (c := d)
      ⟨ho, hw, fun n hn => by cases hn; exact ⟨Nat.zero_le _, Nat.le_refl _⟩⟩
      ⟨_, rfl, hpos⟩ hok
    exact ⟨_, _, hrun, rfl, rfl, ho, hd.reads, List.append_nil _, hacc⟩

/-- The server reads what the client has written. -/
theorem Inv.serverReadsAll (h : Inv s) (ho : s.serverClosed = false)
    (hs : s.server.conn.state = .kConnected) :
    ∃ as s', (machine.restrict Healthy).Run s as s' ∧ s'.client = s.client ∧
      s'.serverClosed = false ∧ s'.server.conn.state = .kConnected ∧
      s'.server.received = s.client.conn.socket.accepted := by
  obtain ⟨there, hthere⟩ := h.there
  cases there with
  | nil => exact ⟨[], s, .nil s, rfl, ho, hs, by rw [← hthere, List.append_nil]⟩
  | cons b bs =>
    obtain ⟨hc, hin, hempty, hreading⟩ := h.server.live hs
    obtain ⟨m, hm⟩ := exists_memory (s.server.conn.inputBuffer.readable ++ b :: bs)
    have hholds : EchoServer.Holds m 0 (.accepted 0)
        (s.server.conn.inputBuffer.readable ++ b :: bs) :=
      ⟨hm, fun n hn => by cases hn; exact ⟨Nat.le_refl _, Nat.zero_le _⟩⟩
    obtain ⟨server, hok, _, hstate, hreceived⟩ :=
      EchoServer.handleRead_data hc hin hempty hreading hholds ⟨0, rfl⟩
    have hbytes : s.server.received ++ b :: bs <+: s.client.conn.socket.accepted :=
      hthere ▸ List.prefix_rfl
    have hrun := run_server (a := .handleRead (.data (b :: bs)) m 0 (.accepted 0))
      ⟨ho, ⟨hreading, hholds⟩, hbytes⟩ (fun _ _ => ⟨0, rfl⟩) hok
    exact ⟨_, _, hrun, rfl, ho, hstate, hreceived.trans hthere⟩

/-- The server writes what it has read. -/
theorem Inv.serverWrites (h : Inv s) (ho : s.serverClosed = false)
    (hs : s.server.conn.state = .kConnected) :
    ∃ as s', (machine.restrict Healthy).Run s as s' ∧ s'.client = s.client ∧
      s'.server.conn.socket.accepted = s.server.received := by
  obtain ⟨hc, _⟩ := h.server.live hs
  obtain ⟨c, hok, hacc⟩ := EchoServer.drained hc
  cases hw : s.server.conn.channel.isWriting with
  | false =>
    have hempty : s.server.conn.outputBuffer.readable = [] := by
      by_contra hne
      rw [Channel.isWriting, hc.writing.mpr hne] at hw
      cases hw
    exact ⟨[], s, .nil s, rfl, by rw [← hc.output, hempty, List.append_nil]⟩
  | true =>
    have hpos : 1 ≤ s.server.conn.outputBuffer.readableBytes := Nat.pos_of_ne_zero fun hz =>
      hc.writing.mp hw ((Buffer.readable_eq_nil hc.inv).mpr hz)
    have hstep : EchoServer.machine.step s.server
        (.handleWrite (.accepted s.server.conn.outputBuffer.readableBytes)) =
        .ok { s.server with conn := c } := by
      simp only [EchoServer.machine, EchoServer.step, hok, ok_bind]
      rfl
    have hwithin : (WriteResult.accepted s.server.conn.outputBuffer.readableBytes).Within 0
        s.server.conn.outputBuffer.readableBytes := fun n hn => by
      cases hn
      exact ⟨Nat.zero_le _, Nat.le_refl _⟩
    have hrun := run_server
      (a := .handleWrite (.accepted s.server.conn.outputBuffer.readableBytes))
      ⟨ho, ⟨hw, hwithin⟩, trivial⟩ (fun _ => ⟨_, rfl, hpos, Nat.le_refl _⟩) hstep
    exact ⟨_, _, hrun, rfl, hacc⟩

/-- The client reads what the server has written. -/
theorem Inv.clientReadsAll (h : Inv s) (ho : s.client.closed = false)
    (hr : s.client.conn.channel.reading = true) :
    ∃ as s', (machine.restrict Healthy).Run s as s' ∧ s'.client.sent = s.client.sent ∧
      s'.client.received = s.server.conn.socket.accepted := by
  obtain ⟨back, hback⟩ := h.back
  cases back with
  | nil => exact ⟨[], s, .nil s, rfl, by rw [← hback, List.append_nil]⟩
  | cons b bs =>
    obtain ⟨buf, hbuf, _⟩ := Buffer.readFd_spec h.sends.input (b :: bs)
    have hok : s.client.conn.handleRead (.data (b :: bs)) =
        .ok ({ s.client.conn with inputBuffer := buf } : TcpConnection).messageCallback := by
      rw [TcpConnection.handleRead, hbuf]
      rfl
    have hbytes : s.client.received ++ b :: bs <+: s.server.conn.socket.accepted :=
      hback ▸ List.prefix_rfl
    have hrun := run_client (o := .handleRead (.data (b :: bs))) ⟨ho, ⟨hr, hbytes⟩, trivial⟩
      trivial hok
    exact ⟨_, _, hrun, List.append_nil _, hback⟩

/-- Along every run in which no write fails: what the client has received is a beginning of what
it has sent. While both ends are up, what it has sent and not received is on its way: with the
kernels or in the buffers, in this order; and all of it can still come back. -/
theorem echo_round_trip {s₀ s : EchoSession} {as : List Step} (he : Established s₀)
    (hr : machine.Run s₀ as s) (hk : machine.EveryStep s₀ as Healthy) :
    s.client.received <+: s.client.sent ∧
    (s.client.conn.state ≠ .kDisconnected → s.server.conn.state = .kConnected →
      (∃ there back, s.client.conn.socket.accepted = s.server.received ++ there ∧
        s.server.conn.socket.accepted = s.client.received ++ back ∧
        s.client.sent = s.client.received ++ back ++ s.server.conn.outputBuffer.readable ++
          there ++ s.client.conn.outputBuffer.readable) ∧
      (s.client.closed = false → s.serverClosed = false →
        s.client.conn.channel.reading = true →
        ∃ bs t, (machine.restrict Healthy).Run s bs t ∧ t.client.sent = s.client.sent ∧
          t.client.received = s.client.sent)) := by
  have h : Inv s := hr.invariant_of_everyStep step_inv hk (established_inv he)
  refine ⟨?_, fun hc hs => ⟨h.conserved hc hs, fun hclient hserver hreading => ?_⟩⟩
  · exact h.back.trans (h.server.accepted.trans (h.there.trans h.sends.beginning))
  · obtain ⟨as₁, t₁, hr₁, hs₁, hopen₁, hclient₁, hreading₁, hsent₁, hacc₁⟩ :=
      h.clientWrites hclient hc
    obtain ⟨as₂, t₂, hr₂, hc₂, hopen₂, hstate₂, hreceived₂⟩ :=
      (h.run hr₁).serverReadsAll (hopen₁.trans hserver) (by rw [hs₁]; exact hs)
    have h₂ := (h.run hr₁).run hr₂
    obtain ⟨as₃, t₃, hr₃, hc₃, hacc₃⟩ := h₂.serverWrites hopen₂ hstate₂
    have hsame : t₃.client = t₁.client := hc₃.trans hc₂
    obtain ⟨as₄, t₄, hr₄, hsent₄, hreceived₄⟩ := (h₂.run hr₃).clientReadsAll
      (by rw [hsame]; exact hclient₁) (by rw [hsame]; exact hreading₁.trans hreading)
    refine ⟨as₁ ++ (as₂ ++ (as₃ ++ as₄)), t₄, ?_, ?_, ?_⟩
    · exact Machine.run_append.mpr ⟨t₁, hr₁, Machine.run_append.mpr ⟨t₂, hr₂,
        Machine.run_append.mpr ⟨t₃, hr₃, hr₄⟩⟩⟩
    · rw [hsent₄, hsame, hsent₁]
    · rw [hreceived₄, hacc₃, hreceived₂, hacc₁]

instance serverReadsDecidable (s : EchoSession) :
    (a : EchoServer.Step) → Decidable (s.serverReads a)
  | .handleRead r _ _ _ => inferInstanceAs (Decidable (Session.readAnswers s.peer s.client r))
  | .connectEstablished | .handleWrite _ => isTrue trivial

instance enabledDecidable (s : EchoSession) : (a : Step) → Decidable (machine.enabled s a)
  | .client o => inferInstanceAs (Decidable (s.client.closed = false ∧
      Session.dispatches s.client s.peer o ∧ Session.answers s.client.conn o))
  | .clientFunctor w => inferInstanceAs (Decidable (s.client.closed = false ∧
      ∃ f ∈ s.client.conn.queued.head?, Session.answers s.client.conn (.runFunctor f w)))
  | .clientDestroyed => inferInstanceAs (Decidable (s.client.closed = false))
  | .server a => inferInstanceAs (Decidable (s.serverClosed = false ∧
      EchoServer.machine.enabled s.server a ∧ s.serverReads a))
  | .serverDestroyed => inferInstanceAs (Decidable (s.serverClosed = false ∧
      s.server.conn.state = .kDisconnected))

instance healthyDecidable (s : EchoSession) : (a : Step) → Decidable (Healthy s a)
  | .client o => inferInstanceAs (Decidable (Session.Served s.client.conn o))
  | .clientFunctor w => inferInstanceAs (Decidable
      (∀ f ∈ s.client.conn.queued.head?, Session.Served s.client.conn (.runFunctor f w)))
  | .server a => inferInstanceAs (Decidable (EchoServer.Healthy s.server a))
  | .clientDestroyed | .serverDestroyed => isTrue trivial

/-- Both ends are up, and the client reads. -/
def Live (s : EchoSession) : Prop :=
  s.client.conn.state ≠ .kDisconnected ∧ s.server.conn.state = .kConnected ∧
    s.client.closed = false ∧ s.serverClosed = false ∧ s.client.conn.channel.reading = true

instance (s : EchoSession) : Decidable s.Live := inferInstanceAs (Decidable (_ ∧ _))

/-- One byte of two is back, the other with the server's kernel. -/
theorem echo_round_trip_sample : ∃ s, machine.Run ⟨⟨Session.up, [], [], false⟩, .new, false⟩
      [.server .connectEstablished, .client (.send true EchoServer.hi 0 2 (.accepted 1)),
        .server (.handleRead (.data [104]) EchoServer.hi 0 (.accepted 0)),
        .client (.handleWrite (.accepted 1)), .server (.handleWrite (.accepted 1)),
        .client (.handleRead (.data [104]))] s ∧
    ∃ bs t, (machine.restrict Healthy).Run s bs t ∧ t.client.received = [104, 105] := by
  obtain ⟨s, hr, hs⟩ := (machine.restrict Healthy).exists_run
    ⟨⟨Session.up, [], [], false⟩, .new, false⟩
    [.server .connectEstablished, .client (.send true EchoServer.hi 0 2 (.accepted 1)),
      .server (.handleRead (.data [104]) EchoServer.hi 0 (.accepted 0)),
      .client (.handleWrite (.accepted 1)), .server (.handleWrite (.accepted 1)),
      .client (.handleRead (.data [104]))]
    (fun s => (decide s.Live, s.client.sent)) (true, [104, 105]) (by decide +kernel)
  obtain ⟨hlive, hsent⟩ := Prod.mk.inj hs
  obtain ⟨hc, hserver, hopen, hserverOpen, hreading⟩ := of_decide_eq_true hlive
  obtain ⟨hr, hk⟩ := Machine.run_restrict.mp hr
  have hstart : Established ⟨⟨Session.up, [], [], false⟩, .new, false⟩ :=
    ⟨⟨false, false, _, rfl⟩, rfl, rfl, rfl, rfl, rfl⟩
  obtain ⟨bs, t, ht, _, hreceived⟩ :=
    ((echo_round_trip hstart hr hk).2 hc hserver).2 hopen hserverOpen hreading
  exact ⟨s, hr, bs, t, ht, hreceived.trans hsent⟩

end EchoSession
end Muduo.Example
