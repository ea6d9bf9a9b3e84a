import Muduo.Http.HttpServer

/-! Streams of request heads, cut into deliveries. -/
namespace Muduo.Http.Pipelining
open Muduo.Base Muduo.Net Muduo.Support HttpContext

/-- A stream: heads one after another. -/
def stream (heads : List Head) : Bytes := heads.flatMap Head.bytes

def bytes (ds : List Delivery) : Bytes := ds.flatMap Delivery.bytes

/-- The beginning of a head, not all of it. -/
def Incomplete (xs : Bytes) : Prop := ∃ h : Head, ∃ rest, rest ≠ [] ∧ xs ++ rest = h.bytes

/-- How many heads the first `n` bytes of their stream complete. -/
def completed : List Head → Nat → Nat
  | [], _ => 0
  | h :: hs, n => if h.bytes.length ≤ n then completed hs (n - h.bytes.length) + 1 else 0

/-- Each of the deliveries behind the first `n` bytes completes one head at most. -/
def OneEach (heads : List Head) : Nat → List Delivery → Prop
  | _, [] => True
  | n, d :: ds => completed heads (n + d.bytes.length) ≤ completed heads n + 1 ∧
      OneEach heads (n + d.bytes.length) ds

/-- A complete head is waiting in the input buffer. -/
def Waits (s : Session) : Prop := ∃ h : Head, ∃ rest, s.inputBuffer.readable = h.bytes ++ rest

/-- The requests of the heads are dispatched, in order and once each, their receive
times apart, and after no delivery a complete head waits. -/
def DispatchesEach (s : Session) (heads : List Head) (ds : List Delivery) : Prop :=
  (∃ t, s.serve ds = .ok t ∧ t.dispatched.map (·.setReceiveTime .invalid) =
    s.dispatched.map (·.setReceiveTime .invalid) ++ heads.map (·.request .invalid)) ∧
  ∀ pre suf, ds = pre ++ suf → ∃ t, s.serve pre = .ok t ∧ ¬ Waits t

variable {s s' : Session} {u v : Bytes} {d : Delivery} {h : Head} {hs : List Head}

theorem head_bytes_ne_nil (h : Head) : h.bytes ≠ [] := by
  simp [Head.bytes, kCRLF]

theorem incomplete_nil : Incomplete [] :=
  ⟨⟨.getRoot, []⟩, _, head_bytes_ne_nil _, List.nil_append _⟩

theorem Incomplete.of_prefix (h : Incomplete v) (hp : u <+: v) : Incomplete u := by
  obtain ⟨w, rfl⟩ := hp
  obtain ⟨hd, rest, hne, he⟩ := h
  exact ⟨hd, w ++ rest, by simp [hne], by rw [← List.append_assoc, he]⟩

/-- An incomplete head has no end of line, or is lines of a head and an incomplete line. -/
theorem Incomplete.waits (h : Incomplete u) : search kCRLF u = none ∨
    ∃ hd : Head, ∃ tail, search kCRLF tail = none ∧ u = hd.lines ++ tail := by
  obtain ⟨hd, rest, hne, he⟩ := h
  have hrun : (scanner 0).run .new (u ++ rest) = .stopped (.ok (true, ⟨.kGotAll, hd.request 0⟩)) [] := by
    rw [he, ← List.append_nil hd.bytes, run_head]
  obtain ⟨c, unread, hw⟩ := Scanner.run_prefix_waiting hrun hne
  rcases input_cases u with hs | ⟨line, tail, hl, hn, rfl⟩ | ⟨hd', tail, hs, rfl⟩ |
    ⟨hd', line, tail, hc, rfl⟩
  · exact .inl hs
  · obtain ⟨_, _, _, hr⟩ := run_rejected hl hn tail
    rw [hr] at hw
    cases hw
  · exact .inr ⟨hd', tail, hs, rfl⟩
  · rw [run_colonFree hd' hc] at hw
    cases hw

theorem Incomplete.not_head (h : Incomplete u) : ¬ ∃ hd : Head, ∃ rest, u = hd.bytes ++ rest := by
  rintro ⟨hd, rest, rfl⟩
  obtain ⟨hd', rest', hne, he⟩ := h
  have hrun : (scanner 0).run .new (hd.bytes ++ rest ++ rest') =
      .stopped (.ok (true, ⟨.kGotAll, hd'.request 0⟩)) [] := by
    rw [he, ← List.append_nil hd'.bytes, run_head]
  rw [List.append_assoc, run_head] at hrun
  simp only [Scan.stopped.injEq] at hrun
  exact hne (List.append_eq_nil_iff.mp hrun.2).2

/-- A clean session in which the unread part of the stream is an incomplete head has no
head waiting. -/
theorem not_waits (hc : Session.Clean u s) (hu : Incomplete u) : ¬ Waits s := by
  rintro ⟨h, rest, he⟩
  cases hc with
  | line _ _ hr => exact hu.not_head ⟨h, rest, hr.symm.trans he⟩
  | headers _ _ tail _ _ hr _ hw =>
    rw [← hr, he, Head.bytes, Head.lines] at hw
    simp only [List.append_assoc] at hw
    rw [← List.append_assoc, h.requestLine.isLine.search] at hw
    cases hw

/-- The next bytes of a stream complete no head, or they begin with the next one. -/
private theorem next_cases {tail y : Bytes} (ht : Incomplete tail)
    (hw : v ++ y = stream hs ++ tail) :
    (Incomplete v ∧ completed hs v.length = 0) ∨
      ∃ h hs' rest, hs = h :: hs' ∧ v = h.bytes ++ rest ∧ rest ++ y = stream hs' ++ tail ∧
        completed hs v.length = completed hs' rest.length + 1 := by
  cases hs with
  | nil =>
    rw [stream, List.flatMap_nil, List.nil_append] at hw
    exact .inl ⟨ht.of_prefix ⟨y, hw⟩, rfl⟩
  | cons h hs =>
    rw [stream, List.flatMap_cons, List.append_assoc] at hw
    by_cases hle : h.bytes.length ≤ v.length
    · obtain ⟨rest, rfl⟩ := List.prefix_of_prefix_length_le ⟨_, hw.symm⟩ ⟨y, rfl⟩ hle
      rw [List.append_assoc] at hw
      refine .inr ⟨h, hs, rest, rfl, rfl, List.append_cancel_left hw, ?_⟩
      rw [completed, if_pos hle, List.length_append, Nat.add_sub_cancel_left]
    · obtain ⟨rest, he⟩ := List.prefix_of_prefix_length_le ⟨y, hw⟩ ⟨_, rfl⟩ (by omega)
      refine .inl ⟨⟨h, rest, ?_, he⟩, by rw [completed, if_neg hle]⟩
      rintro rfl
      rw [List.append_nil] at he
      exact hle (by rw [he])

private theorem completed_append (h : Head) (hs : List Head) (n : Nat) :
    completed (h :: hs) (h.bytes.length + n) = completed hs n + 1 := by
  rw [completed, if_pos (Nat.le_add_right _ _), Nat.add_sub_cancel_left]

private theorem oneEach_append (h : Head) (hs : List Head) (n : Nat) (ds : List Delivery) :
    OneEach (h :: hs) (h.bytes.length + n) ds ↔ OneEach hs n ds := by
  induction ds generalizing n with
  | nil => rfl
  | cons d ds ih =>
    rw [OneEach, OneEach, Nat.add_assoc, completed_append, completed_append, ih]
    simp only [Nat.add_le_add_iff_right]

/-- One delivery that dispatches `done`. -/
private theorem dispatchesEach_cons (done hs : List Head) (hok : s.deliver d = .ok s')
    (hw : ¬ Waits s) (hd : s'.dispatched.map (·.setReceiveTime .invalid) =
      s.dispatched.map (·.setReceiveTime .invalid) ++ done.map (·.request .invalid))
    (ds : List Delivery) :
    DispatchesEach s (done ++ hs) (d :: ds) ↔ DispatchesEach s' hs ds := by
  rw [DispatchesEach, DispatchesEach, Session.serve_cons hok, hd, List.map_append,
    List.append_assoc]
  refine and_congr_right fun _ => ⟨fun hall pre suf he => ?_, fun hall pre suf he => ?_⟩
  · rw [← Session.serve_cons hok]
    exact hall (d :: pre) suf (by rw [he, List.cons_append])
  · cases pre with
    | nil => exact ⟨s, rfl, hw⟩
    | cons a pre =>
      rw [List.cons_append] at he
      obtain ⟨rfl, he'⟩ := List.cons.inj he
      rw [Session.serve_cons hok]
      exact hall pre suf he'

private theorem deliver_incomplete (hc : Session.Clean u s) (hu : Incomplete (u ++ d.bytes)) :
    ∃ s', s.deliver d = .ok s' ∧ Session.Clean (u ++ d.bytes) s' ∧ s'.dispatched = s.dispatched := by
  obtain ⟨s', hok, hc', he⟩ := Session.deliver_waits hc hu.waits
  exact ⟨s', hok, hc', by rw [Session.dispatched, he, Session.dispatched]⟩

private theorem deliver_complete (hc : Session.Clean u s) {rest : Bytes}
    (he : u ++ d.bytes = h.bytes ++ rest) : ∃ s', s.deliver d = .ok s' ∧ Session.Clean rest s' ∧
      s'.inputBuffer.readable = rest ∧ s'.dispatched.map (·.setReceiveTime .invalid) =
        s.dispatched.map (·.setReceiveTime .invalid) ++ [h].map (·.request .invalid) := by
  rw [Head.bytes, List.append_assoc] at he
  obtain ⟨s', t, _, _, hok, hcs, hi, hr, hev⟩ := Session.deliver_head hc nil_colonFree he
  refine ⟨s', hok, .line hi hcs hr, hr, ?_⟩
  rw [Session.dispatched_answering hev, List.map_append, List.map_singleton, List.map_singleton, Head.request_setReceiveTime]

/-- From a clean session with an incomplete head unread, the rest of a stream is
dispatched head by head exactly if each delivery completes one head at most. -/
theorem serve_iff {tail : Bytes} (ht : Incomplete tail) (hc : Session.Clean u s)
    (hu : Incomplete u) (ds : List Delivery) (hw : u ++ bytes ds = stream hs ++ tail) :
    DispatchesEach s hs ds ↔ OneEach hs u.length ds := by
  induction ds generalizing s u hs with
  | nil =>
    have hnil : hs = [] := by
      cases hs with
      | nil => rfl
      | cons h hs =>
        rw [bytes, List.flatMap_nil, List.append_nil, stream, List.flatMap_cons,
          List.append_assoc] at hw
        exact absurd ⟨h, _, hw⟩ hu.not_head
    subst hnil
    refine ⟨fun _ => trivial, fun _ => ⟨⟨s, rfl, by simp⟩, fun pre suf he => ?_⟩⟩
    obtain ⟨rfl, rfl⟩ := List.append_eq_nil_iff.mp he.symm
    exact ⟨s, rfl, not_waits hc hu⟩
  | cons d ds ih =>
    have hzero : completed hs u.length = 0 := by
      rcases next_cases ht hw with ⟨_, hz⟩ | ⟨h, hs', rest, _, he, _⟩
      · exact hz
      · exact absurd ⟨h, rest, he⟩ hu.not_head
    rw [bytes, List.flatMap_cons, ← List.append_assoc] at hw
    rw [OneEach, hzero, ← List.length_append]
    rcases next_cases ht hw with ⟨hv, hz⟩ | ⟨h, hs, rest, rfl, he, hrest, hone⟩
    · obtain ⟨s', hok, hc', hd⟩ := deliver_incomplete hc hv
      rw [hz, ← ih hc' hv hw]
      have hcons := dispatchesEach_cons [] hs hok (not_waits hc hu)
        (by rw [hd, List.map_nil, List.append_nil]) ds
      rw [List.nil_append] at hcons
      simp [hcons]
    · obtain ⟨s', hok, hc', hr, hd⟩ := deliver_complete hc he
      rw [hone, he, List.length_append, oneEach_append]
      have hcons := dispatchesEach_cons [h] hs hok (not_waits hc hu) hd ds
      rw [List.singleton_append] at hcons
      rw [hcons]
      rcases next_cases ht hrest with ⟨hv, hz⟩ | ⟨h₂, hs₂, rest₂, rfl, he₂, _, htwo⟩
      · rw [hz, ← ih hc' hv hrest]
        simp
      · have hwaits : Waits s' := ⟨h₂, rest₂, hr.trans he₂⟩
        constructor
        · rintro ⟨_, hall⟩
          obtain ⟨t, ht, hn⟩ := hall [] _ rfl
          cases ht
          exact absurd hwaits hn
        · rintro ⟨hle, _⟩
          omega

/-- A delivery of a stream of which each completes one head at most. -/
theorem OneEach.next {tail : Bytes} {ds : List Delivery} (ht : Incomplete tail)
    (hu : Incomplete u) (hw : u ++ bytes (d :: ds) = stream hs ++ tail)
    (hone : OneEach hs u.length (d :: ds)) :
    (Incomplete (u ++ d.bytes) ∧ u ++ d.bytes ++ bytes ds = stream hs ++ tail ∧
      OneEach hs (u ++ d.bytes).length ds) ∨
    ∃ h hs' rest, hs = h :: hs' ∧ u ++ d.bytes = h.bytes ++ rest ∧ Incomplete rest ∧
      rest ++ bytes ds = stream hs' ++ tail ∧ OneEach hs' rest.length ds := by
  have hzero : completed hs u.length = 0 := by
    rcases next_cases ht hw with ⟨_, hz⟩ | ⟨h, hs', rest, _, he, _⟩
    · exact hz
    · exact absurd ⟨h, rest, he⟩ hu.not_head
  rw [bytes, List.flatMap_cons, ← List.append_assoc] at hw
  rw [OneEach, hzero, ← List.length_append] at hone
  rcases next_cases ht hw with ⟨hv, _⟩ | ⟨h, hs, rest, rfl, he, hrest, hone'⟩
  · exact .inl ⟨hv, hw, hone.2⟩
  · refine .inr ⟨h, hs, rest, rfl, he, ?_, hrest, ?_⟩
    · rcases next_cases ht hrest with ⟨hv, _⟩ | ⟨_, _, _, rfl, _, _, htwo⟩
      · exact hv
      · have hle := hone.1
        omega
    · rw [he, List.length_append, oneEach_append] at hone
      exact hone.2

/-- On a new connection every head of a stream is dispatched, once and in order, and none
is left waiting, exactly if each delivery completes one head at most. -/
theorem dispatches_each_iff (heads : List Head) (tail : Bytes) (ds : List Delivery)
    (ht : Incomplete tail) (h : bytes ds = stream heads ++ tail) :
    DispatchesEach .new heads ds ↔ OneEach heads 0 ds :=
  serve_iff ht Session.new_clean incomplete_nil ds h

/-- A head that is cut between CR and LF of its last line. -/
theorem cut_head_dispatched : DispatchesEach .new [⟨.getRoot, []⟩]
    [⟨text "GET / HTTP/1.1\r\n\r", 0, defaultHttpCallback⟩, ⟨text "\n", 1, defaultHttpCallback⟩] :=
  (dispatches_each_iff _ [] _ incomplete_nil (by decide)).mpr
    ⟨by decide, by decide, trivial⟩

/-- Two heads in one delivery: the second is left waiting. -/
theorem second_head_waits : ∃ s, Session.new.serve
    [⟨text "GET / HTTP/1.1\r\n\r\nGET / HTTP/1.1\r\n\r\n", 0, defaultHttpCallback⟩] = .ok s ∧
    s.dispatched.length = 1 ∧ Waits s := by
  have he : ([] : Bytes) ++ text "GET / HTTP/1.1\r\n\r\nGET / HTTP/1.1\r\n\r\n" =
      Head.bytes ⟨.getRoot, []⟩ ++ Head.bytes ⟨.getRoot, []⟩ := by decide
  obtain ⟨s, hok, _, hr, hd⟩ := deliver_complete Session.new_clean he
    (d := ⟨text "GET / HTTP/1.1\r\n\r\nGET / HTTP/1.1\r\n\r\n", 0, defaultHttpCallback⟩)
  refine ⟨s, by rw [Session.serve_cons hok]; rfl, ?_, ⟨.getRoot, []⟩, [], by rw [hr, List.append_nil]⟩
  simpa [Session.dispatched, Session.new] using congrArg List.length hd

end Muduo.Http.Pipelining
