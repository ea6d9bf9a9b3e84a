import Muduo.Net.ServerInvariant

/-! What the steps of a server do to the life of each connection. -/
namespace Muduo.Net
open Muduo.Support

/-- The moves of `state_` in one step. -/
inductive StateE.Advances : StateE → StateE → Prop where
  | same (state : StateE) : Advances state state
  | connect : Advances .kConnecting .kConnected
  | disconnect : Advances .kConnected .kDisconnecting
  | close : Advances .kConnected .kDisconnected
  | finish : Advances .kDisconnecting .kDisconnected

theorem Stage.up_iff {ran : List LifeCall} {state : StateE} {seen : List Bool}
    (h : Stage ran state seen) (hu : state.up) : ran = [.connectEstablished] ∧ seen = [true] := by
  cases h with
  | connecting => exact hu.elim
  | established => exact ⟨rfl, rfl⟩
  | closed => exact hu.elim
  | removed => exact hu.elim
  | destroyed => exact hu.elim

/-- Before `connectEstablished` the state is kConnecting, and at no other time. -/
theorem Stage.connecting_iff {ran : List LifeCall} {state : StateE} {seen : List Bool}
    (h : Stage ran state seen) : state = .kConnecting ↔ ran = [] := by
  cases h with
  | connecting => simp
  | established hu =>
    constructor
    · rintro rfl
      exact hu.elim
    · exact fun h => by cases h
  | closed => simp
  | removed => simp
  | destroyed => simp [life]

theorem Stage.ran_of_next {ran : List LifeCall} {state : StateE} {seen : List Bool} {x : LifeCall}
    (h : Stage ran state seen) (hp : ran ++ [x] <+: life) :
    (x = .connectEstablished → ran = []) ∧
    (x = .removeConnectionInLoop → ran = [.connectEstablished, .handleClose]) ∧
    (x = .connectDestroyed →
      ran = [.connectEstablished, .handleClose, .removeConnectionInLoop]) := by
  cases h <;> cases x <;> revert hp <;> decide

theorem quiet_stage {c c' : TcpConnection} {ran : List LifeCall}
    (h : Stage ran c.state c.upDowns)
    (hq : c.Quiet c') : Stage ran c'.state c'.upDowns := by
  rw [hq.upDowns]
  rcases hq.state with hs | ⟨hs, hs'⟩
  · rw [hs]
    exact h
  · rw [hs] at h
    rw [hs']
    obtain ⟨hran, hseen⟩ := h.up_iff trivial
    rw [hran, hseen]
    exact .established trivial

theorem quiet_advances {c c' : TcpConnection} (hq : c.Quiet c') : c.state.Advances c'.state := by
  rcases hq.state with hs | ⟨hs, hs'⟩
  · rw [hs]
    exact .same _
  · rw [hs, hs']
    exact .disconnect

theorem Functor.lifeCall_eq_none {f : Functor}
    (hf : f ≠ .connectEstablished ∧ f ≠ .connectDestroyed) : f.lifeCall = none := by
  cases f with
  | connectEstablished => exact absurd rfl hf.1
  | connectDestroyed => exact absurd rfl hf.2
  | _ => rfl

namespace TcpServer

/-- Every connection is still there, and its state has moved ahead at most. -/
def Advances (s s' : TcpServer) : Prop :=
  ∀ id o, s.objects id = some o →
    ∃ o', s'.objects id = some o' ∧ o.conn.state.Advances o'.conn.state

variable {s s' : TcpServer} {hand hand' : Option (ConnId × LifeCall)} {id : ConnId}
  {o : Connection} {loop : LoopId} {t : Task} {ts : List Task} {c : TcpConnection}
  {calls : List LifeCall}

theorem Advances.of_objects (h : s'.objects = s.objects) : Advances s s' := by
  intro id o ho
  rw [h]
  exact ⟨o, ho, .same _⟩

theorem Advances.of_update {o' : Connection} (ho : s.objects id = some o)
    (h : s'.objects = Function.update s.objects id (some o'))
    (hadv : o.conn.state.Advances o'.conn.state) : Advances s s' := by
  intro j p hp
  rw [h]
  by_cases hj : j = id
  · subst hj
    cases ho.symm.trans hp
    exact ⟨o', Function.update_self .., hadv⟩
  · exact ⟨p, (Function.update_of_ne hj _ _).trans hp, .same _⟩

theorem store_open (hc : c.closes = o.conn.closes) : s.store id o calls c = { s with
    objects := Function.update s.objects id
      (some { o with conn := { c with queued := [] }, ran := o.ran ++ calls })
    pending := s.pending.post o.loop (c.queued.map (.functor id)) } := by
  have hn : ¬ c.callbacks.count .close > o.conn.callbacks.count .close := by
    change ¬ c.closes > o.conn.closes
    omega
  unfold store
  simp only [if_neg hn, List.append_nil]

theorem store_closed (hc : c.closes = o.conn.closes + 1) : s.store id o [] c = { s with
    objects := Function.update s.objects id
      (some { o with conn := { c with queued := [] }, ran := o.ran ++ [.handleClose] })
    pending := s.pending.post o.loop (c.queued.map (.functor id))
    closing := Function.update s.closing o.loop (some id) } := by
  have hn : c.callbacks.count .close > o.conn.callbacks.count .close := by
    change c.closes > o.conn.closes
    omega
  unfold store
  simp only [if_pos hn, List.append_nil]

/-- A quiet operation of a connection, or its `connectDestroyed`. -/
theorem Inv.store_quiet (h : Inv s hand) (ho : s.objects id = some o) (hq : o.conn.Quiet c)
    (hran : Stage (o.ran ++ calls) c.state c.upDowns)
    (hcalls : .removeConnectionInLoop ∉ calls)
    (hhand : ∀ j x, j ≠ id → (hand' = some (j, x) ↔ hand = some (j, x)))
    (htok : Tokens o.loop (o.ran ++ calls) (s.inFlight id) (s.isClosing id) (handed hand' id)) :
    Inv (s.store id o calls c) hand' ∧ Advances s (s.store id o calls c) := by
  have halive := h.alive id o ho
  obtain ⟨fs, hfs, hconn, hlife⟩ := hq.queued
  rw [halive.queued, List.nil_append] at hfs
  rw [store_open hq.closes, hfs]
  have hstate : c.state = .kConnecting → o.conn.state = .kConnecting := by
    intro hx
    rcases hq.state with hs | ⟨_, hs⟩
    · rw [← hs]
      exact hx
    · rw [hs] at hx
      cases hx
  constructor
  · apply h.replace ho { o with conn := { c with queued := [] }, ran := o.ran ++ calls } fs s.closing
      s.connections hand' rfl rfl hran
    · exact ⟨hq.resting.input, hq.resting.output, hq.resting.idle⟩
    · rfl
    · exact hstate
    · exact fun hne hx => hne (hconn (hstate hx))
    · exact fun f hf => Functor.lifeCall_eq_none (hlife f hf)
    · exact h.registry_kept ho rfl (by simp [hcalls])
    · exact fun _ _ _ => Iff.rfl
    · exact hhand
    · exact htok
  · have hadv : o.conn.state.Advances c.state := quiet_advances hq
    exact .of_update ho rfl hadv

theorem Inv.store_same (h : Inv s none) (ho : s.objects id = some o) (hq : o.conn.Quiet c) :
    Inv (s.store id o [] c) none ∧ Advances s (s.store id o [] c) := by
  apply h.store_quiet ho hq
  · rw [List.append_nil]
    exact quiet_stage (h.alive id o ho).stage hq
  · exact List.not_mem_nil
  · exact fun _ _ _ => Iff.rfl
  · rw [List.append_nil]
    exact h.tokens id o ho

/-- What is in hand is the next call of the connection's life. -/
theorem Inv.hand_next {x : LifeCall} (h : Inv s (some (id, x))) (ho : s.objects id = some o)
    (hx : x ≠ .handleClose) : o.ran ++ [x] <+: life := by
  have hn := (h.tokens id o ho).next x hx
  by_contra hc
  rw [if_neg hc] at hn
  simp [handed] at hn

/-- `handleClose`, up to its close callback. -/
theorem Inv.store_closes (h : Inv s none) (ho : s.objects id = some o)
    (hl : s.closing o.loop = none) (hc : o.conn.Closes c) :
    Inv (s.store id o [] c) none ∧ Advances s (s.store id o [] c) := by
  have halive := h.alive id o ho
  obtain ⟨hran, hseen⟩ := halive.stage.up_iff hc.was
  have hq : c.queued = [] := hc.queued.trans halive.queued
  rw [store_closed hc.closes, hq, hran]
  constructor
  · apply h.replace ho { o with
      conn := { c with queued := [] }
      ran := [.connectEstablished] ++ [.handleClose] } []
      (Function.update s.closing o.loop (some id)) s.connections none rfl rfl
    · have hs : Stage [.connectEstablished, .handleClose] c.state c.upDowns := by
        rw [hc.state, hc.upDowns, hseen]
        exact .closed
      exact hs
    · exact ⟨hc.resting.input, hc.resting.output, hc.resting.idle⟩
    · rfl
    · intro hx
      exact absurd (hc.state.symm.trans hx) (by decide)
    · exact fun hx => absurd rfl hx
    · exact List.forall_mem_nil _
    · exact h.registry_kept ho rfl (by simp [hran])
    · intro l j hj
      by_cases hlo : l = o.loop
      · subst hlo
        simp [hl, hj.symm]
      · rw [Function.update_of_ne hlo]
    · exact fun _ _ _ => Iff.rfl
    · have htok := h.tokens id o ho
      rw [hran] at htok
      apply htok.move
      · intro l hlo
        rw [Function.update_of_ne hlo]
        exact htok.closer l hlo
      · intro x hx
        cases x with
        | handleClose => exact absurd rfl hx
        | connectEstablished => simp [life]
        | removeConnectionInLoop => simp [life, isClosing, hl]
        | connectDestroyed => simp [life]
  · have hadv : o.conn.state.Advances c.state := by
      have hw := hc.was
      rw [hc.state]
      cases hs : o.conn.state with
      | kConnecting => rw [hs] at hw; exact hw.elim
      | kConnected => exact .close
      | kDisconnecting => exact .finish
      | kDisconnected => exact .same _
    exact .of_update ho rfl hadv

theorem Inv.store_established (h : Inv s (some (id, .connectEstablished)))
    (ho : s.objects id = some o) (he : o.conn.Establishes c) :
    Inv (s.store id o [.connectEstablished] c) none ∧
      Advances s (s.store id o [.connectEstablished] c) := by
  have halive := h.alive id o ho
  have hran := (halive.stage.ran_of_next (h.hand_next ho (by decide))).1 rfl
  have hstage := halive.stage
  have hq : c.queued = [] := he.queued.trans halive.queued
  rw [hran] at hstage
  have hseen : o.conn.state = .kConnecting ∧ o.conn.upDowns = [] := by
    generalize o.conn.state = state at hstage
    generalize o.conn.upDowns = seen at hstage
    cases hstage
    exact ⟨rfl, rfl⟩
  rw [store_open he.closes, hq, hran]
  constructor
  · apply h.replace ho { o with
      conn := { c with queued := [] }
      ran := [] ++ [.connectEstablished] } [] s.closing s.connections none rfl rfl
    · have hs : Stage [.connectEstablished] c.state c.upDowns := by
        rw [he.state, he.upDowns, hseen.2]
        exact .established trivial
      exact hs
    · exact ⟨he.resting.input, he.resting.output, he.resting.idle⟩
    · rfl
    · intro hx
      exact absurd (he.state.symm.trans hx) (by decide)
    · exact fun hx => absurd rfl hx
    · exact List.forall_mem_nil _
    · exact h.registry_kept ho rfl (by simp [hran])
    · exact fun _ _ _ => Iff.rfl
    · intro j x hj
      simp [hj.symm]
    · have htok := h.tokens id o ho
      rw [hran] at htok
      apply htok.move htok.closer
      intro x hx
      cases x with
      | handleClose => exact absurd rfl hx
      | connectEstablished => simp [life]
      | removeConnectionInLoop => simp [life, isClosing]
      | connectDestroyed => simp [life]
  · have hadv : o.conn.state.Advances c.state := by
      rw [hseen.1, he.state]
      exact .connect
    exact .of_update ho rfl hadv

theorem Inv.store_destroyed (h : Inv s (some (id, .connectDestroyed)))
    (ho : s.objects id = some o) (hq : o.conn.Quiet c) :
    Inv (s.store id o [.connectDestroyed] c) none ∧
      Advances s (s.store id o [.connectDestroyed] c) := by
  have halive := h.alive id o ho
  have hran := (halive.stage.ran_of_next (h.hand_next ho (by decide))).2.2 rfl
  apply h.store_quiet ho hq
  · have hstage := quiet_stage halive.stage hq
    rw [hran] at hstage ⊢
    generalize c.state = state at hstage
    generalize c.upDowns = seen at hstage
    cases hstage
    exact .destroyed
  · decide
  · intro j x hj
    simp [hj.symm]
  · have htok := h.tokens id o ho
    rw [hran] at htok ⊢
    apply htok.move htok.closer
    intro x hx
    cases x with
    | handleClose => exact absurd rfl hx
    | connectEstablished => simp [life]
    | removeConnectionInLoop => simp [life, isClosing]
    | connectDestroyed => simp [life]

theorem deref_object (ho : s.objects id = some o) : s.deref id = .ok o := by
  simp only [deref, ho]

/-- The connection leaves the map, and its loop is asked to destroy it. -/
theorem removeConnectionInLoop_spec (h : Inv s (some (id, .removeConnectionInLoop)))
    (ho : s.objects id = some o) :
    ∃ s', s.removeConnectionInLoop id = .ok s' ∧ Inv s' none ∧ Advances s s' := by
  have halive := h.alive id o ho
  have hran := (halive.stage.ran_of_next (h.hand_next ho (by decide))).2.1 rfl
  have hfind : s.connections.find o.name = some id :=
    (h.registry o.name id).mpr ⟨o, ho, rfl, by rw [hran]; decide⟩
  have hsome : (s.connections.find o.name).isSome = true := by
    rw [hfind]
    rfl
  have hi : Inv { s with
      connections := s.connections.erase o.name
      objects := Function.update s.objects id
        (some { o with ran := o.ran ++ [LifeCall.removeConnectionInLoop] }) }
      (some (id, .connectDestroyed)) := by
    have hr := h.replace ho { o with ran := o.ran ++ [LifeCall.removeConnectionInLoop] } []
      s.closing (s.connections.erase o.name) (some (id, .connectDestroyed)) rfl rfl
    rw [List.map_nil, Mailbox.post_nil] at hr
    apply hr
    · have hstage := halive.stage
      rw [hran] at hstage ⊢
      generalize o.conn.state = state at hstage
      generalize o.conn.upDowns = seen at hstage
      cases hstage
      exact .removed
    · exact halive.resting
    · exact halive.queued
    · exact fun hx => hx
    · exact fun hx => absurd rfl hx
    · exact List.forall_mem_nil _
    · intro n j
      rw [OrderedMap.find_erase]
      constructor
      · intro hf
        split_ifs at hf with hn
        obtain ⟨p, hp, hpn, hpr⟩ := (h.registry n j).mp hf
        have hj : j ≠ id := by
          rintro rfl
          cases ho.symm.trans hp
          exact hn hpn.symm
        exact ⟨p, (Function.update_of_ne hj _ _).trans hp, hpn, hpr⟩
      · rintro ⟨p, hp, hpn, hpr⟩
        rcases update_some hp with ⟨rfl, rfl⟩ | ⟨hj, hp⟩
        · exact absurd (List.mem_append_right _ List.mem_cons_self) hpr
        · have hn : n ≠ o.name := by
            rintro rfl
            exact hj (h.name_injective hp ho hpn)
          rw [if_neg hn]
          exact (h.registry n j).mpr ⟨p, hp, hpn, hpr⟩
    · exact fun _ _ _ => Iff.rfl
    · intro j x hj
      simp [hj.symm]
    · have htok := h.tokens id o ho
      rw [hran] at htok ⊢
      apply htok.move htok.closer
      intro x hx
      cases x with
      | handleClose => exact absurd rfl hx
      | connectEstablished => simp [life]
      | removeConnectionInLoop => simp [life, isClosing]
      | connectDestroyed => simp [life]
  have hp := hi.post (t := .functor id .connectDestroyed) (Function.update_self ..) rfl
  refine ⟨_, ?_, hp, ?_⟩
  · unfold removeConnectionInLoop
    simp only [deref_object ho, ok_bind, assert_true hsome]
    rfl
  · exact .of_update ho rfl (.same _)

/-- The loop comes to the close callback. -/
theorem Inv.beginClose (h : Inv s none) (hc : s.closing loop = some id) :
    Inv { s with closing := Function.update s.closing loop none }
      (some (id, .removeConnectionInLoop)) := by
  have hother : ∀ l j, j ≠ id →
      (Function.update s.closing loop none l = some j ↔ s.closing l = some j) := by
    intro l j hj
    by_cases hl : l = loop
    · subst hl
      simp [hc, hj.symm]
    · rw [Function.update_of_ne hl]
  refine ⟨fun j p hp => ?_, fun j p hp => ?_, h.tasks, fun l j hl => ?_, h.known, h.range,
    h.registry, h.pool⟩
  · obtain ⟨hn, hs, hr, hq⟩ := h.alive j p hp
    exact ⟨hn, hs, hr, hq⟩
  · have htok := h.tokens j p hp
    by_cases hj : j = id
    · subst hj
      have hloop : loop = p.loop := by
        by_contra hne
        have := htok.closer loop hne
        simp [isClosing, hc] at this
      subst hloop
      apply htok.move
      · intro l hl
        have := htok.closer l hl
        simpa only [isClosing, Function.update_of_ne hl] using this
      · intro x hx
        cases x with
        | handleClose => exact absurd rfl hx
        | connectEstablished => simp
        | removeConnectionInLoop => simp [isClosing, hc]
        | connectDestroyed => simp
    · have hsame : ∀ l, isClosing { s with closing := Function.update s.closing loop none } j l =
          s.isClosing j l := by
        intro l
        simp only [isClosing, hother l j hj]
      apply htok.move
      · intro l hl
        exact (hsame l).trans (htok.closer l hl)
      · intro x _
        rw [hsame]
        simp [handed, Ne.symm hj]
  · by_cases hj : j = id
    · subst hj
      exact h.closers loop j hc
    · exact h.closers l j ((hother l j hj).mp hl)

theorem closeCallback_spec (h : Inv s none) (hc : s.closing loop ≠ none) :
    ∃ s', s.closeCallback loop = .ok s' ∧ Inv s' none ∧ Advances s s' := by
  obtain ⟨id, hid⟩ := Option.ne_none_iff_exists'.mp hc
  obtain ⟨o, ho⟩ := h.closers loop id hid
  have hi := h.beginClose hid
  unfold closeCallback
  simp only [hid, removeConnection]
  by_cases hl : loop = 0
  · rw [if_pos hl]
    obtain ⟨s', hok, hi', hadv⟩ := removeConnectionInLoop_spec hi ho
    exact ⟨s', hok, hi', hadv⟩
  · rw [if_neg hl]
    exact ⟨_, rfl, hi.post (t := .removeConnectionInLoop id) ho rfl, .of_objects rfl⟩

theorem getNextLoop_spec {p : EventLoopThreadPool} (h : p.loops = [] ∨ p.next < p.loops.length) :
    ∃ loop p', p.getNextLoop = .ok (loop, p') ∧ p'.loops = p.loops ∧
      (p'.loops = [] ∨ p'.next < p'.loops.length) := by
  unfold EventLoopThreadPool.getNextLoop
  by_cases hn : p.loops = []
  · rw [if_pos hn]
    exact ⟨0, p, rfl, rfl, .inl hn⟩
  · have hlt := h.resolve_left hn
    rw [if_neg hn]
    simp only [List.getElem?_eq_getElem hlt]
    refine ⟨_, _, rfl, rfl, .inr ?_⟩
    dsimp only
    split
    · omega
    · omega

/-- The connection that `newConnection` makes, before it is established. -/
theorem Inv.allocate (h : Inv s none) (hn : s.nextConnId ≤ INT_MAX) (loop : LoopId)
    (threadPool : EventLoopThreadPool)
    (hp : threadPool.loops = [] ∨ threadPool.next < threadPool.loops.length) : Inv { s with
      threadPool
      nextConnId := s.nextConnId + 1
      objects := Function.update s.objects s.nextConnId
        (some ⟨s.connName s.nextConnId, loop, .new s.writeCompleteCallback, []⟩)
      connections := s.connections.insert (s.connName s.nextConnId) s.nextConnId }
      (some (s.nextConnId, .connectEstablished)) ∧ s.objects s.nextConnId = none := by
  have hfresh : s.objects s.nextConnId = none := by
    cases ho : s.objects s.nextConnId with
    | none => rfl
    | some o => exact absurd (h.known _ o ho) (Nat.lt_irrefl _)
  refine ⟨⟨fun j p hp => ?_, fun j p hp => ?_, fun l t ht => ?_, fun l j hl => ?_,
    fun j p hp => ?_, Nat.succ_le_succ hn, fun n j => ?_, hp⟩, hfresh⟩
  · rcases update_some hp with ⟨rfl, rfl⟩ | ⟨_, hp⟩
    · exact ⟨rfl, .connecting, TcpConnection.new_resting _ _ _, rfl⟩
    · obtain ⟨hn, hs, hr, hq⟩ := h.alive j p hp
      exact ⟨hn, hs, hr, hq⟩
  · rcases update_some hp with ⟨rfl, rfl⟩ | ⟨hj, hp⟩
    · have hclosing : ∀ l, s.closing l ≠ some s.nextConnId := by
        intro l hl
        obtain ⟨o, ho⟩ := h.closers l _ hl
        cases hfresh.symm.trans ho
      have hflow := fun l x => h.inFlight_absent hfresh l x
      refine ⟨fun l x _ => hflow l x, fun l _ => if_neg (hclosing l), fun x hx => ?_⟩
      have hz : isClosing { s with
          threadPool
          nextConnId := s.nextConnId + 1
          objects := Function.update s.objects s.nextConnId
            (some ⟨s.connName s.nextConnId, loop, .new s.writeCompleteCallback, []⟩)
          connections := s.connections.insert (s.connName s.nextConnId) s.nextConnId }
          s.nextConnId loop = 0 := if_neg (hclosing loop)
      rw [hz]
      refine (congrArg (· + _ + _) (hflow _ x)).trans ?_
      cases x with
      | handleClose => exact absurd rfl hx
      | connectEstablished => simp [life]
      | removeConnectionInLoop => simp [life]
      | connectDestroyed => simp [life]
    · apply (h.tokens j p hp).move (h.tokens j p hp).closer
      intro x _
      simp [handed, Ne.symm hj, isClosing]
  · apply (h.tasks l t ht).kept
    exact fun j p hp => ⟨p, update_kept hfresh hp, rfl, fun hx => hx⟩
  · obtain ⟨p, hp⟩ := h.closers l j hl
    exact ⟨p, update_kept hfresh hp⟩
  · rcases update_some hp with ⟨rfl, rfl⟩ | ⟨_, hp⟩
    · exact Nat.lt_succ_self _
    · exact Nat.lt_succ_of_lt (h.known j p hp)
  · rw [OrderedMap.find_insert]
    by_cases hname : n = s.connName s.nextConnId
    · rw [if_pos hname]
      constructor
      · intro hj
        cases hj
        exact ⟨_, Function.update_self .., hname.symm, List.not_mem_nil⟩
      · rintro ⟨p, hp, hpn, _⟩
        rcases update_some hp with ⟨rfl, rfl⟩ | ⟨_, hp⟩
        · rfl
        · have hlt := h.known j p hp
          have hpname := (h.alive j p hp).name
          have hj : j = s.nextConnId := connName_injective
            (Nat.le_trans (Nat.le_of_lt hlt) hn) hn (hpname.symm.trans (hpn.trans hname))
          rw [hj]
    · rw [if_neg hname, h.registry]
      constructor
      · rintro ⟨p, hp, hpn, hpr⟩
        exact ⟨p, update_kept hfresh hp, hpn, hpr⟩
      · rintro ⟨p, hp, hpn, hpr⟩
        rcases update_some hp with ⟨rfl, rfl⟩ | ⟨_, hp⟩
        · exact absurd hpn.symm hname
        · exact ⟨p, hp, hpn, hpr⟩

theorem call_ok {f : TcpConnection → Except Fault TcpConnection} (ho : s.objects id = some o)
    (hf : f o.conn = .ok c) : s.call id calls f = .ok (s.store id o calls c) := by
  unfold call
  simp only [deref_object ho, ok_bind, hf]
  rfl

theorem call_quiet {f : TcpConnection → Except Fault TcpConnection} (h : Inv s none)
    (ho : s.objects id = some o) (hf : ∃ c, f o.conn = .ok c ∧ o.conn.Quiet c) :
    ∃ s', s.call id [] f = .ok s' ∧ Inv s' none ∧ Advances s s' := by
  obtain ⟨c, hok, hq⟩ := hf
  exact ⟨_, call_ok ho hok, h.store_same ho hq⟩

/-- An operation that may close the connection, in a loop that is not busy. -/
theorem call_effect {f : TcpConnection → Except Fault TcpConnection} (h : Inv s none)
    (ho : s.objects id = some o) (hl : s.closing o.loop = none)
    (hf : ∃ c, f o.conn = .ok c ∧ (o.conn.Quiet c ∨ o.conn.Closes c)) :
    ∃ s', s.call id [] f = .ok s' ∧ Inv s' none ∧ Advances s s' := by
  obtain ⟨c, hok, hq | hc⟩ := hf
  · exact ⟨_, call_ok ho hok, h.store_same ho hq⟩
  · exact ⟨_, call_ok ho hok, h.store_closes ho hl hc⟩

theorem establish_spec (h : Inv s (some (id, .connectEstablished))) (ho : s.objects id = some o) :
    ∃ s', s.call id [.connectEstablished] (·.connectEstablished) = .ok s' ∧ Inv s' none ∧
      Advances s s' := by
  have halive := h.alive id o ho
  have hran := (halive.stage.ran_of_next (h.hand_next ho (by decide))).1 rfl
  have hs : o.conn.state = .kConnecting := halive.stage.connecting_iff.mpr hran
  obtain ⟨c, hok, he⟩ := TcpConnection.connectEstablished_establishes halive.resting hs
  exact ⟨_, call_ok ho hok, h.store_established ho he⟩

theorem destroy_spec (h : Inv s (some (id, .connectDestroyed))) (ho : s.objects id = some o) :
    ∃ s', s.call id [.connectDestroyed] (·.connectDestroyed) = .ok s' ∧ Inv s' none ∧
      Advances s s' := by
  have halive := h.alive id o ho
  have hran := (halive.stage.ran_of_next (h.hand_next ho (by decide))).2.2 rfl
  have hs : o.conn.state = .kDisconnected := by
    have hstage := halive.stage
    rw [hran] at hstage
    generalize o.conn.state = state at hstage
    generalize o.conn.upDowns = seen at hstage
    cases hstage
    rfl
  obtain ⟨c, hok, hq⟩ := TcpConnection.connectDestroyed_quiet halive.resting hs
  exact ⟨_, call_ok ho hok, h.store_destroyed ho hq⟩

theorem newConnection_spec (h : Inv s none) (hn : s.nextConnId ≤ INT_MAX) :
    ∃ s', s.newConnection = .ok s' ∧ Inv s' none ∧ Advances s s' := by
  obtain ⟨loop, p, hpool, _, hp⟩ := getNextLoop_spec h.pool
  obtain ⟨hi, hfresh⟩ := h.allocate hn loop p hp
  have hold : Advances s { s with
      threadPool := p
      nextConnId := s.nextConnId + 1
      objects := Function.update s.objects s.nextConnId
        (some ⟨s.connName s.nextConnId, loop, .new s.writeCompleteCallback, []⟩)
      connections := s.connections.insert (s.connName s.nextConnId) s.nextConnId } := by
    intro j q hq
    have hj : j ≠ s.nextConnId := by
      rintro rfl
      cases hfresh.symm.trans hq
    exact ⟨q, (Function.update_of_ne hj _ _).trans hq, .same _⟩
  unfold newConnection
  simp only [hpool, ok_bind]
  by_cases hl : loop = 0
  · rw [if_pos hl]
    obtain ⟨s', hok, hi', hadv⟩ := establish_spec hi (Function.update_self ..)
    refine ⟨s', hok, hi', fun j q hq => ?_⟩
    have hj : j ≠ s.nextConnId := by
      rintro rfl
      cases hfresh.symm.trans hq
    exact hadv j q ((Function.update_of_ne hj _ _).trans hq)
  · rw [if_neg hl]
    have hi' := hi.post (t := .functor s.nextConnId .connectEstablished)
      (Function.update_self ..) rfl
    exact ⟨_, rfl, hi', hold⟩

/-- The task switches on reading for a connection that is down. -/
def readsDown (s : TcpServer) : Task → Prop
  | .functor id .startReadInLoop => ∃ o ∈ s.objects id, o.conn.state = .kDisconnected
  | _ => False

/-- No functor switches on reading for a connection that is down. -/
def ReadsUp (s : TcpServer) : Step → Prop
  | .runFunctor loop _ => ∀ t ∈ (s.pending loop).head?, ¬ s.readsDown t
  | _ => True

theorem runFunctor_spec {w : WriteResult} (h : Inv s none) (hl : s.closing loop = none)
    (hp : s.pending loop = t :: ts) (hw : answers w t)
    (hread : ¬ s.readsDown t) :
    ∃ s', s.runFunctor loop w = .ok s' ∧ Inv s' none ∧ Advances s s' := by
  have hi := h.take hp
  have hs := h.tasks loop t (by rw [hp]; exact List.mem_cons_self)
  unfold runFunctor
  rw [hp]
  dsimp only
  cases t with
  | removeConnectionInLoop i =>
    obtain ⟨o, ho⟩ := hs
    exact removeConnectionInLoop_spec hi ho
  | functor i f =>
    obtain ⟨o, ho, hlo, hconn⟩ := hs
    by_cases hce : f = .connectEstablished
    · subst hce
      exact establish_spec hi ho
    by_cases hcd : f = .connectDestroyed
    · subst hcd
      exact destroy_spec hi ho
    have hnone := Functor.lifeCall_eq_none ⟨hce, hcd⟩
    have hlife : Task.lifeCall (.functor i f) = none := by rw [Task.lifeCall, hnone]; rfl
    rw [hlife] at hi
    simp only [runTask, hnone, Option.toList_none]
    subst hlo
    apply call_effect hi ho hl
    apply TcpConnection.runFunctor_effect (h.alive i o ho).resting (hconn hnone) ⟨hce, hcd⟩
    · rintro rfl hd
      exact hread ⟨o, ho, hd⟩
    · rintro m data len rfl
      exact hw

theorem seenUp_state (h : Inv s none) (hu : s.seenUp id) :
    ∃ o, s.objects id = some o ∧ o.conn.state.up := by
  obtain ⟨o, ho, hseen, hd⟩ := hu
  refine ⟨o, ho, ?_⟩
  have hstage := (h.alive id o ho).stage
  have hmem : true ∈ o.conn.upDowns := List.mem_filterMap.mpr ⟨_, hseen, rfl⟩
  generalize o.ran = ran at hstage
  generalize o.conn.state = state at hstage hd ⊢
  generalize o.conn.upDowns = seen at hstage hmem
  cases hstage with
  | connecting => exact absurd hmem List.not_mem_nil
  | established hup => exact hup
  | closed => exact absurd rfl hd
  | removed => exact absurd rfl hd
  | destroyed => exact absurd rfl hd

/-- No step fails an assertion, and no connection moves back. -/
theorem step_spec (h : Inv s none) {a : Step} (he : machine.enabled s a) (hk : s.ReadsUp a) :
    ∃ s', machine.step s a = .ok s' ∧ Inv s' none ∧ Advances s s' := by
  cases a with
  | newConnection => exact newConnection_spec h he.2
  | runFunctor loop w =>
    obtain ⟨hl, t, ht, hw⟩ := he
    cases hp : s.pending loop with
    | nil =>
      rw [hp] at ht
      cases ht
    | cons u us =>
      rw [hp] at ht
      cases ht
      exact runFunctor_spec h hl hp hw (hk _ (by rw [hp]; rfl))
  | closeCallback loop => exact closeCallback_spec h he
  | handleRead id r =>
    obtain ⟨o, ho, hl, hn⟩ := he
    have hr := (h.alive id o ho).resting
    exact call_effect (f := fun c => c.handleRead r) h ho hl
      (TcpConnection.handleRead_effect hr (hr.idle hn) r)
  | handleWrite id w =>
    obtain ⟨⟨o, ho, _, _⟩, hw⟩ := he
    exact call_quiet (f := fun c => c.handleWrite w) h ho
      (TcpConnection.handleWrite_quiet (h.alive id o ho).resting (hw o ho))
  | handleClose id =>
    obtain ⟨o, ho, hl, hn⟩ := he
    have hr := (h.alive id o ho).resting
    obtain ⟨c, hok, hc⟩ := TcpConnection.handleClose_closes hr (hr.idle hn)
    exact call_effect (f := fun c => c.handleClose) h ho hl ⟨c, hok, .inr hc⟩
  | send id inLoopThread m data len w =>
    obtain ⟨o, ho⟩ := Option.ne_none_iff_exists'.mp he.1
    exact call_quiet (f := fun c => c.send inLoopThread m data len w) h ho
      (TcpConnection.send_quiet (h.alive id o ho).resting inLoopThread m data len he.2)
  | shutdown id inLoopThread =>
    obtain ⟨o, ho⟩ := Option.ne_none_iff_exists'.mp he
    exact call_quiet (f := fun c => return c.shutdown inLoopThread) h ho
      ⟨_, rfl, TcpConnection.shutdown_quiet (h.alive id o ho).resting inLoopThread⟩
  | forceClose id =>
    obtain ⟨o, ho⟩ := Option.ne_none_iff_exists'.mp he
    exact call_quiet (f := fun c => return c.forceClose) h ho
      ⟨_, rfl, TcpConnection.forceClose_quiet (h.alive id o ho).resting⟩
  | forceCloseWithDelay id =>
    obtain ⟨o, ho⟩ := Option.ne_none_iff_exists'.mp he
    exact call_quiet (f := fun c => return c.forceCloseWithDelay) h ho
      ⟨_, rfl, TcpConnection.forceCloseWithDelay_quiet (h.alive id o ho).resting⟩
  | startRead id inLoopThread =>
    obtain ⟨o, ho, hu⟩ := seenUp_state h he
    exact call_quiet (f := fun c => return c.startRead inLoopThread) h ho
      ⟨_, rfl, TcpConnection.startRead_quiet (h.alive id o ho).resting hu inLoopThread⟩
  | stopRead id inLoopThread =>
    obtain ⟨o, ho, hu⟩ := seenUp_state h he
    exact call_quiet (f := fun c => return c.stopRead inLoopThread) h ho
      ⟨_, rfl, TcpConnection.stopRead_quiet (h.alive id o ho).resting hu inLoopThread⟩

end TcpServer
end Muduo.Net
